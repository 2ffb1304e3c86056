import CobolSymbols.Proofs.Session.Leftovers

/-!
# Building a unit again and again

Building a file again first removes the programs that it gave before. This frees the slots of their variables, except
for those of the items outside of every storage section, which removal leaves behind. A unit takes as many slots each
time, so each time it is built again the slots grow by what is left behind, and not at all if nothing is.
-/

set_option autoImplicit false

namespace CobolSymbols

open List Table

namespace Declarations

open SlotTable (Fills)

variable {base old : Nat} {parent : Option ScopeRef} {d d' : Declarations}

/-- Slots are only filled while a unit is read. -/
theorem Move.fills (hmove : Move base old parent d d') (h : d.table.slots.InOrder) :
    Fills d.table.slots d'.table.slots := by
  cases hmove with
  | context c htable =>
    rw [table_setContext htable]
    exact Fills.refl h
  | refer id name position typeBody => cases typeBody <;> exact Fills.refl h
  | depend id element min max object typeBody =>
    rw [queueDependent_table]
    exact Fills.refl h
  | enter ref id =>
    have hslots : (d.enterIn id (some ref)).table.slots = d.table.slots := slots_enter d.table ref id
    rw [hslots]
    exact Fills.refl h
  | addToDomain id =>
    unfold Declarations.addToDomain
    split <;> exact Fills.refl h
  | addVariable id => exact h.fills_insert id
  | _ => exact Fills.refl h

theorem Works.fills (hworks : Works base d d') (h : d.table.slots.InOrder) : Fills d.table.slots d'.table.slots := by
  induction hworks with
  | refl => exact Fills.refl h
  | tail _ hwork ih =>
    refine ih.trans ?_
    cases hwork with
    | move old parent hmove => exact hmove.fills ih.inOrder
    | stack htable =>
      rw [htable]
      exact Fills.refl ih.inOrder

theorem Orderly.step_fills (h : d.Orderly base) (hstep : Step d d') : Fills d.table.slots d'.table.slots := by
  have hslots := h.regular.tidy.slots.inOrder
  rcases hstep.turn h.toReady with hturn | ⟨_, heq⟩
  · exact hturn.works.fills hslots
  · subst heq
    rw [d.leaveProgram.registries_link.2.2]
    exact Fills.refl hslots

theorem Orderly.steps_fills (h : d.Orderly base) (hsteps : Steps d d') : Fills d.table.slots d'.table.slots := by
  have hkept := hsteps.keep (P := fun d' => (∃ base, d'.Orderly base) ∧ Fills d.table.slots d'.table.slots)
    (fun hstep ⟨⟨_, hd⟩, hfills⟩ => ⟨(hd.step hstep).orderly, hfills.trans (hd.step_fills hstep)⟩)
    ⟨⟨base, h⟩, Fills.refl h.regular.tidy.slots.inOrder⟩
  exact hkept.2

end Declarations

namespace Table

variable {t t' : Table} {ρ : SymbolId → SymbolId} {id : SymbolId} {n : Nat}

section Alike

variable (h : t.Alike ρ t')
include h

theorem Alike.ownedBy_iff {owner : SymbolId} :
    t'.OwnedBy (ρ id) owner ↔ ∃ owner', t.OwnedBy id owner' ∧ owner = ρ owner' := by
  unfold OwnedBy
  rw [(h.get id).owner, Option.map_eq_some_iff]
  simp only [eq_comm]

/-- What a symbol lies in has a counterpart. -/
theorem Alike.within_iff {top : SymbolId} : t'.Within top (ρ id) ↔ ∃ top', t.Within top' id ∧ top = ρ top' := by
  constructor
  · intro hwithin
    induction hwithin with
    | refl => exact ⟨id, Relation.ReflTransGen.refl, rfl⟩
    | tail _ hown ih =>
      obtain ⟨top', hwithin', rfl⟩ := ih
      obtain ⟨owner', hown', rfl⟩ := h.ownedBy_iff.mp hown
      exact ⟨owner', hwithin'.tail hown', rfl⟩
  · rintro ⟨top', hwithin, rfl⟩
    exact Relation.ReflTransGen.lift ρ (fun _ owner hown => h.ownedBy_iff.mpr ⟨owner, hown, rfl⟩) _ _ hwithin

theorem Alike.sectionless_iff : t'.Sectionless (ρ id) ↔ t.Sectionless id := by
  have hkind : ∀ id, (t'.get (ρ id)).kind = (t.get id).kind := fun id => (h.get id).kind
  constructor
  · rintro ⟨hitem, htype, ⟨owner, hown, howner⟩, hstorage⟩
    obtain ⟨owner', hown', rfl⟩ := h.ownedBy_iff.mp hown
    rw [hkind] at hitem howner
    unfold IsType at htype
    rw [hkind] at htype
    rw [(h.get id).flags] at hstorage
    exact ⟨hitem, htype, ⟨owner', hown', howner⟩, hstorage⟩
  · rintro ⟨hitem, htype, ⟨owner, hown, howner⟩, hstorage⟩
    refine ⟨?_, ?_, ⟨ρ owner, h.ownedBy_iff.mpr ⟨owner, hown, rfl⟩, ?_⟩, ?_⟩
    · rw [hkind, hitem]
    · unfold IsType
      rw [hkind]
      exact htype
    · rw [hkind, howner]
    · rw [(h.get id).flags, hstorage]

theorem Alike.aside_iff : t'.Aside (ρ id) ↔ t.Aside id := by
  constructor
  · rintro ⟨item, hsection, hwithin⟩
    obtain ⟨item', hwithin', rfl⟩ := h.within_iff.mp hwithin
    exact ⟨item', h.sectionless_iff.mp hsection, hwithin'⟩
  · rintro ⟨item, hsection, hwithin⟩
    exact ⟨ρ item, h.sectionless_iff.mpr hsection, h.within_iff.mpr ⟨item, hwithin, rfl⟩⟩

theorem Alike.isSome_slot? : (t'.get (ρ id)).slot?.isSome = (t.get id).slot?.isSome := by
  unfold Symbol.slot?
  rcases (h.get id).item? with ⟨hs, hs'⟩ | ⟨data, data', hs, hs', hdata⟩
  · rw [hs, hs']
  · rw [hs, hs']
    exact hdata.slot

end Alike

section Counting

/-- How many of the symbols from `n` on hold a slot. -/
def heldFrom (t : Table) (n : Nat) : Nat := (List.range (t.size - n)).countP fun k => (t.get (n + k)).slot?.isSome

open Classical in
/-- The symbols from `n` on that lie in an item outside of every storage section. -/
noncomputable def asideFrom (t : Table) (n : Nat) : List SymbolId :=
  ((List.range (t.size - n)).filter fun k => t.Aside (n + k)).map (n + ·)

theorem mem_asideFrom : id ∈ t.asideFrom n ↔ n ≤ id ∧ t.Aside id := by
  unfold asideFrom
  simp only [mem_map, mem_filter, mem_range, decide_eq_true_eq]
  constructor
  · rintro ⟨k, ⟨_, haside⟩, rfl⟩
    exact ⟨Nat.le_add_right n k, haside⟩
  · rintro ⟨hle, haside⟩
    obtain ⟨k, rfl⟩ := Nat.exists_eq_add_of_le hle
    exact ⟨k, ⟨Nat.lt_sub_of_add_lt (Nat.add_comm n k ▸ haside.lt_size), haside⟩, rfl⟩

/-- The slots that are taken are those of the symbols before `n` and of those from `n` on. -/
theorem SlotsAgree.size_split (h : t.SlotsAgree) (hn : n ≤ t.size) :
    t.slots.size = ((List.range n).countP fun id => (t.get id).slot?.isSome) + t.heldFrom n := by
  have hrange : List.range t.size = List.range n ++ (List.range (t.size - n)).map (n + ·) := by
    rw [← range_add, Nat.add_sub_cancel' hn]
  rw [h.size_eq, slotHolders, ← countP_eq_length_filter, hrange, countP_append, countP_map]
  rfl

/-- Where the symbols before `n` hold the same slots, those from `n` on make the difference. -/
theorem SlotsAgree.size_grown (h : t.SlotsAgree) (h' : t'.SlotsAgree) (hsize : t.size ≤ t'.size)
    (hkept : ∀ id, id < t.size → (t'.get id).slot?.isSome = (t.get id).slot?.isSome) :
    t'.slots.size = t.slots.size + t'.heldFrom t.size := by
  have hold : ((List.range t.size).countP fun id => (t'.get id).slot?.isSome) =
      (List.range t.size).countP fun id => (t.get id).slot?.isSome := by
    apply countP_congr
    intro id hid
    rw [hkept id (mem_range.mp hid)]
  rw [h'.size_split hsize, hold, h.size_eq, slotHolders, ← countP_eq_length_filter]

/-- When those symbols from `n` on hold a slot that lie in an item outside of every section. -/
theorem heldFrom_eq_of_aside (hsize : t'.size = t.size)
    (hheld : ∀ id, n ≤ id → id < t.size → ((t'.get id).slot?.isSome = true ↔ t.Aside id)) :
    t'.heldFrom n = (t.asideFrom n).length := by
  classical
  unfold heldFrom asideFrom
  rw [length_map, ← countP_eq_length_filter, hsize]
  apply countP_congr
  intro k hk
  have hlt : n + k < t.size := Nat.add_lt_of_lt_sub' (mem_range.mp hk)
  rw [hheld (n + k) (Nat.le_add_right n k) hlt, decide_eq_true_eq]

/-- Tables that are alike by a shift hold as many slots beyond it, and as much lies outside of sections. -/
theorem Alike.counts {size : Nat} (h : t.Alike (shift (size - initial.size)) t') (hsize : initial.size ≤ size)
    (hle : initial.size ≤ t.size) : t'.heldFrom size = t.heldFrom initial.size ∧
      (t'.asideFrom size).length = (t.asideFrom initial.size).length := by
  have hshift : ∀ k, shift (size - initial.size) (initial.size + k) = size + k := fun k => by
    rw [shift_new, Nat.add_sub_cancel' hsize]
  constructor
  · unfold heldFrom
    rw [h.gap hsize hle]
    apply countP_congr
    intro k _
    rw [← hshift k, h.isSome_slot?]
  · unfold asideFrom
    rw [length_map, length_map, h.gap hsize hle]
    congr 1
    apply filter_congr
    intro k _
    rw [← hshift k]
    exact decide_eq_decide.mpr h.aside_iff

end Counting

end Table

theorem Symbol.slot?_of_lasting {s s' : Symbol} (h : s'.lasting = s.lasting) : s'.slot? = s.slot? := by
  have hlasting : ∀ s : Symbol, s.lasting.slot? = s.slot? := by
    intro s
    unfold Symbol.lasting Symbol.slot? Symbol.item?
    cases hbody : s.body <;> simp [hbody]
  rw [← hlasting s', h, hlasting s]

namespace Session

variable {s : Session}

theorem compile_fills (h : s.Regular) (file : FileId) (events : List Event) :
    SlotTable.Fills s.table.slots (s.compile file events).2.table.slots :=
  (Declarations.orderly_start (c := { s.context with file }) h.sound h.table).steps_fills
    (Build.unit_steps { s.context with file } events)

/-- The session after a file was built and then built `n` times again from the same events. -/
def rebuilt (s : Session) (file : FileId) (events : List Event) : Nat → Session
  | 0 => (s.compile file events).2
  | n + 1 => ((s.rebuilt file events n).recompile file events).2

section Slots

variable (options : Options) (actions : List Action) (file : FileId) (events : List Event)

/-- The table in which a unit and nothing else was built. -/
def unitAlone : Table := (({ options := options.checks } : Context).compile file events).2.table

/-- How many slots a unit takes. -/
def taken : Nat := (unitAlone options file events).heldFrom Table.initial.size

/-- How many symbols of a unit lie in an item outside of every storage section. -/
noncomputable def leftBehind : Nat := ((unitAlone options file events).asideFrom Table.initial.size).length

/-- A unit takes as many slots in any session as in one in which nothing was built, and as much of it lies outside of
sections. -/
theorem counts_compile :
    ((reached options actions).compile file events).2.table.heldFrom (reached options actions).table.size =
        taken options file events ∧
      (((reached options actions).compile file events).2.table.asideFrom (reached options actions).table.size).length =
        leftBehind options file events := by
  obtain ⟨_, _, _, halike⟩ := compile_shifted options actions file events
  exact halike.counts (furnished_reached options actions).1
    (furnished_compile (regular_start options) furnished_initial file events).1

theorem size_slots_compile : ((reached options actions).compile file events).2.table.slots.size =
    (reached options actions).table.slots.size + taken options file events := by
  have h := regular_reached options actions
  have hcontinues := (advances_compile h file events).continues
  rw [← (counts_compile options actions file events).1]
  refine h.table.tidy.slots.size_grown (h.compile file events).table.tidy.slots hcontinues.size_le fun id hid => ?_
  exact congrArg (fun l => Option.isSome l.slot) (hcontinues.kept id hid)

/-- Detaching a unit frees the slots that it has taken, but for the items outside of every section. -/
theorem size_slots_detach : (((reached options actions).compile file events).2.detach file).table.slots.size =
    (reached options actions).table.slots.size + leftBehind options file events := by
  have h := regular_reached options actions
  rw [← (counts_compile options actions file events).2]
  generalize reached options actions = s at h ⊢
  have hadvances := advances_compile h file events
  have hbuilt := h.compile file events
  have hpurged := hbuilt.purged_detach file
  have hunits : (List.lookup file (s.compile file events).2.units).getD [] = (s.compile file events).1.programs := by
    simp [Session.compile]
  rw [hunits] at hpurged
  obtain ⟨_, horderly⟩ := hadvances.orderly
  have hordered := hbuilt.table.tidy.ordered
  have hsize : s.table.size ≤ (s.compile file events).2.table.size := hadvances.continues.size_le
  -- the programs of the unit are new, so that what was there before keeps its slots
  have hspares := hpurged.spares s.table.size fun program hprog => by
    refine ⟨(hadvances.added program hprog).resolve_left nofun, fun owner hown => .inr ?_⟩
    exact hown.unique (horderly.listed program hprog).2
  have hold : ∀ id, id < s.table.size →
      (((s.compile file events).2.detach file).table.get id).slot?.isSome = (s.table.get id).slot?.isSome := by
    intro id hid
    rw [Symbol.slot?_of_lasting (hspares id hid)]
    exact congrArg (fun l => Option.isSome l.slot) (hadvances.continues.kept id hid)
  have hnew : ∀ id, s.table.size ≤ id → id < (s.compile file events).2.table.size →
      ((((s.compile file events).2.detach file).table.get id).slot?.isSome = true ↔
        (s.compile file events).2.table.Aside id) := by
    intro id hle hlt
    obtain ⟨_, program, hprog, hwithin⟩ := hadvances.gathered id hle hlt
    have hremoved := hpurged.removed_iff hordered hprog (horderly.listed program hprog).2 hwithin
    constructor
    · intro hheld
      by_contra hnot
      have hslot := ((hpurged.regular.standing id (hpurged.size_eq ▸ hlt)).slot.mp hheld).2
      rw [hremoved.mpr hnot] at hslot
      cases hslot
    · intro haside
      exact (hpurged.regular.held_of_aside hpurged.sound ((hpurged.aside_iff hordered hlt).mpr haside)).2
  rw [h.table.tidy.slots.size_grown hpurged.regular.tidy.slots (hpurged.size_eq ▸ hsize) hold,
    heldFrom_eq_of_aside hpurged.size_eq hnew]

/-- The slots after a unit was built `n` times again. The session before the last time is one that can be reached. -/
theorem slots_rebuilt (n : Nat) : ∃ actions',
    (reached options actions).rebuilt file events n = ((reached options actions').compile file events).2 ∧
    (reached options actions').table.slots.size =
      (reached options actions).table.slots.size + n * leftBehind options file events ∧
    ((reached options actions).rebuilt file events n).table.slots.capacity =
      max ((reached options actions).compile file events).2.table.slots.capacity
        ((reached options actions).rebuilt file events n).table.slots.size := by
  induction n with
  | zero =>
    refine ⟨actions, rfl, by omega, (Nat.max_eq_left ?_).symm⟩
    exact ((regular_reached options actions).compile file events).table.tidy.slots.inOrder.size_le_capacity
  | succ n ih =>
    obtain ⟨actions', hbefore, hsize, hcapacity⟩ := ih
    let actions'' := actions' ++ [.build ⟨false, file, events⟩, .detach file]
    have hreached : reached options actions'' = ((reached options actions').compile file events).2.detach file := by
      unfold reached
      rw [foldl_append]
      rfl
    have hrebuilt : (reached options actions).rebuilt file events (n + 1) =
        ((reached options actions'').compile file events).2 := by
      rw [hreached, ← hbefore]
      rfl
    have hdetached := size_slots_detach options actions' file events
    rw [← hreached] at hdetached
    refine ⟨actions'', hrebuilt, ?_, ?_⟩
    · rw [hdetached, hsize, Nat.succ_mul, Nat.add_assoc]
    · -- detaching adds no slot, and building adds one only when all are taken
      have hbefore' := size_slots_compile options actions' file events
      have hafter := size_slots_compile options actions'' file events
      have hfills := compile_fills (regular_reached options actions'') file events
      have hkept := (((regular_reached options actions').compile file events).purged_detach file).capacity
      rw [← hreached] at hkept
      have hgrown := hfills.capacity_eq
      rw [← hbefore] at hbefore' hkept
      rw [hrebuilt]
      omega

end Slots

/-- When a program of the root is removed, what lies in it is gone and its slots are free, except for the items that are
declared outside of every storage section and for what lies in them: these stay and keep their slots. So when a unit is
built again and again from the same events, what lies outside of its sections is left behind each time. The slots that
are occupied grow by as much, and all slots only as far as they have to; if nothing lies outside of sections, neither
grows. -/
theorem items_outside_sections_left_behind (options : Options) (actions : List Action) :
    let s := reached options actions
    (∀ program, (s.table.get program).kind = .program → s.table.OwnedBy program rootId →
      let t := (s.table.removeProgram program).2
      ∀ id, s.table.Within program id →
        (¬ s.table.Aside id → t.Gone id ∧ ∀ index, (s.table.get id).slot? = some index → t.slots.get? index = none) ∧
        (s.table.Aside id → (t.get id).isRemoved = false ∧
          ∃ index, (s.table.get id).slot? = some index ∧ t.slots.get? index = some id)) ∧
    ∀ file events, ∃ left : List SymbolId, left.Nodup ∧
      let built := (s.compile file events).2.table.slots
      (∀ id, id ∈ left ↔ s.table.size ≤ id ∧ (s.compile file events).2.table.Aside id) ∧
      (∀ n, (s.rebuilt file events n).table.slots.size = built.size + n * left.length ∧
        (s.rebuilt file events n).table.slots.capacity = max built.capacity (built.size + n * left.length)) ∧
      (left = [] → ∀ n, (s.rebuilt file events n).table.slots.size = built.size ∧
        (s.rebuilt file events n).table.slots.capacity = built.capacity) := by
  intro s
  have h := regular_reached options actions
  constructor
  · intro program hkind hown t id hwithin
    have hpurged := h.table.purged_removeProgram h.sound hkind
    have hcleared := (cleared_reached options actions).removeProgram (furnished_reached options actions) h.table h.sound hkind
    exact ⟨hpurged.gone h.table hcleared mem_cons_self hown hwithin,
      fun haside => hpurged.stays h.table haside.lt_size haside⟩
  · intro file events
    have hall : ∀ n, (s.rebuilt file events n).table.slots.size =
          (s.compile file events).2.table.slots.size + n * leftBehind options file events ∧
        (s.rebuilt file events n).table.slots.capacity = max (s.compile file events).2.table.slots.capacity
          ((s.compile file events).2.table.slots.size + n * leftBehind options file events) := by
      intro n
      obtain ⟨actions', hrebuilt, hsize, hcapacity⟩ := slots_rebuilt options actions file events n
      have hsize' : (s.rebuilt file events n).table.slots.size =
          (s.compile file events).2.table.slots.size + n * leftBehind options file events := by
        rw [hrebuilt, size_slots_compile, size_slots_compile, hsize]
        omega
      exact ⟨hsize', hsize' ▸ hcapacity⟩
    have hlength := (counts_compile options actions file events).2
    refine ⟨(s.compile file events).2.table.asideFrom s.table.size,
      (nodup_range.filter _).map fun _ _ heq => Nat.add_left_cancel heq,
      fun id => mem_asideFrom, fun n => hlength ▸ hall n, fun hnone n => ?_⟩
    rw [hnone, length_nil] at hlength
    obtain ⟨hsize, hcapacity⟩ := hall n
    rw [← hlength, Nat.mul_zero, Nat.add_zero] at hsize hcapacity
    refine ⟨hsize, hcapacity.trans (Nat.max_eq_left ?_)⟩
    exact (h.compile file events).table.tidy.slots.inOrder.size_le_capacity

/-- A program with an item outside of every storage section. -/
def sectionlessProgram : List Event :=
  [.startProgram { name := "P", position := ⟨1, 8⟩ }, .dataEntry ((DataEntry.named 1 "A" ⟨2, 8⟩).withPicture "X"),
    .endProgram none]

/-- The item outlives its program, and building the program again takes one more slot. -/
theorem item_outside_sections_outlives_program :
    let t := ((start {}).compile 0 sectionlessProgram).2.table
    t.OwnedBy 10 rootId ∧ t.OwnedBy 11 10 ∧ t.slots.size = 2 ∧ ((t.removeProgram 10).2.get 11).isRemoved = false ∧
      (t.removeProgram 10).2.slots.get? 1 = some 11 ∧
      ((start {}).rebuilt 0 sectionlessProgram 1).table.slots.size = 3 := by
  unfold OwnedBy
  decide +kernel

end Session

end CobolSymbols
