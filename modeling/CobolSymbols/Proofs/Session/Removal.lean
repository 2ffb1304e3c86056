import CobolSymbols.Proofs.Session.Universe

/-!
# Removal is exact

In every table that a session reaches, the symbols form a forest: each is entered once at most, into a symbol that was
made before it. Removing a program that belongs to the root therefore visits each symbol that can be reached from it
once, frees the slot of each variable among them once, and changes nothing else, except that the root stops to list the
program. Removing it again does nothing.
-/

set_option autoImplicit false

namespace CobolSymbols

open Relation Table List

namespace Table

variable {t t' : Table} {program id : SymbolId} {base : Nat} {ids : List SymbolId}

/-- A symbol lists another one in a scope, among the fields of a group or among the refused programs. -/
def Lists (t : Table) (container id : SymbolId) : Prop := id ∈ (t.get container).contents

/-- The slots that the symbols of a list hold. -/
def slotsOf (t : Table) (ids : List SymbolId) : List Nat := ids.filterMap fun id => (t.get id).slot?

/-- Removing a program of the root: `visited` is what the walk from the program meets, `count` and `t'` are what removal
gives. -/
structure Removal (t : Table) (program : SymbolId) (visited : List SymbolId) (count : Nat) (t' : Table) : Prop where
  /-- The walk ends by itself: no bound on its depth is ever reached. -/
  ends : ∀ steps, t.size ≤ steps → t.ownedWithin steps program = visited
  /-- It meets each symbol that can be reached once. -/
  nodup : visited.Nodup
  mem_visited : ∀ id, id ∈ visited ↔ ReflTransGen t.Lists program id
  count_eq : count = visited.length
  /-- What is visited is marked and holds no slot. -/
  gone : ∀ id ∈ visited, t'.get id = (t.get id).detached
  /-- All other symbols but the root are the same. -/
  kept : ∀ id, id ∉ visited → id ≠ rootId → t'.get id = t.get id
  size_eq : t'.size = t.size
  /-- The root has changed in the list of its programs only, which has lost the program. -/
  root : t'.get rootId = (t.get rootId).mapScopes fun scopes =>
    scopes.modify .programs fun programs => programs.without (t.name program) program
  root_programs : ∀ scope, (t.get rootId).scope? .programs = some scope →
    (scope.without (t.name program) program).order = scope.order.filter (· ≠ program) ∧
    ∀ name, (scope.without (t.name program) program).lookup name = (scope.lookup name).filter (· ≠ program)
  /-- Each slot that was held is freed once, and the others keep their variables. -/
  released : (t.slotsOf visited).Nodup ∧ t'.slots.size + (t.slotsOf visited).length = t.slots.size
  slots : ∀ index, t'.slots.get? index = if index ∈ t.slotsOf visited then none else t.slots.get? index
  /-- Names are found as before, what is visited left out. -/
  programs : ∀ name, t'.lookupProgram name = (t.lookupProgram name).filter (· ∉ visited)
  types : ∀ name, t'.lookupType name = (t.lookupType name).filter (· ∉ visited)
  /-- A second removal does nothing. -/
  again : t'.removeProgram program = (0, t')

theorem mem_slotsOf {index : Nat} (h : t.SlotsAgree) :
    index ∈ t.slotsOf ids ↔ ∃ id ∈ ids, t.slots.get? index = some id := by
  unfold slotsOf
  rw [mem_filterMap]
  simp only [h.slot_iff]

theorem slotHolders_filter (hsize : t'.size = t.size)
    (hslots : ∀ id, (t'.get id).slot?.isSome = ((t.get id).slot?.isSome && decide (id ∉ ids))) :
    t'.slotHolders = t.slotHolders.filter (· ∉ ids) := by
  unfold slotHolders
  rw [hsize, filter_filter]
  apply filter_congr
  intro id _
  rw [hslots, Bool.and_comm]

/-- The slots that are held are those that remain and those that are freed. -/
theorem length_slotHolders (hnodup : ids.Nodup) :
    (t.slotHolders.filter (· ∉ ids)).length + (t.slotsOf ids).length = t.slotHolders.length := by
  have hheld : (t.slotsOf ids).length = (ids.filter fun id => (t.get id).slot?.isSome).length := by
    unfold slotsOf
    rw [length_filterMap_eq_countP, countP_eq_length_filter]
  have hperm : (ids.filter fun id => (t.get id).slot?.isSome).Perm (t.slotHolders.filter (· ∈ ids)) := by
    rw [perm_ext_iff_of_nodup (hnodup.filter _) (t.nodup_slotHolders.filter _)]
    intro id
    rw [mem_filter, mem_filter, mem_slotHolders]
    simp [and_comm]
  rw [hheld, hperm.length_eq, Nat.add_comm]
  have hsplit := length_eq_length_filter_add (l := t.slotHolders) (fun id => decide (id ∈ ids))
  rw [hsplit]
  simp

theorem nodup_slotsOf (h : t.SlotsAgree) (hnodup : ids.Nodup) : (t.slotsOf ids).Nodup := by
  refine hnodup.filterMap ?_
  intro first second index hfirst hsecond
  have hfirst' := (h.slot_iff index first).mpr hfirst
  rw [(h.slot_iff index second).mpr hsecond] at hfirst'
  exact (Option.some.inj hfirst').symm

variable (h : t.Regular)
include h

theorem Regular.under_iff : t.Under program id ↔ ReflTransGen t.Lists program id := by
  have hswap : t.Lists = Function.swap t.EnteredIn := by
    funext container id
    exact propext ⟨h.enteredIn, EnteredIn.mem⟩
  rw [hswap, reflTransGen_swap]
  rfl

/-- No symbol is listed twice. -/
theorem Regular.nodup_lists : ((List.range t.size).flatMap fun c => (t.get c).contents).Nodup := by
  refine nodup_flatMap.mpr ⟨fun c _ => h.nodup_contents c, ?_⟩
  refine (nodup_range (n := t.size)).imp ?_
  intro first second hne id hfirst hsecond
  exact hne ((h.enteredIn hfirst).unique (h.enteredIn hsecond))

/-- A symbol that can be reached from another one through lists lies in the table. -/
theorem Regular.lt_of_lists (hlt : program < t.size) (hreach : ReflTransGen t.Lists program id) : id < t.size := by
  rcases ReflTransGen.cases_tail hreach with heq | ⟨container, _, hlists⟩
  · rw [heq]
    exact hlt
  · exact h.lt_size_of_entered (h.enteredIn hlists)

theorem Regular.removal (hsound : t.Sound base) (hkind : (t.get program).kind = .program)
    (hown : t.OwnedBy program rootId) (hpresent : (t.get program).isRemoved = false) :
    t.Removal program (t.owned program) (t.removeProgram program).1 (t.removeProgram program).2 := by
  have hlt := lt_size_of_program hkind
  have hroot := hsound.program_ne_root hkind
  have hdetached := h.detached_removeProgram hsound hkind hpresent
  have hnodup : (t.owned program).Nodup := h.nodup_ownedWithin t.size program
  have hmem : ∀ id, id ∈ t.owned program ↔ ReflTransGen t.Lists program id := by
    intro id
    rw [h.mem_owned hsound hkind, ← h.under_iff]
    exact ⟨fun hid => hid.1, fun hid => ⟨hid, h.lt_of_lists hlt (h.under_iff.mp hid)⟩⟩
  have hself := h.self_mem_owned hsound hkind
  have hrootOut : rootId ∉ t.owned program := by
    intro hid
    have hunder := ((h.mem_owned hsound hkind).mp hid).1
    exact hroot (hunder.le.antisymm (Nat.zero_le _))
  have howner : ∀ id, ((t.get program).owner = some id) ↔ id = rootId := by
    intro id
    rw [hown]
    exact ⟨fun heq => (Option.some.inj heq).symm, fun heq => by rw [heq]⟩
  have hslot : ∀ id, ((t.removeProgram program).2.get id).slot? =
      if id ∈ t.owned program then none else (t.get id).slot? := by
    intro id
    rw [hdetached.get]
    split
    · exact Symbol.slot?_detached _
    · exact t.slot?_delist program id
  have hsize : (t.removeProgram program).2.size = t.size := hdetached.size_eq.trans (t.delist_rest program).1
  constructor
  case ends =>
    intro steps hsteps
    exact h.ownedWithin_eq (hsteps.trans (Nat.le_add_left _ _)) (Nat.le_add_left _ _) hlt
  case nodup => exact hnodup
  case mem_visited => exact hmem
  case count_eq => rw [removeProgram_of_present hpresent, h.owned_delist]
  case gone =>
    intro id hid
    have hne : id ≠ rootId := fun heq => hrootOut (heq ▸ hid)
    rw [hdetached.get, if_pos hid, get_delist, if_neg fun heq => hne ((howner id).mp heq)]
  case kept =>
    intro id hid hne
    rw [hdetached.get, if_neg hid, get_delist, if_neg fun heq => hne ((howner id).mp heq)]
  case size_eq => exact hsize
  case root => rw [hdetached.get, if_neg hrootOut, get_delist, if_pos ((howner rootId).mpr rfl)]
  case root_programs =>
    intro scope hscope
    have hindexed := h.indexed.scopes rootId .programs scope hscope
    have hnodup' := h.nodup_order hscope
    refine ⟨hindexed.order_without hnodup' program, fun name => ?_⟩
    rw [(hindexed.without hnodup' program).lookup, hindexed.order_without hnodup' program, hindexed.lookup,
      filter_filter, filter_filter]
    apply filter_congr
    intro id _
    rw [Bool.and_comm]
  case released =>
    refine ⟨nodup_slotsOf h.tidy.slots hnodup, ?_⟩
    rw [hdetached.slotsAgree.size_eq, h.tidy.slots.size_eq, ← length_slotHolders (t := t) hnodup]
    congr 2
    refine slotHolders_filter hsize fun id => ?_
    rw [hslot]
    by_cases hid : id ∈ t.owned program <;> simp [hid]
  case slots =>
    intro index
    have hslots : (t.delist program).slots = t.slots := (t.delist_rest program).2.2.2
    rw [hdetached.slots, hslots]
    by_cases hindex : index ∈ t.slotsOf (t.owned program)
    · obtain ⟨id, hid, hget⟩ := (mem_slotsOf h.tidy.slots).mp hindex
      rw [if_pos hindex, hget]
      simp [Option.filter, hid]
    · rw [if_neg hindex]
      cases hget : t.slots.get? index with
      | none => rfl
      | some id =>
        have hid : id ∉ t.owned program := fun hid => hindex ((mem_slotsOf h.tidy.slots).mpr ⟨id, hid, hget⟩)
        simp [Option.filter, hid]
  case programs =>
    intro name
    have hprogs : (t.delist program).lookupProgram name = t.lookupProgram name := by
      unfold lookupProgram
      rw [(t.delist_rest program).2.2.1]
    rw [hdetached.programs, hprogs]
  case types =>
    intro name
    have htypes : (t.delist program).lookupType name = t.lookupType name := by
      unfold lookupType
      rw [(t.delist_rest program).2.1]
    rw [hdetached.types, htypes]
  case again =>
    apply removeProgram_of_removed
    rw [hdetached.get, if_pos hself]
    exact Symbol.isRemoved_detached _

end Table

namespace Session

/-- In every table that a session reaches no symbol is listed twice and none before the symbol that lists it; and removing
a program of the root that has not been removed visits what can be reached from it, each symbol once, and changes nothing
else but the list of the root's programs. -/
theorem removal_exact (options : Options) (actions : List Action) :
    let t := (reached options actions).table
    ((List.range t.size).flatMap fun container => (t.get container).contents).Nodup ∧
    (∀ container id, t.Lists container id → container < id) ∧
    ∀ program, (t.get program).kind = .program → t.OwnedBy program rootId →
      (t.get program).isRemoved = false →
      t.Removal program (t.owned program) (t.removeProgram program).1 (t.removeProgram program).2 := by
  have h := regular_reached options actions
  refine ⟨h.table.nodup_lists, ?_, ?_⟩
  · intro container id hlists
    exact (h.table.enteredIn hlists).lt
  · intro program hkind hown hpresent
    exact h.table.removal h.sound hkind hown hpresent

/-- The root is not visited when a program is removed from it, and yet it changes: it stops to list the program. -/
theorem root_changes_when_program_removed :
    let t := (reached {} [.build ⟨false, 0, [.startProgram { name := "P", position := ⟨1, 8⟩ }, .endProgram none]⟩]).table
    (t.get 10).kind = .program ∧ t.OwnedBy 10 rootId ∧ (t.get 10).isRemoved = false ∧
      rootId ∉ t.owned 10 ∧ (t.removeProgram 10).2.get rootId ≠ t.get rootId := by
  have hlists : let t := (reached {} [.build ⟨false, 0,
      [.startProgram { name := "P", position := ⟨1, 8⟩ }, .endProgram none]⟩]).table
      ((t.get 10).kind = .program ∧ (t.get 10).owner = some rootId ∧ (t.get 10).isRemoved = false ∧
        rootId ∉ t.owned 10) ∧ (t.get rootId).contents = [2, 3, 4, 5, 6, 7, 8, 9, 10] ∧
      ((t.removeProgram 10).2.get rootId).contents = [2, 3, 4, 5, 6, 7, 8, 9] := by
    decide +kernel
  obtain ⟨⟨hkind, hown, hpresent, hnot⟩, hbefore, hafter⟩ := hlists
  refine ⟨hkind, hown, hpresent, hnot, fun heq => ?_⟩
  rw [heq, hbefore] at hafter
  exact absurd hafter (by decide)

end Session

end CobolSymbols
