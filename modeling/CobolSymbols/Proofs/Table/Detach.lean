import CobolSymbols.Proofs.Table.Regular

/-!
# Detaching symbols

Detaching symbols one after the other takes each of them out of what is found by name, frees its slot and marks it. It
changes nothing else: all other symbols stay as they are, are found in the same order as before and keep their slots.
-/

set_option autoImplicit false

namespace CobolSymbols

open Symbol List

/-- A value that a domain keeps under one name only is found no more once it is deleted there. -/
theorem Domain.lookup_without_of_only {α : Type} [DecidableEq α] {d : Domain α} {name : String} {value : α}
    (hkeyed : d.Keyed) (hnodup : (d.lookup name).Nodup) (honly : ∀ key, value ∈ d.lookup key → key = name)
    (key : String) : (d.without name value).lookup key = (d.lookup key).filter (· ≠ value) := by
  rw [Domain.lookup_without hkeyed]
  split
  · rename_i hkey
    rw [eraseLast?_getD hnodup, hkey]
  · rename_i hkey
    symm
    rw [filter_eq_self]
    intro other hother
    have hne : other ≠ value := by
      rintro rfl
      exact hkey (honly key hother)
    simpa using hne

/-- The symbol without its slot and marked as removed. -/
def Symbol.detached (s : Symbol) : Symbol :=
  (s.mapItem fun data => { data with variableSlot := none }).addFlags (.single .removed)

namespace Symbol

variable (s : Symbol)

theorem mapItem_of_slot? {s : Symbol} (h : s.slot? = none) :
    (s.mapItem fun data => { data with variableSlot := none }) = s := by
  unfold slot? item? at h
  unfold mapItem
  cases hbody : s.body with
  | item data =>
    rw [hbody] at h
    have hnone : data.variableSlot = none := h
    have hdata : ({ data with variableSlot := none } : ItemData) = data := by
      cases data
      simp_all
    simp only [hdata, ← hbody]
  | _ => rfl

theorem fields?_detached : s.detached.fields? = s.fields? := by simp [detached, addFlags, fields?]

theorem slot?_detached : s.detached.slot? = none := by
  have hslot : s.detached.slot? = (s.mapItem fun data => { data with variableSlot := none }).slot? := rfl
  rw [hslot, slot?_mapItem]
  cases s.item? <;> rfl

theorem isRemoved_detached : s.detached.isRemoved = true := by
  simp [detached, addFlags, isRemoved, SymbolFlag.has_single]

theorem storage?_detached : s.detached.flags.storage? = s.flags.storage? := by
  apply SymbolFlags.storage?_congr
  intro storage
  cases storage <;> simp [detached, addFlags, SymbolFlag.has_single, StorageSection.flag]

end Symbol

/-- The ledger of a symbol that is detached. -/
def Ledger.detached (l : Ledger) : Ledger :=
  { l with slot := none, types := fun _ => 0, programs := fun _ => 0, removed := true }

namespace Table

variable {t t' : Table} {id : SymbolId} {ids : List SymbolId}

/-- Types and programs are found once, under their own name. -/
structure Filed (t : Table) : Prop where
  types_keyed : t.types.Keyed
  types_nodup : ∀ name, (t.lookupType name).Nodup
  types_only : ∀ name id, id ∈ t.lookupType name → (t.get id).kind = .typeDefinition ∧ name = t.name id
  programs_keyed : t.programs.Keyed
  programs_nodup : ∀ name, (t.lookupProgram name).Nodup
  programs_only : ∀ name id, id ∈ t.lookupProgram name → (t.get id).kind.isProgramLike = true ∧ name = t.name id

/-- What the second table has of the first one when some of its symbols have been detached. -/
structure Detached (ids : List SymbolId) (t t' : Table) : Prop where
  size_eq : t'.size = t.size
  get : ∀ id, t'.get id = if id ∈ ids then (t.get id).detached else t.get id
  types : ∀ name, t'.lookupType name = (t.lookupType name).filter (· ∉ ids)
  programs : ∀ name, t'.lookupProgram name = (t.lookupProgram name).filter (· ∉ ids)
  slots : ∀ index, t'.slots.get? index = (t.slots.get? index).filter (· ∉ ids)
  capacity : t'.slots.capacity = t.slots.capacity
  slotsAgree : t'.SlotsAgree
  types_keyed : t'.types.Keyed
  programs_keyed : t'.programs.Keyed

theorem Detached.refl (hfiled : t.Filed) (hslots : t.SlotsAgree) : Detached [] t t where
  size_eq := rfl
  get id := by simp
  types name := by simp
  programs name := by simp
  slots index := by cases t.slots.get? index <;> simp [Option.filter]
  capacity := rfl
  slotsAgree := hslots
  types_keyed := hfiled.types_keyed
  programs_keyed := hfiled.programs_keyed

/-- The tables of names when a symbol is detached. -/
def unregister (t : Table) (id : SymbolId) : Table :=
  match (t.get id).kind with
  | .program | .procedure | .namespaceKind => { t with programs := t.programs.without (t.name id) id }
  | .typeDefinition => { t with types := t.types.without (t.name id) id }
  | _ => t

theorem detach_eq (t : Table) (id : SymbolId) :
    t.detach id = ((t.unregister id).removeVariable id).modify id (Symbol.addFlags (.single .removed)) := by
  rfl

theorem unregister_symbols (t : Table) (id : SymbolId) :
    (t.unregister id).symbols = t.symbols ∧ (t.unregister id).slots = t.slots := by
  unfold unregister
  split <;> exact ⟨rfl, rfl⟩

theorem get_unregister (t : Table) (id x : SymbolId) : (t.unregister id).get x = t.get x := by
  unfold Table.get
  rw [(t.unregister_symbols id).1]

theorem size_unregister (t : Table) (id : SymbolId) : (t.unregister id).size = t.size :=
  congrArg Array.size (t.unregister_symbols id).1

theorem get_removeVariable (hid : id < t.size) (x : SymbolId) : (t.removeVariable id).get x =
    if x = id then (t.get x).mapItem fun data => { data with variableSlot := none } else t.get x := by
  unfold removeVariable
  split
  · rename_i hnone
    have hslot : (t.get id).slot? = none := hnone
    split
    · rename_i hx
      rw [hx, mapItem_of_slot? hslot]
    · rfl
  · by_cases hx : x = id
    · rw [hx, if_pos rfl]
      exact get_modify_self _ hid
    · rw [if_neg hx]
      exact get_modify_of_ne _ hx

theorem size_removeVariable (t : Table) (id : SymbolId) : (t.removeVariable id).size = t.size := by
  unfold removeVariable
  split
  · rfl
  · exact size_modify _ id _

theorem registries_removeVariable (t : Table) (id : SymbolId) :
    (t.removeVariable id).types = t.types ∧ (t.removeVariable id).programs = t.programs := by
  unfold removeVariable
  split <;> exact ⟨rfl, rfl⟩

theorem get_detach (hid : id < t.size) (x : SymbolId) :
    (t.detach id).get x = if x = id then (t.get x).detached else t.get x := by
  have hid' : id < ((t.unregister id).removeVariable id).size := by
    rw [size_removeVariable, size_unregister]
    exact hid
  have hid'' : id < (t.unregister id).size := by
    rw [size_unregister]
    exact hid
  rw [detach_eq]
  by_cases hx : x = id
  · rw [hx, get_modify_self _ hid', get_removeVariable hid'', get_unregister, if_pos rfl, if_pos rfl]
    rfl
  · rw [get_modify_of_ne _ hx, get_removeVariable hid'', get_unregister, if_neg hx, if_neg hx]

theorem size_detach (t : Table) (id : SymbolId) : (t.detach id).size = t.size := by
  rw [detach_eq, size_modify, size_removeVariable, size_unregister]

theorem registries_detach (t : Table) (id : SymbolId) :
    (t.detach id).types = (t.unregister id).types ∧ (t.detach id).programs = (t.unregister id).programs := by
  rw [detach_eq]
  exact registries_removeVariable _ id

theorem filter_ne_of_not_mem {l : List SymbolId} (h : id ∉ l) : l.filter (· ≠ id) = l := by
  rw [filter_eq_self]
  intro other hother
  have hne : other ≠ id := fun heq => h (heq ▸ hother)
  simpa using hne

/-- A type that is detached is found no more; everything else is found as before. -/
theorem lookupType_detach (h : t.Filed) (id : SymbolId) (name : String) :
    (t.detach id).lookupType name = (t.lookupType name).filter (· ≠ id) := by
  unfold lookupType
  rw [(t.registries_detach id).1]
  by_cases hkind : (t.get id).kind = .typeDefinition
  · have htypes : (t.unregister id).types = t.types.without (t.name id) id := by
      unfold unregister
      rw [hkind]
    rw [htypes]
    exact Domain.lookup_without_of_only h.types_keyed (h.types_nodup _) (fun key hkey => (h.types_only key id hkey).2) name
  · have htypes : (t.unregister id).types = t.types := by
      unfold unregister
      split <;> first | rfl | contradiction
    rw [htypes]
    exact (filter_ne_of_not_mem fun hmem => hkind (h.types_only name id hmem).1).symm

/-- A program that is detached is found no more; everything else is found as before. -/
theorem lookupProgram_detach (h : t.Filed) (id : SymbolId) (name : String) :
    (t.detach id).lookupProgram name = (t.lookupProgram name).filter (· ≠ id) := by
  have honly : ∀ key, id ∈ t.programs.lookup key → key = t.name id := fun key hkey => (h.programs_only key id hkey).2
  have hdeleted := Domain.lookup_without_of_only h.programs_keyed (h.programs_nodup _) honly name
  unfold lookupProgram
  rw [(t.registries_detach id).2]
  cases hkind : (t.get id).kind.isProgramLike with
  | true =>
    have hprogs : (t.unregister id).programs = t.programs.without (t.name id) id := by
      unfold unregister
      cases hkind' : (t.get id).kind <;> rw [hkind'] at hkind <;> first | rfl | cases hkind
    rw [hprogs, hdeleted]
  | false =>
    have hnot : ∀ key, id ∉ t.programs.lookup key := by
      intro key hmem
      have hlike := (h.programs_only key id hmem).1
      rw [hkind] at hlike
      cases hlike
    rw [filter_ne_of_not_mem (hnot name)] at hdeleted ⊢
    unfold unregister
    split <;> first | rfl | exact hdeleted

theorem keyed_detach (ht : t.types.Keyed) (hp : t.programs.Keyed) (id : SymbolId) :
    (t.detach id).types.Keyed ∧ (t.detach id).programs.Keyed := by
  rw [(t.registries_detach id).1, (t.registries_detach id).2]
  unfold unregister
  split <;> first | exact ⟨ht, hp⟩ | exact ⟨ht, hp.without _ _⟩ | exact ⟨ht.without _ _, hp⟩

/-- The slots when a symbol is detached: the symbol holds none, all others are as before. -/
theorem SlotsAgree.removeVariable (h : t.SlotsAgree) (id : SymbolId) :
    (t.removeVariable id).slots.InOrder ∧ (t.removeVariable id).slots.capacity = t.slots.capacity ∧
      ∀ index, (t.removeVariable id).slots.get? index = (t.slots.get? index).filter (· ≠ id) := by
  unfold Table.removeVariable
  split
  · rename_i hnone
    have hslot : (t.get id).slot? = none := hnone
    refine ⟨h.inOrder, rfl, fun index => ?_⟩
    cases hget : t.slots.get? index with
    | none => rfl
    | some other =>
      have hne : other ≠ id := by
        rintro rfl
        rw [(h.slot_iff index other).mp hget] at hslot
        cases hslot
      simp [Option.filter, hne]
  · rename_i held hheld
    have hslot : (t.get id).slot? = some held := hheld
    refine ⟨h.inOrder.remove held, SlotTable.capacity_remove t.slots held, fun index => ?_⟩
    have hremoved : (t.slots.remove held).2.get? index = _ := SlotTable.get?_remove t.slots held index
    refine hremoved.trans ?_
    by_cases hindex : index = held
    · rw [if_pos hindex, hindex, (h.slot_iff held id).mpr hslot]
      simp [Option.filter]
    · rw [if_neg hindex]
      cases hget : t.slots.get? index with
      | none => rfl
      | some other =>
        have hne : other ≠ id := by
          rintro rfl
          have hsame := (h.slot_iff index other).mp hget
          rw [hslot] at hsame
          exact hindex (Option.some.inj hsame).symm
        simp [Option.filter, hne]

theorem slots_detach (t : Table) (id : SymbolId) : (t.detach id).slots = (t.removeVariable id).slots := by
  rw [detach_eq]
  have hget := t.get_unregister id id
  have hslots := (t.unregister_symbols id).2
  have hsame : ((t.unregister id).removeVariable id).slots = (t.removeVariable id).slots := by
    unfold Table.removeVariable
    rw [hget]
    split
    · exact hslots
    · exact congrArg (fun slots : SlotTable SymbolId => (slots.remove _).2) hslots
  exact hsame

theorem SlotsAgree.detach (h : t.SlotsAgree) (hid : id < t.size) : (t.detach id).SlotsAgree where
  inOrder := by
    rw [slots_detach]
    exact (h.removeVariable id).1
  slot_iff index x := by
    rw [slots_detach, (h.removeVariable id).2.2, get_detach hid, Option.filter_eq_some_iff, h.slot_iff]
    split
    · rename_i hx
      simp [hx, slot?_detached]
    · rename_i hx
      simp [hx]

section

variable (h : Detached ids t t')
include h

theorem Detached.detach (hfiled : t'.Filed) (hid : id < t.size)
    (hnew : id ∉ ids) : Detached (ids ++ [id]) t (t'.detach id) where
  size_eq := (t'.size_detach id).trans h.size_eq
  get x := by
    rw [get_detach (h.size_eq ▸ hid), h.get]
    by_cases hx : x = id
    · simp [hx, hnew]
    · simp [hx]
  types name := by
    rw [lookupType_detach hfiled, h.types, filter_filter]
    apply filter_congr
    intro x _
    simp [Bool.and_comm]
  programs name := by
    rw [lookupProgram_detach hfiled, h.programs, filter_filter]
    apply filter_congr
    intro x _
    simp [Bool.and_comm]
  slots index := by
    rw [slots_detach, (h.slotsAgree.removeVariable id).2.2, h.slots, Option.filter_filter]
    congr 1
    funext x
    simp
  capacity := by
    rw [slots_detach, (h.slotsAgree.removeVariable id).2.1, h.capacity]
  slotsAgree := h.slotsAgree.detach (h.size_eq ▸ hid)
  types_keyed := (keyed_detach h.types_keyed h.programs_keyed id).1
  programs_keyed := (keyed_detach h.types_keyed h.programs_keyed id).2

theorem Detached.identity (x : SymbolId) : (t'.get x).identity = (t.get x).identity := by
  rw [h.get]
  split
  · exact identity_mapItem _ _ (fun _ => rfl) fun _ => rfl
  · rfl

theorem Detached.ledger (x : SymbolId) : t'.ledger x = if x ∈ ids then (t.ledger x).detached else t.ledger x := by
  have hcontents : ∀ c, (t'.get c).contents = (t.get c).contents := by
    intro c
    rw [h.get]
    split
    · exact contents_mapItem _ _
    · rfl
  unfold Table.ledger
  simp only [hcontents, h.get x, h.types, h.programs]
  by_cases hx : x ∈ ids
  · have hnone : ∀ l : List SymbolId, (l.filter (· ∉ ids)).count x = 0 := by
      intro l
      rw [count_eq_zero]
      simp [hx]
    simp only [if_pos hx, hnone, Ledger.detached, slot?_detached, isRemoved_detached,
      storage?_detached]
  · have hsame : ∀ l : List SymbolId, (l.filter (· ∉ ids)).count x = l.count x := by
      intro l
      exact count_filter (by simpa using hx)
    simp only [if_neg hx, hsame]

theorem Detached.filed (hfiled : t.Filed) : t'.Filed := by
  have hkind : ∀ x, (t'.get x).kind = (t.get x).kind := fun x => congrArg (·.2.2.1) (h.identity x)
  have hname : ∀ x, t'.name x = t.name x := fun x => congrArg (·.1) (h.identity x)
  refine ⟨h.types_keyed, ?_, ?_, h.programs_keyed, ?_, ?_⟩
  · intro name
    rw [h.types]
    exact (hfiled.types_nodup name).filter _
  · intro name x hx
    rw [h.types] at hx
    rw [hkind, hname]
    exact hfiled.types_only name x (mem_filter.mp hx).1
  · intro name
    rw [h.programs]
    exact (hfiled.programs_nodup name).filter _
  · intro name x hx
    rw [h.programs] at hx
    rw [hkind, hname]
    exact hfiled.programs_only name x (mem_filter.mp hx).1

end

theorem detached_foldl (hfiled : t.Filed) (hslots : t.SlotsAgree) (hnodup : ids.Nodup)
    (hids : ∀ id ∈ ids, id < t.size) : Detached ids t (ids.foldl Table.detach t) := by
  -- what has been detached so far is a list of its own
  have hrun : ∀ (rest done : List SymbolId) (t' : Table), done ++ rest = ids → Detached done t t' →
      Detached ids t (rest.foldl Table.detach t') := by
    intro rest
    induction rest with
    | nil =>
      intro done t' hdone h
      rw [append_nil] at hdone
      exact hdone ▸ h
    | cons id rest ih =>
      intro done t' hdone h
      have hmem : id ∈ ids := hdone ▸ mem_append_right done mem_cons_self
      have hnew : id ∉ done := by
        rw [← hdone] at hnodup
        intro hid
        exact (nodup_append.mp hnodup).2.2 id hid id mem_cons_self rfl
      refine ih (done ++ [id]) (t'.detach id) ?_ (h.detach (h.filed hfiled) (hids id hmem) hnew)
      rw [append_assoc]
      exact hdone
  exact hrun ids [] t (nil_append ids) (Detached.refl hfiled hslots)

end Table

end CobolSymbols
