import CobolSymbols.Proofs.Session.Regular

/-!
# The slots of variables

Whatever is built and removed, slots and the variables that hold them correspond to each other. The first slot is that
of the variable that stands for no storage, nothing in a type definition holds a slot, and the slot table counts the
variables that hold one.
-/

set_option autoImplicit false

namespace CobolSymbols

open List

namespace Table

variable {t : Table}

/-- The symbols that hold a slot. -/
def slotHolders (t : Table) : List SymbolId := (List.range t.size).filter fun id => (t.get id).slot?.isSome

theorem mem_slotHolders {id : SymbolId} : id ∈ t.slotHolders ↔ (t.get id).slot?.isSome = true := by
  unfold slotHolders
  rw [mem_filter, mem_range]
  refine ⟨fun h => h.2, fun h => ⟨?_, h⟩⟩
  apply lt_size_of_get_ne
  intro hdefault
  rw [hdefault] at h
  cases h

theorem nodup_slotHolders (t : Table) : t.slotHolders.Nodup := nodup_range.filter _

/-- The slot table lists each symbol that holds a slot once. -/
theorem SlotsAgree.perm_slotHolders (h : t.SlotsAgree) : (t.slots.toList.map (·.2)).Perm t.slotHolders := by
  have hnodup : (t.slots.toList.map (·.2)).Nodup := by
    have hkeys : (t.slots.toList.map (·.1)).Nodup := SlotTable.nodup_keys_occupiedFrom 0 t.slots.slots
    refine Nodup.map_on ?_ (Nodup.of_map _ hkeys)
    rintro ⟨index, id⟩ hfirst ⟨other, id'⟩ hsecond (rfl : id = id')
    -- a symbol has one slot only
    have hslot := (h.slot_iff index id).mp (SlotTable.mem_toList.mp hfirst)
    rw [(h.slot_iff other id).mp (SlotTable.mem_toList.mp hsecond)] at hslot
    rw [Option.some.inj hslot]
  rw [perm_ext_iff_of_nodup hnodup t.nodup_slotHolders]
  intro id
  rw [mem_slotHolders, mem_map, Option.isSome_iff_exists]
  constructor
  · rintro ⟨⟨index, id'⟩, hmem, rfl⟩
    exact ⟨index, (h.slot_iff index id').mp (SlotTable.mem_toList.mp hmem)⟩
  · rintro ⟨index, hslot⟩
    exact ⟨(index, id), SlotTable.mem_toList.mpr ((h.slot_iff index id).mpr hslot), rfl⟩

theorem SlotsAgree.size_eq (h : t.SlotsAgree) : t.slots.size = t.slotHolders.length := by
  rw [h.inOrder.size_eq, ← h.perm_slotHolders.length_eq, length_map]

/-- What lies in a type definition holds no slot. -/
theorem Regular.slot?_of_type (h : t.Regular) {type id : SymbolId} (htype : t.IsType type) (hwithin : t.Within type id) :
    (t.get id).slot? = none := by
  cases hslot : (t.get id).slot? with
  | none => rfl
  | some index =>
    have hsome : (t.ledger id).slot.isSome = true := congrArg Option.isSome hslot
    have hid : id < t.size := by
      apply lt_size_of_get_ne
      intro hdefault
      rw [hdefault] at hslot
      cases hslot
    exact absurd hwithin (((h.standing id hid).slot.mp hsome).1.2 type htype)

end Table

namespace Session

/-- Whatever is built, built again and removed, a slot holds a variable exactly when the variable has the slot's index;
the first slot is that of the variable that stands for no storage; no type definition and nothing in its body holds a
slot; and as many slots are occupied as there are symbols that hold one. -/
theorem slots_correspond_to_variables (options : Options) (actions : List Action) :
    let t := (reached options actions).table
    (∀ index id, t.slots.get? index = some id ↔ (t.get id).slot? = some index) ∧
    t.slots.get? 0 = some Table.bottomId ∧
    (∀ type id, t.IsType type → t.Within type id → (t.get id).slot? = none) ∧
    t.slots.size = t.slotHolders.length := by
  have h := (regular_reached options actions).table
  refine ⟨h.tidy.slots.slot_iff, ?_, fun type id htype hwithin => h.slot?_of_type htype hwithin, h.tidy.slots.size_eq⟩
  exact (h.tidy.slots.slot_iff 0 Table.bottomId).mpr h.bottom

end Session

end CobolSymbols
