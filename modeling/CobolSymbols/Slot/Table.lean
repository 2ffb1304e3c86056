import CobolSymbols.Slot.Pool

/-!
# Values in reusable slots

A slot table keeps values under indices from a pool: a removed value frees its slot for the next insertion.
-/

set_option autoImplicit false

namespace CobolSymbols

/-- Slots, some of them occupied, and the pool of their indices. -/
structure SlotTable (α : Type) where
  slots : List (Option α) := []
  pool : IndexPool := {}
deriving DecidableEq, Repr, Inhabited

namespace SlotTable

variable {α : Type}

/-- Put a value into a free slot, or into a new one when none is free; the result tells which. -/
def insert (t : SlotTable α) (value : α) : Nat × SlotTable α :=
  let (index, pool) := t.pool.allocate
  let slots := if index = t.slots.length then t.slots ++ [some value] else t.slots.set index (some value)
  (index, ⟨slots, pool⟩)

def get? (t : SlotTable α) (index : Nat) : Option α := (t.slots[index]?).join

/-- Take the value out of a slot and free the slot; an empty or unknown slot changes nothing. -/
def remove (t : SlotTable α) (index : Nat) : Option α × SlotTable α :=
  match t.get? index with
  | some value => (some value, ⟨t.slots.set index none, t.pool.release index⟩)
  | none => (none, t)

def size (t : SlotTable α) : Nat := t.pool.live

def capacity (t : SlotTable α) : Nat := t.slots.length

/-- The occupied slots from index `start` on, by increasing index. -/
def occupiedFrom : Nat → List (Option α) → List (Nat × α)
  | _, [] => []
  | index, none :: rest => occupiedFrom (index + 1) rest
  | index, some value :: rest => (index, value) :: occupiedFrom (index + 1) rest

def toList (t : SlotTable α) : List (Nat × α) := occupiedFrom 0 t.slots

end SlotTable

end CobolSymbols
