import CobolSymbols.Build.Renames
import CobolSymbols.Proofs.Table.Extends

/-!
# The fields of a layout

A layout goes through the fields of a group with a cursor. A field has a place unless it is an index: where its target
starts if it redefines another field, at the cursor otherwise. Only a field that is stored moves the cursor on.
-/

set_option autoImplicit false

namespace CobolSymbols

open List

namespace Symbol

end Symbol

namespace Table

variable {t : Table} {laidOut : List LayoutItem} {cursor : Nat} {id : SymbolId}

/-- The layout after one field of a group is added; `inner` adds the fields below it. -/
def addField (t : Table) (inner : Nat → Bool → SymbolId → List LayoutItem → List LayoutItem) (depth : Nat)
    (inTable : Bool) (state : Nat × List LayoutItem) (field : SymbolId) : Nat × List LayoutItem :=
  match t.placeOf state.2 state.1 field with
  | none => (state.1, state.2)
  | some (offset, advances) =>
    let size := if advances || (t.get field).kind == .redefines then t.sizeOf field else some 0
    let inside := inTable || t.isTable field
    (if advances then advance state.1 (size.getD 0) else state.1,
      inner offset inside field (state.2 ++ [⟨field, depth, offset, size, inside⟩]))

theorem layoutFields_succ (t : Table) (steps depth start : Nat) (inTable : Bool) (group : SymbolId)
    (laidOut : List LayoutItem) :
    t.layoutFields (steps + 1) depth start inTable group laidOut =
      ((t.fields group).foldl (t.addField (t.layoutFields steps (depth + 1)) depth inTable) (start, laidOut)).2 := rfl

end Table

end CobolSymbols
