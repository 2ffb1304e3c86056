import CobolSymbols.Table.Basic

/-!
# Sizes of types

The size of a type is the number of bytes an item of the type takes, when it is known and fits 32 bits. A group takes
the bytes of its fields; redefining and renaming items, indexes and condition-names take none of their own. An array
takes the bytes of its greatest number of elements. A reference takes the bytes of the type it is bound to, so a size
is followed from symbol to symbol, at most once through each.
-/

set_option autoImplicit false

namespace CobolSymbols

/-- A number of bytes, if it fits 32 bits. -/
def checkedSize (n : Nat) : Option Nat := if n ≤ Text.wordMax then some n else none

def Symbol.takesStorage (s : Symbol) : Bool :=
  (s.kind == .plainItem || s.kind == .typeDefinition) && !(s.type.any DataType.isCondition)

def DataType.sizeWith (t : Table) (sizeOf : SymbolId → Option Nat) : DataType → Option Nat
  | .usage format => UsageFormat.fixedSize? format
  | .picture clause => some (clause.picture.size clause.usage clause.signSeparate)
  | .group fields leading _ =>
    match fields.order.filter fun field => (t.get field).takesStorage with
    | [] =>
      match leading with
      | some type => type.sizeWith t sizeOf
      | none => none
    | counted => counted.foldlM (fun total field => (sizeOf field).bind fun size => checkedSize (total + size)) 0
  | .array element _ max _ => (element.sizeWith t sizeOf).bind fun size => checkedSize (max.toNat * size)
  | .named reference => reference.target.bind sizeOf
  | .condition => none
  | .signature _ => none

namespace Table

/-- The size of a symbol's type, followed through at most `steps` symbols. -/
def sizeWithin (t : Table) : (steps : Nat) → SymbolId → Option Nat
  | 0, _ => none
  | steps + 1, id => (t.get id).type.bind (DataType.sizeWith t (t.sizeWithin steps))

def sizeOf (t : Table) (id : SymbolId) : Option Nat := t.sizeWithin (t.size + 1) id

end Table

end CobolSymbols
