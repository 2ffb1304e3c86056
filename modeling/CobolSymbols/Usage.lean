import CobolSymbols.Text.Label

/-!
# USAGE clauses

A usage names the representation of an elementary item. An item's format is its usage, or no usage at all; some usages
fix the size of the item by themselves.
-/

set_option autoImplicit false

namespace CobolSymbols

inductive Usage where
  | binary
  | comp
  | comp1
  | comp2
  | comp3
  | comp4
  | comp5
  | display
  | display1
  | national
  | packedDecimal
  | index
  | pointer
  | functionPointer
  | procedurePointer
  | objectReference
deriving DecidableEq, Repr

namespace Usage

instance : Labelled Usage where
  all := [.binary, .comp, .comp1, .comp2, .comp3, .comp4, .comp5, .display, .display1, .national, .packedDecimal,
    .index, .pointer, .functionPointer, .procedurePointer, .objectReference]
  label
    | .binary => "Binary"
    | .comp => "Comp"
    | .comp1 => "Comp1"
    | .comp2 => "Comp2"
    | .comp3 => "Comp3"
    | .comp4 => "Comp4"
    | .comp5 => "Comp5"
    | .display => "Display"
    | .display1 => "Display1"
    | .national => "National"
    | .packedDecimal => "PackedDecimal"
    | .index => "Index"
    | .pointer => "Pointer"
    | .functionPointer => "FunctionPointer"
    | .procedurePointer => "ProcedurePointer"
    | .objectReference => "ObjectReference"

def keyword : Usage → String
  | .binary => "BINARY"
  | .comp => "COMP"
  | .comp1 => "COMP-1"
  | .comp2 => "COMP-2"
  | .comp3 => "COMP-3"
  | .comp4 => "COMP-4"
  | .comp5 => "COMP-5"
  | .display => "DISPLAY"
  | .display1 => "DISPLAY-1"
  | .national => "NATIONAL"
  | .packedDecimal => "PACKED-DECIMAL"
  | .index => "INDEX"
  | .pointer => "POINTER"
  | .functionPointer => "FUNCTION-POINTER"
  | .procedurePointer => "PROCEDURE-POINTER"
  | .objectReference => "OBJECT REFERENCE"

/-- The bytes an item of this usage takes whatever its picture, for the usages that fix it. -/
def fixedSize? : Usage → Option Nat
  | .comp1 | .index | .pointer | .functionPointer | .objectReference => some 4
  | .comp2 | .procedurePointer => some 8
  | _ => none

end Usage

/-- The usage of an item, or none for an item that has no usage. -/
abbrev UsageFormat := Option Usage

namespace UsageFormat

def keyword (format : UsageFormat) : String := (format.map Usage.keyword).getD ""

def fixedSize? (format : UsageFormat) : Option Nat := format.bind Usage.fixedSize?

end UsageFormat

end CobolSymbols
