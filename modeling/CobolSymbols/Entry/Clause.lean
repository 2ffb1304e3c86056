import CobolSymbols.Position
import CobolSymbols.Text.Label

/-!
# Clauses of data entries

What the clauses of an entry hold: references to other names, repetition, literal values, and the restriction and
visibility of type definitions.
-/

set_option autoImplicit false

namespace CobolSymbols

structure Reference where
  name : String
  position : Position
deriving DecidableEq, Repr, Inhabited

structure IndexName where
  name : String
  position : Position
deriving DecidableEq, Repr

structure Occurs where
  min : UInt32
  max : UInt32
  dependingOn : Option Reference := none
  indexes : List IndexName := []
deriving DecidableEq, Repr

inductive FigurativeConstant where
  | zero
  | space
  | highValue
  | lowValue
  | quote
  | null
deriving DecidableEq, Repr

instance : Labelled FigurativeConstant where
  all := [.zero, .space, .highValue, .lowValue, .quote, .null]
  label
    | .zero => "Zero"
    | .space => "Space"
    | .highValue => "HighValue"
    | .lowValue => "LowValue"
    | .quote => "Quote"
    | .null => "Null"

/-- A literal of a VALUE clause; numbers are kept as they are written. -/
inductive Literal where
  | alphanumeric (text : String)
  | numeric (text : String)
  | figurative (constant : FigurativeConstant)
deriving DecidableEq, Repr

structure ConditionValue where
  value : Literal
  thru : Option Literal := none
deriving DecidableEq, Repr

/-- How strictly a type definition binds the items declared with it. -/
inductive Restriction where
  | weak
  | strict
  | strong
deriving DecidableEq, Repr, Inhabited

instance : Labelled Restriction where
  all := [.weak, .strict, .strong]
  label
    | .weak => "Weak"
    | .strict => "Strict"
    | .strong => "Strong"

inductive Visibility where
  | hidden
  | exported
deriving DecidableEq, Repr, Inhabited

instance : Labelled Visibility where
  all := [.hidden, .exported]
  label
    | .hidden => "Private"
    | .exported => "Public"

structure TypedefClause where
  restriction : Restriction := .weak
  visibility : Option Visibility := none
deriving DecidableEq, Repr, Inhabited

end CobolSymbols
