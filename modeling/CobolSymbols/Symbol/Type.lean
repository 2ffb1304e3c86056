import CobolSymbols.Name.Scope
import CobolSymbols.Picture.Basic
import CobolSymbols.Position

/-!
# Types of symbols

The type of a data item is elementary (a usage, or a picture with a usage), a group of fields, an array of one of
these, or a reference to a type definition by name. A condition-name has a type of its own, and the type of a program
is its signature. Looking for the fields or the reference of a type looks through arrays.
-/

set_option autoImplicit false

namespace CobolSymbols

abbrev SymbolId := Nat

/-- A picture with the usage and the sign that go with it. -/
structure PictureClause where
  picture : Picture
  usage : UsageFormat
  signSeparate : Bool
deriving DecidableEq, Repr

structure DependingOn where
  name : String
  position : Position
  target : Option SymbolId := none
deriving DecidableEq, Repr

structure TypeReference where
  name : String
  position : Position
  target : Option SymbolId := none
deriving DecidableEq, Repr

structure Signature where
  parameters : List SymbolId := []
  returning : Option SymbolId := none
deriving DecidableEq, Repr, Inhabited

inductive DataType where
  | usage (format : UsageFormat)
  | picture (clause : PictureClause)
  /-- A group of fields, with the elementary type it has in their absence. -/
  | group (fields : Scope SymbolId) (leading : Option DataType) (owner : SymbolId)
  | array (element : DataType) (min max : UInt32) (dependingOn : Option DependingOn)
  | named (reference : TypeReference)
  | condition
  | signature (parameters : Signature)

namespace DataType

def fields? : DataType → Option (Scope SymbolId)
  | .group fields _ _ => some fields
  | .array element _ _ _ => element.fields?
  | _ => none

def mapFields (f : Scope SymbolId → Scope SymbolId) : DataType → DataType
  | .group fields leading owner => .group (f fields) leading owner
  | .array element min max dependingOn => .array (element.mapFields f) min max dependingOn
  | other => other

/-- The group with the elementary type that goes with its fields; other types stay as they are. -/
def setLeading (leading : Option DataType) : DataType → DataType
  | .group fields _ owner => .group fields leading owner
  | other => other

def reference? : DataType → Option TypeReference
  | .named reference => some reference
  | .array element _ _ _ => element.reference?
  | _ => none

def bindReference (target : SymbolId) : DataType → DataType
  | .named reference => .named { reference with target := some target }
  | .array element min max dependingOn => .array (element.bindReference target) min max dependingOn
  | other => other

def isArray : DataType → Bool
  | .array .. => true
  | _ => false

def isCondition : DataType → Bool
  | .condition => true
  | _ => false

def dependingOn? : DataType → Option DependingOn
  | .array _ _ _ dependingOn => dependingOn
  | _ => none

def bindDependingOn (target : SymbolId) : DataType → DataType
  | .array element min max (some object) => .array element min max (some { object with target := some target })
  | other => other

end DataType

end CobolSymbols
