/-!
# JSON values

Values keep what a strict reader of records has to see: the members of an object in order of writing, with repeated
names, and whether a number is written as a plain sequence of digits.
-/

set_option autoImplicit false

namespace CobolSymbols

inductive Json where
  | null
  | bool (value : Bool)
  /-- A number written by digits alone. -/
  | natural (value : Nat)
  /-- Any other number, as it is written: with a sign, a fraction or an exponent. -/
  | decimal (literal : String)
  | string (text : String)
  /-- A string with an unpaired surrogate escape, or an object that has one in a name: well written, but it stands for
  nothing that can be read. -/
  | unpaired
  | array (elements : List Json)
  | object (members : List (String × Json))
deriving Inhabited

namespace Json

def member? (j : Json) (name : String) : Option Json :=
  match j with
  | .object members => List.lookup name members.reverse
  | _ => none

/-- The last member of an object that has the name, unless it is null. -/
def present? (j : Json) (name : String) : Option Json :=
  match j.member? name with
  | some .null | none => none
  | some value => some value

end Json

end CobolSymbols
