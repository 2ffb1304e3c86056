import CobolSymbols.Name.Domain

/-!
# Scopes: a domain with the order of entry

A scope is looked up by name and listed in the order in which its values were entered. Deleting a value removes its
last entry under the name and its last place in the order.
-/

set_option autoImplicit false

namespace CobolSymbols

/-- Named values in the order in which they were entered. -/
structure Scope (α : Type) where
  domain : Domain α := {}
  order : List α := []
deriving DecidableEq, Repr, Inhabited

namespace Scope

variable {α : Type}

/-- Enter `value` under `name`, last in the order. -/
def enter (s : Scope α) (name : String) (value : α) : Scope α :=
  ⟨s.domain.enter name value, s.order ++ [value]⟩

/-- The values entered under `name`, oldest first. -/
def lookup (s : Scope α) (name : String) : List α := s.domain.lookup name

/-- Delete the last entry of `value` under `name`, or nothing when there is none. -/
def delete? [DecidableEq α] (s : Scope α) (name : String) (value : α) : Option (Scope α) :=
  (s.domain.delete? name value).map fun domain => ⟨domain, (eraseLast? value s.order).getD s.order⟩

def isEmpty (s : Scope α) : Bool := s.order.isEmpty

end Scope

end CobolSymbols
