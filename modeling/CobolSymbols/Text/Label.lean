/-!
# Labelled enumerations

The words of an enumeration are written by fixed labels. `Labelled.ofLabel?` reads a label back; reading is case
sensitive.
-/

set_option autoImplicit false

namespace CobolSymbols

/-- An enumeration each of whose words is written as one label. -/
class Labelled (α : Type) where
  /-- Every word of the enumeration, in declaration order. -/
  all : List α
  label : α → String

def Labelled.ofLabel? {α : Type} [Labelled α] (text : String) : Option α :=
  (Labelled.all : List α).find? fun word => Labelled.label word == text

end CobolSymbols
