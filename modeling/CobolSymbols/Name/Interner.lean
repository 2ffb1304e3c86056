/-!
# Interned names

An interner numbers distinct texts in the order in which they are first interned. A number, once given, stands for the
same text for ever; letter case counts.
-/

set_option autoImplicit false

namespace CobolSymbols

/-- The texts interned so far, in order of their numbers. -/
structure Interner where
  texts : List String := []
deriving DecidableEq, Repr, Inhabited

namespace Interner

def number? (i : Interner) (text : String) : Option Nat := i.texts.findIdx? (· == text)

def text? (i : Interner) (number : Nat) : Option String := i.texts[number]?

/-- The number of the text, a new one when the text is met for the first time. -/
def intern (i : Interner) (text : String) : Nat × Interner :=
  match i.number? text with
  | some number => (number, i)
  | none => (i.texts.length, ⟨i.texts ++ [text]⟩)

end Interner

end CobolSymbols
