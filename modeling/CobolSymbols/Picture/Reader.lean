import CobolSymbols.Picture.Error
import CobolSymbols.Picture.Symbol
import CobolSymbols.Text.Numeral

/-!
# Reading the items of a picture

Upper-case characters are read from left to right: a symbol, then a repetition factor in parentheses if one follows.
Each item takes at least one character, so a text of `n` characters is read in at most `n` steps.
-/

set_option autoImplicit false

namespace CobolSymbols

namespace PictureSymbol

def read : List Char → Except PictureError (PictureSymbol × List Char)
  | 'C' :: 'R' :: rest => .ok (.credit, rest)
  | 'D' :: 'B' :: rest => .ok (.debit, rest)
  | '(' :: _ => .error .unbalancedParenthesis
  | c :: rest =>
    match ofChar? c with
    | some symbol => .ok (symbol, rest)
    | none => .error (.invalidCharacter c)
  | [] => .error .empty

end PictureSymbol

namespace PictureItem

/-- The repetition factor a text starts with, one when there is none, and what follows it. -/
def readFactor : List Char → Except PictureError (Nat × List Char)
  | '(' :: rest =>
    let factor := rest.takeWhile (· != ')')
    match rest.dropWhile (· != ')') with
    | [] => .error .unbalancedParenthesis
    | _ :: after =>
      match (Text.word? factor).filter (0 < ·) with
      | some count => .ok (count, after)
      | none => .error (.invalidRepetition (String.ofList factor))
  | rest => .ok (1, rest)

def read (cs : List Char) : Except PictureError (PictureItem × List Char) :=
  match PictureSymbol.read cs with
  | .error e => .error e
  | .ok (symbol, rest) =>
    match readFactor rest with
    | .error e => .error e
    | .ok (count, after) => .ok (⟨symbol, count⟩, after)

/-- The items of a text of at most `steps` characters. -/
def readAll : (steps : Nat) → List Char → Except PictureError (List PictureItem)
  | _, [] => .ok []
  | 0, _ :: _ => .ok []
  | steps + 1, cs@(_ :: _) =>
    match read cs with
    | .error e => .error e
    | .ok (item, rest) =>
      match readAll steps rest with
      | .error e => .error e
      | .ok items => .ok (item :: items)

end PictureItem

end CobolSymbols
