import CobolSymbols.Json.Basic
import CobolSymbols.Text.Numeral

/-!
# Reading JSON text

The reader accepts exactly the JSON grammar: no byte order mark, no control characters in strings, no superfluous
zeros, commas or text. Two steps for each character of the text are always enough.
-/

set_option autoImplicit false

namespace CobolSymbols.Json

def isBlank (c : Char) : Bool := c == ' ' || c == '\t' || c == '\n' || c == '\r'

def skipBlanks (cs : List Char) : List Char := cs.dropWhile isBlank

def hexDigit? (c : Char) : Option Nat :=
  if '0' ≤ c ∧ c ≤ '9' then some (c.toNat - '0'.toNat)
  else if 'a' ≤ c ∧ c ≤ 'f' then some (c.toNat - 'a'.toNat + 10)
  else if 'A' ≤ c ∧ c ≤ 'F' then some (c.toNat - 'A'.toNat + 10)
  else none

def hexUnit? (a b c d : Char) : Option Nat := do
  let a ← hexDigit? a
  let b ← hexDigit? b
  let c ← hexDigit? c
  let d ← hexDigit? d
  return ((a * 16 + b) * 16 + c) * 16 + d

def escaped? : Char → Option Char
  | '"' => some '"'
  | '\\' => some '\\'
  | '/' => some '/'
  | 'b' => some '\x08'
  | 'f' => some '\x0c'
  | 'n' => some '\n'
  | 'r' => some '\r'
  | 't' => some '\t'
  | _ => none

/-- The code units of a string up to its closing quote, and what follows; a character stands for its own code. -/
def readUnits : List Char → Option (List Nat × List Char)
  | [] => none
  | '"' :: rest => some ([], rest)
  | '\\' :: 'u' :: a :: b :: c :: d :: rest => do
    let unit ← hexUnit? a b c d
    let (units, after) ← readUnits rest
    return (unit :: units, after)
  | '\\' :: letter :: rest => do
    let c ← escaped? letter
    let (units, after) ← readUnits rest
    return (c.toNat :: units, after)
  | c :: rest => do
    guard (0x20 ≤ c.toNat)
    let (units, after) ← readUnits rest
    return (c.toNat :: units, after)

def isLeading (unit : Nat) : Bool := 0xD800 ≤ unit && unit ≤ 0xDBFF

def isTrailing (unit : Nat) : Bool := 0xDC00 ≤ unit && unit ≤ 0xDFFF

/-- The text of code units, unless a surrogate stands alone. -/
def decodeUnits : List Nat → Option (List Char)
  | [] => some []
  | [unit] => if isLeading unit || isTrailing unit then none else some [Char.ofNat unit]
  | unit :: next :: rest =>
    if isLeading unit then
      if isTrailing next then
        (decodeUnits rest).map (Char.ofNat (0x10000 + (unit - 0xD800) * 0x400 + (next - 0xDC00)) :: ·)
      else none
    else if isTrailing unit then none
    else (decodeUnits (next :: rest)).map (Char.ofNat unit :: ·)

/-- The digits a text starts with, at least one, and what follows them. -/
def readDigits (cs : List Char) : Option (List Char × List Char) :=
  let digits := cs.takeWhile Char.isDigit
  if digits.isEmpty then none else some (digits, cs.dropWhile Char.isDigit)

/-- The fraction a text starts with, empty when there is none, and what follows it. -/
def readFraction : List Char → Option (List Char × List Char)
  | '.' :: rest => (readDigits rest).map fun (digits, after) => ('.' :: digits, after)
  | cs => some ([], cs)

/-- The exponent a text starts with, empty when there is none, and what follows it. -/
def readExponent : List Char → Option (List Char × List Char)
  | mark :: rest =>
    if mark == 'e' || mark == 'E' then
      match rest with
      | '+' :: more => (readDigits more).map fun (digits, after) => (mark :: '+' :: digits, after)
      | '-' :: more => (readDigits more).map fun (digits, after) => (mark :: '-' :: digits, after)
      | more => (readDigits more).map fun (digits, after) => (mark :: digits, after)
    else some ([], mark :: rest)
  | [] => some ([], [])

def readNumber (cs : List Char) : Option (Json × List Char) := do
  let (sign, unsigned) := match cs with
    | '-' :: rest => (['-'], rest)
    | _ => ([], cs)
  let (whole, afterWhole) ← readDigits unsigned
  guard (whole.head? != some '0' || whole.length == 1)
  let (fraction, afterFraction) ← readFraction afterWhole
  let (exponent, after) ← readExponent afterFraction
  if sign.isEmpty && fraction.isEmpty && exponent.isEmpty then
    let value ← Text.natural? whole
    return (.natural value, after)
  else
    return (.decimal (String.ofList (sign ++ whole ++ fraction ++ exponent)), after)

def readString (cs : List Char) : Option (Json × List Char) := do
  let (units, after) ← readUnits cs
  match decodeUnits units with
  | some text => return (.string (String.ofList text), after)
  | none => return (.unpaired, after)

/-- The members whose names are texts, if all of them are. -/
def namedMembers : List (Json × Json) → Option (List (String × Json))
  | [] => some []
  | (.string name, value) :: rest => (namedMembers rest).map ((name, value) :: ·)
  | _ => none

def ofMembers (members : List (Json × Json)) : Json :=
  match namedMembers members with
  | some named => .object named
  | none => .unpaired

mutual

/-- The value a text starts with, blanks before it having been skipped. -/
def readValue : (steps : Nat) → List Char → Option (Json × List Char)
  | 0, _ => none
  | steps + 1, cs =>
    match cs with
    | 'n' :: 'u' :: 'l' :: 'l' :: rest => some (.null, rest)
    | 't' :: 'r' :: 'u' :: 'e' :: rest => some (.bool true, rest)
    | 'f' :: 'a' :: 'l' :: 's' :: 'e' :: rest => some (.bool false, rest)
    | '"' :: rest => readString rest
    | '[' :: rest =>
      match skipBlanks rest with
      | ']' :: after => some (.array [], after)
      | first => (readElements steps first).map fun (elements, after) => (.array elements, after)
    | '\x7b' :: rest =>
      match skipBlanks rest with
      | '\x7d' :: after => some (.object [], after)
      | first => (readMembers steps first).map fun (members, after) => (ofMembers members, after)
    | _ => readNumber cs

/-- The elements of an array up to its closing bracket, at least one. -/
def readElements : (steps : Nat) → List Char → Option (List Json × List Char)
  | 0, _ => none
  | steps + 1, cs => do
    let (element, after) ← readValue steps cs
    match skipBlanks after with
    | ',' :: rest =>
      let (elements, last) ← readElements steps (skipBlanks rest)
      return (element :: elements, last)
    | ']' :: rest => return ([element], rest)
    | _ => none

/-- The members of an object up to its closing brace, at least one. -/
def readMembers : (steps : Nat) → List Char → Option (List (Json × Json) × List Char)
  | 0, _ => none
  | steps + 1, cs => do
    let '"' :: quoted := cs | none
    let (name, afterName) ← readString quoted
    let ':' :: afterColon := skipBlanks afterName | none
    let (value, after) ← readValue steps (skipBlanks afterColon)
    match skipBlanks after with
    | ',' :: rest =>
      let (members, last) ← readMembers steps (skipBlanks rest)
      return ((name, value) :: members, last)
    | '\x7d' :: rest => return ([(name, value)], rest)
    | _ => none

end

/-- The value written by a whole text, with blanks around it. -/
def parse? (text : String) : Option Json := do
  let cs := text.toList
  let (value, after) ← readValue (2 * cs.length + 2) (skipBlanks cs)
  guard (skipBlanks after).isEmpty
  return value

end CobolSymbols.Json
