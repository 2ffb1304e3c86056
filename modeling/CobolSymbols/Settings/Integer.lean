import CobolSymbols.Json.Reader

/-!
# Integers in settings

An integer is written in decimal, with an optional sign and without superfluous zeros, or to the base 16, 8 or 2 after
`0x`, `0o` or `0b`, without a sign and with as many zeros as wanted. An underscore may stand between two digits. The
number has to fit 64 bits with a sign.
-/

set_option autoImplicit false

namespace CobolSymbols.Settings

def integerMax : Nat := 9223372036854775807

/-- The digits of a numeral without the underscores between them; none at either end, and no two together. -/
def plainDigits : List Char → Option (List Char)
  | [] => some []
  | ['_'] => none
  | '_' :: '_' :: _ => none
  | '_' :: rest => plainDigits rest
  | c :: rest => (plainDigits rest).map (c :: ·)

/-- The value of a digit to a base of at most 16; letters stand for ten and more in either case. -/
def digitIn? (base : Nat) (c : Char) : Option Nat := (Json.hexDigit? c).filter (· < base)

/-- The number that the digits write to a base, continuing from the number `acc` read so far. -/
def digitsIn? (base : Nat) : List Char → Nat → Option Nat
  | [], acc => some acc
  | c :: rest, acc => (digitIn? base c).bind fun d => digitsIn? base rest (base * acc + d)

/-- The number that a numeral writes to a base: at least one digit, with underscores between digits. -/
def numeral? (base : Nat) (numeral : List Char) : Option Nat := do
  guard (numeral.head? != some '_')
  let digits ← plainDigits numeral
  guard !digits.isEmpty
  digitsIn? base digits 0

/-- The number that a decimal numeral without superfluous zeros writes. -/
def decimal? (numeral : List Char) : Option Nat :=
  if numeral.head? = some '0' ∧ numeral.length ≠ 1 then none else numeral? 10 numeral

def unsigned? (base : Nat) (numeral : List Char) : Option Json :=
  ((numeral? base numeral).filter (· ≤ integerMax)).map .natural

def integer? : List Char → Option Json
  | '0' :: 'x' :: numeral => unsigned? 16 numeral
  | '0' :: 'o' :: numeral => unsigned? 8 numeral
  | '0' :: 'b' :: numeral => unsigned? 2 numeral
  | '-' :: numeral =>
    ((decimal? numeral).filter (· ≤ integerMax + 1)).map fun value => .decimal ("-" ++ value.repr)
  | '+' :: numeral => ((decimal? numeral).filter (· ≤ integerMax)).map .natural
  | numeral => ((decimal? numeral).filter (· ≤ integerMax)).map .natural

end CobolSymbols.Settings
