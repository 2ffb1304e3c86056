/-!
# Unsigned decimal numerals

Numerals are read as natural numbers with an upper limit, so that a reader says which numbers a field can hold, and
level numbers are written with at least two digits.
-/

set_option autoImplicit false

namespace CobolSymbols.Text

/-- The greatest number a 32-bit unsigned field holds. -/
def wordMax : Nat := 4294967295

def digit? (c : Char) : Option Nat :=
  if '0' ≤ c ∧ c ≤ '9' then some (c.toNat - '0'.toNat) else none

/-- The number written by the digits `cs`, continuing from the number `acc` read so far. -/
def digits? : List Char → Nat → Option Nat
  | [], acc => some acc
  | c :: rest, acc => (digit? c).bind fun d => digits? rest (10 * acc + d)

/-- The number written by a non-empty sequence of digits; leading zeros are allowed. -/
def natural? (cs : List Char) : Option Nat :=
  if cs.isEmpty then none else digits? cs 0

/-- A numeral that fits a 32-bit unsigned field; one leading plus sign is allowed. -/
def word? (cs : List Char) : Option Nat :=
  let unsigned := match cs with
    | '+' :: rest => rest
    | _ => cs
  (natural? unsigned).filter (· ≤ wordMax)

/-- The decimal text of a number, padded with a zero to at least two digits. -/
def twoDigits (n : Nat) : String :=
  if n < 10 then "0" ++ n.repr else n.repr

end CobolSymbols.Text
