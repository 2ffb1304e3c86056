/-!
# Blank characters and letter case

A blank is a character with the Unicode property White_Space. Text is trimmed of blanks at both ends before it is
read as a picture. Upper-casing touches the letters `a` to `z` only.
-/

set_option autoImplicit false

namespace CobolSymbols.Text

/-- The characters with the Unicode property White_Space. -/
def isBlank (c : Char) : Bool :=
  let n := c.toNat
  (9 ≤ n && n ≤ 13) || n == 0x20 || n == 0x85 || n == 0xA0 || n == 0x1680 || (0x2000 ≤ n && n ≤ 0x200A) ||
    n == 0x2028 || n == 0x2029 || n == 0x202F || n == 0x205F || n == 0x3000

def trim (cs : List Char) : List Char :=
  ((cs.dropWhile isBlank).reverse.dropWhile isBlank).reverse

/-- The upper-case form of `a` to `z`; every other character stands for itself. -/
def upper (c : Char) : Char :=
  if 'a' ≤ c ∧ c ≤ 'z' then Char.ofNat (c.toNat - 32) else c

end CobolSymbols.Text
