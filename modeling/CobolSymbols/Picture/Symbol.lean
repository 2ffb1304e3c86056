import CobolSymbols.Text.Label

/-!
# Picture symbols

A picture character-string is written with twenty symbols of one character and the two symbols `CR` and `DB`.
-/

set_option autoImplicit false

namespace CobolSymbols

inductive PictureSymbol where
  /-- `A`, a letter or a space. -/
  | letter
  /-- `B`, an inserted space. -/
  | blank
  /-- `E`, the mark before an exponent. -/
  | exponent
  /-- `G`, a double-byte character. -/
  | doubleByte
  /-- `N`, a national character. -/
  | national
  /-- `P`, a digit position outside the stored number. -/
  | scaling
  /-- `S`, an operational sign. -/
  | sign
  /-- `V`, the place of an assumed decimal point. -/
  | point
  /-- `X`, any character. -/
  | character
  /-- `Z`, a digit whose leading zeros show as spaces. -/
  | suppressed
  /-- `9`, a digit. -/
  | digit
  /-- `0`, an inserted zero. -/
  | zero
  /-- `1`, a Boolean position. -/
  | one
  /-- `/`, an inserted slash. -/
  | slash
  /-- `,`, an inserted comma. -/
  | comma
  /-- `.`, an inserted period. -/
  | period
  /-- `+`, a sign shown for both signs. -/
  | plus
  /-- `-`, a sign shown for negative numbers. -/
  | minus
  /-- `*`, a digit whose leading zeros show as asterisks. -/
  | asterisk
  /-- `$`, a currency sign. -/
  | currency
  /-- `CR`, the credit mark. -/
  | credit
  /-- `DB`, the debit mark. -/
  | debit
deriving DecidableEq, Repr

namespace PictureSymbol

def chars : PictureSymbol → List Char
  | .letter => ['A']
  | .blank => ['B']
  | .exponent => ['E']
  | .doubleByte => ['G']
  | .national => ['N']
  | .scaling => ['P']
  | .sign => ['S']
  | .point => ['V']
  | .character => ['X']
  | .suppressed => ['Z']
  | .digit => ['9']
  | .zero => ['0']
  | .one => ['1']
  | .slash => ['/']
  | .comma => [',']
  | .period => ['.']
  | .plus => ['+']
  | .minus => ['-']
  | .asterisk => ['*']
  | .currency => ['$']
  | .credit => ['C', 'R']
  | .debit => ['D', 'B']

def width (s : PictureSymbol) : Nat := s.chars.length

def ofChar? : Char → Option PictureSymbol
  | 'A' => some .letter
  | 'B' => some .blank
  | 'E' => some .exponent
  | 'G' => some .doubleByte
  | 'N' => some .national
  | 'P' => some .scaling
  | 'S' => some .sign
  | 'V' => some .point
  | 'X' => some .character
  | 'Z' => some .suppressed
  | '9' => some .digit
  | '0' => some .zero
  | '1' => some .one
  | '/' => some .slash
  | ',' => some .comma
  | '.' => some .period
  | '+' => some .plus
  | '-' => some .minus
  | '*' => some .asterisk
  | '$' => some .currency
  | _ => none

end PictureSymbol

-- A sum starts from the numeral, whatever algebra of numbers is in scope.
attribute [local instance (high)] Zero.ofOfNat0

structure PictureItem where
  symbol : PictureSymbol
  count : Nat
deriving DecidableEq, Repr

namespace PictureItem

def positions (i : PictureItem) : Nat := i.count * i.symbol.width

/-- The sum of the counts of the items whose symbol is one of those wanted. -/
def total (items : List PictureItem) (wanted : List PictureSymbol) : Nat :=
  ((items.filter fun i => wanted.contains i.symbol).map (·.count)).sum

def occurs (items : List PictureItem) (wanted : List PictureSymbol) : Bool := 0 < total items wanted

def declared (items : List PictureItem) : Nat := (items.map positions).sum

end PictureItem

end CobolSymbols
