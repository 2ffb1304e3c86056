import CobolSymbols.Picture.Reader
import CobolSymbols.Text.Blank
import CobolSymbols.Usage

/-!
# Pictures

A picture is the text of a PICTURE clause together with the items it is made of. Everything else about it is computed
from the items: its category, its digit positions and their scale, whether it is signed, the characters it shows, and
the bytes it takes under a usage.

`Picture.parse` reports the first fault in this order: an empty text, the leftmost fault of an item, too many
positions, a misplaced sign, a second decimal point, too many digits.
-/

set_option autoImplicit false

namespace CobolSymbols

inductive PictureCategory where
  | alphabetic
  | numeric
  | numericEdited
  | alphanumeric
  | alphanumericEdited
  | national
  | dbcs
deriving DecidableEq, Repr

instance : Labelled PictureCategory where
  all := [.alphabetic, .numeric, .numericEdited, .alphanumeric, .alphanumericEdited, .national, .dbcs]
  label
    | .alphabetic => "Alphabetic"
    | .numeric => "Numeric"
    | .numericEdited => "NumericEdited"
    | .alphanumeric => "Alphanumeric"
    | .alphanumericEdited => "AlphanumericEdited"
    | .national => "National"
    | .dbcs => "Dbcs"

def PictureCategory.isNumber (c : PictureCategory) : Bool := c == .numeric || c == .numericEdited

def PictureCategory.ofItems (items : List PictureItem) : PictureCategory :=
  let has := PictureItem.occurs items
  let insertion := has [.blank, .zero, .slash]
  let editing := has [.suppressed, .asterisk, .plus, .minus, .comma, .period, .currency, .credit, .debit, .exponent]
  if has [.doubleByte] then .dbcs
  else if has [.national] then .national
  else if has [.character] || (has [.letter] && has [.digit]) then
    if insertion then .alphanumericEdited else .alphanumeric
  else if has [.letter] then .alphabetic
  else if editing || insertion then .numericEdited
  else .numeric

/-- The text of a PICTURE clause and the items it is made of. -/
structure Picture where
  /-- The text without surrounding blanks, as it was written. -/
  text : String
  items : List PictureItem
  bounded : PictureItem.declared items ≤ maxPositions
deriving DecidableEq, Repr

namespace Picture

def category (p : Picture) : PictureCategory := .ofItems p.items

def digitsOf (items : List PictureItem) : Nat :=
  if (PictureCategory.ofItems items).isNumber then
    PictureItem.total items [.digit, .suppressed, .asterisk, .scaling]
  else 0

/-- The number of digit positions, none for a picture that is not numeric. -/
def digits (p : Picture) : Nat := digitsOf p.items

/-- The number of `9` and `P` positions that stand after the `V`. -/
def scale (p : Picture) : Nat :=
  PictureItem.total (p.items.dropWhile fun i => i.symbol != .point) [.digit, .scaling]

def isSigned (p : Picture) : Bool :=
  PictureItem.total p.items [.sign] == 1 || PictureItem.occurs p.items [.plus, .minus, .credit, .debit]

def length (p : Picture) : Nat :=
  PictureItem.declared (p.items.filter fun i => !([.sign, .point, .scaling] : List PictureSymbol).contains i.symbol)

def normalized (p : Picture) : String :=
  String.ofList (p.items.flatMap fun i => (List.replicate i.count i.symbol.chars).flatten)

/-- The bytes an item of this picture takes under a usage; a separate sign takes a byte more where digits are shown. -/
def size (p : Picture) (format : UsageFormat) (signSeparate : Bool) : Nat :=
  let separateSign := if signSeparate && p.category == .numeric && p.isSigned then 1 else 0
  match format with
  | some .comp3 | some .packedDecimal => p.digits / 2 + 1
  | some .binary | some .comp | some .comp4 | some .comp5 =>
    if p.digits ≤ 4 then 2 else if p.digits ≤ 9 then 4 else 8
  | some .national => 2 * (p.length + separateSign)
  | some .display1 => 2 * p.length
  | other =>
    if p.category == .national || p.category == .dbcs then 2 * p.length
    else (UsageFormat.fixedSize? other).getD (p.length + separateSign)

/-- The picture made of the items, if their symbols may stand together. -/
def ofItems (text : String) (items : List PictureItem) (hbounded : PictureItem.declared items ≤ maxPositions) :
    Except PictureError Picture :=
  let signs := PictureItem.total items [.sign]
  if signs > 1 || (signs == 1 && (items.head?.map (·.symbol)) != some .sign) then .error .misplacedSign
  else if PictureItem.total items [.point] > 1 then .error .multipleDecimalPoints
  else if digitsOf items > maxDigits then .error (.tooManyDigits (digitsOf items))
  else .ok ⟨text, items, hbounded⟩

def parse (text : String) : Except PictureError Picture :=
  let trimmed := Text.trim text.toList
  let source := trimmed.map Text.upper
  if source.isEmpty then .error .empty
  else
    match PictureItem.readAll source.length source with
    | .error e => .error e
    | .ok items =>
      if hbounded : PictureItem.declared items ≤ maxPositions then ofItems (String.ofList trimmed) items hbounded
      else .error .tooLong

end Picture

end CobolSymbols
