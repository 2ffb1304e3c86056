/-!
# What can be wrong with a picture
-/

set_option autoImplicit false

namespace CobolSymbols

def maxDigits : Nat := 31

def maxPositions : Nat := 134217727

inductive PictureError where
  | empty
  | invalidCharacter (c : Char)
  /-- A repetition factor with no symbol before it, or without its closing parenthesis. -/
  | unbalancedParenthesis
  | invalidRepetition (factor : String)
  /-- More than one sign symbol, or one that is not leftmost. -/
  | misplacedSign
  | multipleDecimalPoints
  | tooManyDigits (digits : Nat)
  | tooLong
deriving DecidableEq, Repr

def PictureError.message : PictureError → String
  | .empty => "PICTURE character-string is empty"
  | .invalidCharacter c => "invalid character '" ++ c.toString ++ "' in PICTURE character-string"
  | .unbalancedParenthesis => "unbalanced repetition factor in PICTURE character-string"
  | .invalidRepetition factor => "invalid repetition factor '" ++ factor ++ "'"
  | .misplacedSign => "symbol 'S' may appear only once, as the leftmost symbol"
  | .multipleDecimalPoints => "symbol 'V' may appear only once"
  | .tooManyDigits digits =>
    "numeric PICTURE declares " ++ digits.repr ++ " digits, at most " ++ maxDigits.repr ++ " are allowed"
  | .tooLong =>
    "PICTURE character-string declares more than " ++ maxPositions.repr ++ " character positions"

end CobolSymbols
