import CobolSymbols.Json.Basic

/-!
# Writing JSON text

Values are written without blanks. Quotes, backslashes and control characters are escaped, everything else stands as
it is.
-/

set_option autoImplicit false

namespace CobolSymbols.Json

def hexChar (n : Nat) : Char := if n < 10 then Char.ofNat (48 + n) else Char.ofNat (87 + n)

def quotedChar (c : Char) : List Char :=
  if c == '"' then ['\\', '"']
  else if c == '\\' then ['\\', '\\']
  else if c == '\n' then ['\\', 'n']
  else if c == '\r' then ['\\', 'r']
  else if c == '\t' then ['\\', 't']
  else if c.toNat < 0x20 then ['\\', 'u', '0', '0', hexChar (c.toNat / 16), hexChar (c.toNat % 16)]
  else [c]

def quoted (text : String) : String :=
  String.ofList ('"' :: (text.toList.flatMap quotedChar ++ ['"']))

mutual

def write : Json → String
  | .null => "null"
  | .bool true => "true"
  | .bool false => "false"
  | .natural value => value.repr
  | .decimal literal => literal
  | .string text => quoted text
  | .unpaired => "\"\\ud800\""
  | .array elements => "[" ++ ",".intercalate (writeElements elements) ++ "]"
  | .object members => "\x7b" ++ ",".intercalate (writeMembers members) ++ "\x7d"

def writeElements : List Json → List String
  | [] => []
  | element :: rest => write element :: writeElements rest

def writeMembers : List (String × Json) → List String
  | [] => []
  | (name, value) :: rest => (quoted name ++ ":" ++ write value) :: writeMembers rest

end

end CobolSymbols.Json
