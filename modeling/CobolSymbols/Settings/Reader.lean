import CobolSymbols.Settings.Integer

/-!
# Settings text

Settings are written line by line: `key = value`, table headers `[name]`, comments after `#`, and blank lines. Keys
before the first header belong to no table. A key may stand once in its table and a table once in the text. Values are
strings in double quotes with escapes, strings in single quotes without, integers, `true` and `false`.

The settings of a text are given as a JSON object with a member for each table.
-/

set_option autoImplicit false

namespace CobolSymbols.Settings

def isBlank (c : Char) : Bool := c == ' ' || c == '\t'

def skipBlanks (cs : List Char) : List Char := cs.dropWhile isBlank

/-- The characters that may stand in comments and strings. -/
def isPrintable (c : Char) : Bool := c == '\t' || (0x20 ≤ c.toNat && c.toNat != 0x7F)

def endsLine (cs : List Char) : Bool :=
  match skipBlanks cs with
  | [] => true
  | '#' :: comment => comment.all isPrintable
  | _ => false

def isKeyChar (c : Char) : Bool :=
  ('a' ≤ c && c ≤ 'z') || ('A' ≤ c && c ≤ 'Z') || ('0' ≤ c && c ≤ '9') || c == '_' || c == '-'

/-- The character of a scalar value; surrogates stand for none. -/
def scalar? (code : Nat) : Option Char := if code.isValidChar then some (Char.ofNat code) else none

/-- The text of a string in double quotes up to its closing quote, and what follows. -/
def readEscaped : List Char → Option (List Char × List Char)
  | [] => none
  | '"' :: rest => some ([], rest)
  | '\\' :: 'u' :: a :: b :: c :: d :: rest => do
    let ch ← (Json.hexUnit? a b c d).bind scalar?
    let (text, after) ← readEscaped rest
    return (ch :: text, after)
  | '\\' :: 'U' :: a :: b :: c :: d :: e :: f :: g :: h :: rest => do
    let high ← Json.hexUnit? a b c d
    let low ← Json.hexUnit? e f g h
    let ch ← scalar? (high * 0x10000 + low)
    let (text, after) ← readEscaped rest
    return (ch :: text, after)
  | '\\' :: letter :: rest => do
    guard (letter != '/')
    let ch ← Json.escaped? letter
    let (text, after) ← readEscaped rest
    return (ch :: text, after)
  | c :: rest => do
    guard (isPrintable c)
    let (text, after) ← readEscaped rest
    return (c :: text, after)

/-- The text of a string in single quotes up to its closing quote, and what follows. -/
def readLiteral : List Char → Option (List Char × List Char)
  | [] => none
  | c :: rest =>
    if c == '\x27' then some ([], rest)
    else if isPrintable c then (readLiteral rest).map fun (text, after) => (c :: text, after)
    else none

def readKey : List Char → Option (String × List Char)
  | [] => none
  | c :: rest =>
    if c == '"' then (readEscaped rest).map fun (text, after) => (String.ofList text, after)
    else if c == '\x27' then (readLiteral rest).map fun (text, after) => (String.ofList text, after)
    else
      let bare := (c :: rest).takeWhile isKeyChar
      if bare.isEmpty then none else some (String.ofList bare, (c :: rest).dropWhile isKeyChar)

def readValue : List Char → Option (Json × List Char)
  | [] => none
  | c :: rest =>
    if c == '"' then (readEscaped rest).map fun (text, after) => (.string (String.ofList text), after)
    else if c == '\x27' then (readLiteral rest).map fun (text, after) => (.string (String.ofList text), after)
    else
      let isWordChar := fun c => isKeyChar c || c == '+'
      let word := (c :: rest).takeWhile isWordChar
      let after := (c :: rest).dropWhile isWordChar
      if word == ['t', 'r', 'u', 'e'] then some (.bool true, after)
      else if word == ['f', 'a', 'l', 's', 'e'] then some (.bool false, after)
      else (integer? word).map (·, after)

inductive Line where
  | nothing
  | header (name : String)
  | setting (key : String) (value : Json)

def readLine (cs : List Char) : Option Line :=
  if endsLine cs then some .nothing
  else
    match skipBlanks cs with
    | '[' :: rest => do
      let (name, after) ← readKey (skipBlanks rest)
      let ']' :: last := skipBlanks after | none
      guard (endsLine last)
      return .header name
    | start => do
      let (key, after) ← readKey start
      let '=' :: rest := skipBlanks after | none
      let (value, last) ← readValue (skipBlanks rest)
      guard (endsLine last)
      return .setting key value

structure Document where
  top : List (String × Json) := []
  /-- The tables with their settings, the one being read first. -/
  tables : List (String × List (String × Json)) := []

def isMember {α : Type} (name : String) (members : List (String × α)) : Bool := members.any fun m => m.1 == name

/-- Add what a line says, unless it repeats a name. -/
def Document.add (d : Document) : Line → Option Document
  | .nothing => some d
  | .header name =>
    if isMember name d.top || isMember name d.tables then none else some { d with tables := (name, []) :: d.tables }
  | .setting key value =>
    match d.tables with
    | [] => if isMember key d.top then none else some { d with top := d.top ++ [(key, value)] }
    | (name, members) :: others =>
      if isMember key members then none else some { d with tables := (name, members ++ [(key, value)]) :: others }

def Document.toJson (d : Document) : Json :=
  .object (d.top ++ d.tables.reverse.map fun (name, members) => (name, .object members))

/-- The lines of a text; a carriage return before a line feed belongs to the line end. -/
def lines : List Char → List (List Char)
  | [] => [[]]
  | '\n' :: rest => [] :: lines rest
  | '\r' :: '\n' :: rest => [] :: lines rest
  | c :: rest =>
    match lines rest with
    | [] => [[c]]
    | line :: others => (c :: line) :: others

/-- The text without the byte order mark it may start with. -/
def skipMark : List Char → List Char
  | '\ufeff' :: rest => rest
  | cs => cs

def parse? (text : String) : Option Json := do
  let document ← (lines (skipMark text.toList)).foldlM (fun (d : Document) line => (readLine line).bind d.add) {}
  return document.toJson

end CobolSymbols.Settings
