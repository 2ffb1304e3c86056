import CobolSymbols.Symbol.Flag
import CobolSymbols.Symbol.Type

/-!
# Symbols

A symbol stands for a program, a procedure, a data item, a paragraph or a section, or for the root under which all
programs stand. Programs and procedures hold scopes, one for each kind of thing they declare, and a domain of all their
data items. What a data item is beyond its level and value depends on its kind.
-/

set_option autoImplicit false

namespace CobolSymbols

inductive ScopeSlot where
  | types
  | fileData
  | globalStorage
  | workingStorage
  | localStorage
  | linkage
  | sections
  | paragraphs
  | programs
  | procedures
  | namespaces
deriving DecidableEq, Repr

instance : Labelled ScopeSlot where
  all := [.types, .fileData, .globalStorage, .workingStorage, .localStorage, .linkage, .sections, .paragraphs,
    .programs, .procedures, .namespaces]
  label
    | .types => "Types"
    | .fileData => "FileData"
    | .globalStorage => "GlobalStorage"
    | .workingStorage => "WorkingStorage"
    | .localStorage => "LocalStorage"
    | .linkage => "Linkage"
    | .sections => "Sections"
    | .paragraphs => "Paragraphs"
    | .programs => "Programs"
    | .procedures => "Functions"
    | .namespaces => "Namespaces"

def StorageSection.slot : StorageSection → ScopeSlot
  | .file => .fileData
  | .globalStorage => .globalStorage
  | .workingStorage => .workingStorage
  | .localStorage => .localStorage
  | .linkage => .linkage

/-- A scope, named by the symbol it belongs to. -/
inductive ScopeRef where
  | slot (owner : SymbolId) (slot : ScopeSlot)
  | fields (owner : SymbolId)
deriving DecidableEq, Repr

def ScopeRef.owner : ScopeRef → SymbolId
  | .slot owner _ => owner
  | .fields owner => owner

structure Scopes where
  types : Scope SymbolId := {}
  fileData : Scope SymbolId := {}
  globalStorage : Scope SymbolId := {}
  workingStorage : Scope SymbolId := {}
  localStorage : Scope SymbolId := {}
  linkage : Scope SymbolId := {}
  sections : Scope SymbolId := {}
  paragraphs : Scope SymbolId := {}
  programs : Scope SymbolId := {}
  procedures : Scope SymbolId := {}
  namespaces : Scope SymbolId := {}
deriving DecidableEq, Repr, Inhabited

namespace Scopes

def get (s : Scopes) : ScopeSlot → Scope SymbolId
  | .types => s.types
  | .fileData => s.fileData
  | .globalStorage => s.globalStorage
  | .workingStorage => s.workingStorage
  | .localStorage => s.localStorage
  | .linkage => s.linkage
  | .sections => s.sections
  | .paragraphs => s.paragraphs
  | .programs => s.programs
  | .procedures => s.procedures
  | .namespaces => s.namespaces

def modify (s : Scopes) (slot : ScopeSlot) (f : Scope SymbolId → Scope SymbolId) : Scopes :=
  match slot with
  | .types => { s with types := f s.types }
  | .fileData => { s with fileData := f s.fileData }
  | .globalStorage => { s with globalStorage := f s.globalStorage }
  | .workingStorage => { s with workingStorage := f s.workingStorage }
  | .localStorage => { s with localStorage := f s.localStorage }
  | .linkage => { s with linkage := f s.linkage }
  | .sections => { s with sections := f s.sections }
  | .paragraphs => { s with paragraphs := f s.paragraphs }
  | .programs => { s with programs := f s.programs }
  | .procedures => { s with procedures := f s.procedures }
  | .namespaces => { s with namespaces := f s.namespaces }

def members (s : Scopes) : List SymbolId := (Labelled.all : List ScopeSlot).flatMap fun slot => (s.get slot).order

end Scopes

structure ProgramData where
  scopes : Scopes := {}
  duplicates : List SymbolId := []
  domain : Domain SymbolId := {}
  /-- For each type used in it, the items declared with the type, in order of first use. -/
  references : List (SymbolId × List SymbolId) := []
deriving DecidableEq, Repr, Inhabited

/-- The symbols a program or procedure holds, refused ones last. -/
def ProgramData.members (d : ProgramData) : List SymbolId := d.scopes.members ++ d.duplicates

/-- The bytes of a record that a level-66 item stands for. -/
structure RenamesRange where
  first : SymbolId
  thru : Option SymbolId
  offset : Nat
  length : Option Nat
deriving DecidableEq, Repr

inductive ItemKind where
  | plain
  /-- A type definition, with the items of its body that refer to types. -/
  | typeDefinition (restriction : Restriction) (typedItems : List SymbolId)
  | redefines (target : Option SymbolId)
  | renames (first : String) (thru : Option String) (range : Option RenamesRange)
  | index (indexed : SymbolId)
deriving DecidableEq, Repr

def ItemKind.isType : ItemKind → Bool
  | .typeDefinition .. => true
  | _ => false

inductive ItemValue where
  | initial (value : Literal)
  | conditions (values : List ConditionValue)
deriving DecidableEq, Repr

structure ItemData where
  level : Level
  value : Option ItemValue := none
  variableSlot : Option Nat := none
  kind : ItemKind
deriving DecidableEq, Repr

inductive SymbolBody where
  | root (scopes : Scopes)
  | namespaceBody (scopes : Scopes)
  | program (data : ProgramData)
  | procedure (data : ProgramData)
  | item (data : ItemData)
  /-- A paragraph, with the procedure section it stands in. -/
  | paragraph (heading : Option SymbolId)
  | heading

inductive SymbolKind where
  | namespaceKind
  | program
  | procedure
  | plainItem
  | typeDefinition
  | redefines
  | renames
  | index
  | paragraph
  | heading
  | root
deriving DecidableEq, Repr

def SymbolKind.text : SymbolKind → String
  | .namespaceKind => "namespace"
  | .program => "program"
  | .procedure => "function"
  | .plainItem => "variable"
  | .typeDefinition => "typedef"
  | .redefines => "redefines"
  | .renames => "renames"
  | .index => "index"
  | .paragraph => "paragraph"
  | .heading => "section"
  | .root => "root"

structure Symbol where
  name : String
  flags : SymbolFlags := ∅
  owner : Option SymbolId := none
  type : Option DataType := none
  position : Position
  body : SymbolBody

namespace Symbol

instance : Inhabited Symbol := ⟨{ name := "", position := {}, body := .heading }⟩

def kind (s : Symbol) : SymbolKind :=
  match s.body with
  | .root _ => .root
  | .namespaceBody _ => .namespaceKind
  | .program _ => .program
  | .procedure _ => .procedure
  | .item data =>
    match data.kind with
    | .plain => .plainItem
    | .typeDefinition .. => .typeDefinition
    | .redefines _ => .redefines
    | .renames .. => .renames
    | .index _ => .index
  | .paragraph _ => .paragraph
  | .heading => .heading

def item? (s : Symbol) : Option ItemData :=
  match s.body with
  | .item data => some data
  | _ => none

def mapItem (f : ItemData → ItemData) (s : Symbol) : Symbol :=
  match s.body with
  | .item data => { s with body := .item (f data) }
  | _ => s

def level? (s : Symbol) : Option Level := s.item?.map (·.level)

def program? (s : Symbol) : Option ProgramData :=
  match s.body with
  | .program data | .procedure data => some data
  | _ => none

def mapProgram (f : ProgramData → ProgramData) (s : Symbol) : Symbol :=
  match s.body with
  | .program data => { s with body := .program (f data) }
  | .procedure data => { s with body := .procedure (f data) }
  | _ => s

/-- The scope of the symbol in a slot; namespaces hold types, programs and namespaces only, programs and procedures
hold everything but namespaces. -/
def scope? (s : Symbol) (slot : ScopeSlot) : Option (Scope SymbolId) :=
  match s.body with
  | .root scopes | .namespaceBody scopes =>
    match slot with
    | .types | .programs | .namespaces => some (scopes.get slot)
    | _ => none
  | .program data | .procedure data =>
    match slot with
    | .namespaces => none
    | _ => some (data.scopes.get slot)
  | _ => none

def mapScopes (f : Scopes → Scopes) (s : Symbol) : Symbol :=
  match s.body with
  | .root scopes => { s with body := .root (f scopes) }
  | .namespaceBody scopes => { s with body := .namespaceBody (f scopes) }
  | .program data => { s with body := .program { data with scopes := f data.scopes } }
  | .procedure data => { s with body := .procedure { data with scopes := f data.scopes } }
  | _ => s

def fields? (s : Symbol) : Option (Scope SymbolId) := s.type.bind DataType.fields?

def fieldList (s : Symbol) : List SymbolId := (s.fields?.map (·.order)).getD []

def reference? (s : Symbol) : Option TypeReference := s.type.bind DataType.reference?

def typedItems (s : Symbol) : List SymbolId :=
  match s.item?.map ItemData.kind with
  | some (.typeDefinition _ items) => items
  | _ => []

def isScope (s : Symbol) : Bool :=
  match s.body with
  | .root _ | .namespaceBody _ | .program _ | .procedure _ => true
  | _ => false

def isRemoved (s : Symbol) : Bool := s.flags.has .removed

def addFlags (flags : SymbolFlags) (s : Symbol) : Symbol := { s with flags := s.flags ∪ flags }

end Symbol

end CobolSymbols
