import CobolSymbols.Event
import CobolSymbols.Symbol.Basic

/-!
# Nodes of the program tree

A node keeps the header, entry or statement it was made from, flags that tell where it stands, and the symbol or scope
it means. Nodes are numbered in the order in which they are made.
-/

set_option autoImplicit false

namespace CobolSymbols

abbrev NodeId := Nat

inductive NodeFlag where
  | workingStorage
  | linkage
  | localStorage
  | fileSection
  | globalStorage
  | insideProcedure
  | insideType
  | containsProcedure
  | containsIndex
  | missingEnd
deriving DecidableEq, Repr

instance : Flag NodeFlag where
  all := [.workingStorage, .linkage, .localStorage, .fileSection, .globalStorage, .insideProcedure, .insideType,
    .containsProcedure, .containsIndex, .missingEnd]
  label
    | .workingStorage => "WORKING_STORAGE"
    | .linkage => "LINKAGE_SECTION"
    | .localStorage => "LOCAL_STORAGE"
    | .fileSection => "FILE_SECTION"
    | .globalStorage => "GLOBAL_STORAGE"
    | .insideProcedure => "INSIDE_PROCEDURE"
    | .insideType => "INSIDE_TYPEDEF"
    | .containsProcedure => "CONTAINS_PROCEDURE"
    | .containsIndex => "CONTAINS_INDEX"
    | .missingEnd => "MISSING_END_PROGRAM"
  position := NodeFlag.ctorIdx

abbrev NodeFlags := FlagSet NodeFlag

def StorageSection.nodeFlag : StorageSection → NodeFlag
  | .file => .fileSection
  | .globalStorage => .globalStorage
  | .workingStorage => .workingStorage
  | .localStorage => .localStorage
  | .linkage => .linkage

inductive NodeKind where
  | sourceFile
  | program (header : ProgramHeader)
  | programEnd (marker : ProgramEnd)
  | dataDivision (position : Position)
  | storage (storage : StorageSection) (header : StorageHeader)
  | file (entry : FileEntry)
  | data (entry : DataEntry)
  | redefines (entry : RedefinesEntry)
  | renames (entry : RenamesEntry)
  | condition (entry : ConditionEntry)
  | typeDefinition (entry : DataEntry)
  | index (name : IndexName)
  | procedureDivision (header : ProcedureHeader)
  | declaratives (position : Position)
  | procedure (header : DeclaredProcedure)
  /-- A parameter of a declared procedure; the item it gives back has no direction. -/
  | parameter (entry : DataEntry) (direction : Option Direction)
  | heading (heading : SectionHeading)
  | paragraph (heading : ParagraphHeading)
  | statement (body : Statement)
deriving DecidableEq, Repr

/-- What the nodes that declare data have in common. -/
structure DataDefinition where
  level : Level
  name : Option String
  position : Position
  /-- The clauses; level-66 and level-88 entries have none. -/
  entry : Option DataEntry
deriving DecidableEq, Repr

def DataDefinition.ofEntry (e : DataEntry) : DataDefinition := ⟨e.level, e.name, e.position, some e⟩

namespace NodeKind

def label : NodeKind → String
  | .sourceFile => "SourceFile"
  | .program header => "Program " ++ header.name
  | .programEnd _ => "End"
  | .dataDivision _ => "DataDivision"
  | .storage kept _ => kept.keyword
  | .file entry => "FD " ++ entry.name
  | .data entry => Text.twoDigits entry.level.toNat ++ " " ++ entry.displayName
  | .redefines entry =>
    Text.twoDigits entry.entry.level.toNat ++ " " ++ entry.entry.displayName ++ " REDEFINES " ++ entry.redefines.name
  | .renames entry => "66 " ++ entry.name
  | .condition entry => "88 " ++ entry.name
  | .typeDefinition entry => Text.twoDigits entry.level.toNat ++ " " ++ entry.displayName ++ " TYPEDEF"
  | .index name => "Index " ++ name.name
  | .procedureDivision _ => "ProcedureDivision"
  | .declaratives _ => "Declaratives"
  | .procedure header => "Declare " ++ header.name
  | .parameter entry _ => "Parameter " ++ entry.displayName
  | .heading title => "Section " ++ title.name
  | .paragraph title => "Paragraph " ++ title.name
  | .statement body => Labelled.label body.kind

def definition? : NodeKind → Option DataDefinition
  | .data entry => some (.ofEntry entry)
  | .redefines entry => some (.ofEntry entry.entry)
  | .renames entry => some ⟨renamesLevel, some entry.name, entry.position, none⟩
  | .condition entry => some ⟨conditionLevel, some entry.name, entry.position, none⟩
  | .typeDefinition entry => some (.ofEntry entry)
  | .parameter entry _ => some (.ofEntry entry)
  | _ => none

def isProgram : NodeKind → Bool
  | .program _ => true
  | _ => false

end NodeKind

inductive Meaning where
  | symbol (id : SymbolId)
  | scope (owner : SymbolId) (slot : ScopeSlot)
deriving DecidableEq, Repr

/-- A node of the program tree, without its place in the tree. -/
structure Node where
  id : NodeId
  kind : NodeKind
  flags : NodeFlags := ∅
  meaning : Option Meaning := none
  /-- The type definition in whose body it stands. -/
  typeNode : Option NodeId := none
deriving DecidableEq, Repr

namespace Node

def definition? (n : Node) : Option DataDefinition := n.kind.definition?

def isDefinition (n : Node) : Bool := n.definition?.isSome

def symbol? (n : Node) : Option SymbolId :=
  match n.meaning with
  | some (.symbol id) => some id
  | _ => none

def bindSymbol (n : Node) (id : SymbolId) : Node := { n with meaning := some (.symbol id) }

def mark (n : Node) (flag : NodeFlag) : Node := { n with flags := n.flags.insert flag }

end Node

end CobolSymbols
