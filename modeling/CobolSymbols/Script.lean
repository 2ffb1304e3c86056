import CobolSymbols.Session

/-!
# Scripts

A script writes the events of a unit call by call. Every call that stands for source text takes the next line, with
entries in one column and the names they refer to in another, so positions can be told from the order of the calls.
-/

set_option autoImplicit false

namespace CobolSymbols

structure Script where
  events : List Event := []
  line : UInt32 := 0

namespace Script

def entryColumn : UInt32 := 8

def referenceColumn : UInt32 := 30

def nextLine (s : Script) : Script := { s with line := s.line + 1 }

def entryPosition (s : Script) : Position := ⟨s.line, entryColumn⟩

def referencePosition (s : Script) : Position := ⟨s.line, referenceColumn⟩

def reference (s : Script) (name : String) : Reference := ⟨name, s.referencePosition⟩

def push (s : Script) (event : Event) : Script := { s with events := s.events ++ [event] }

def onNextLine (s : Script) (event : Script → Event) : Script :=
  let s := s.nextLine
  s.push (event s)

def program (s : Script) (name : String) : Script :=
  s.onNextLine fun s => .startProgram { name, position := s.entryPosition }

def endProgram (s : Script) (name : String) : Script :=
  s.onNextLine fun s => .endProgram (some { name := some name, position := s.entryPosition })

def endProgramMissing (s : Script) : Script := s.push (.endProgram none)

def dataDivision (s : Script) : Script := s.onNextLine fun s => .startDataDivision s.entryPosition

def endDataDivision (s : Script) : Script := s.push .endDataDivision

def storage (s : Script) (storage : StorageSection) : Script :=
  s.onNextLine fun s => .startStorage storage { position := s.entryPosition }

def endStorage (s : Script) (storage : StorageSection) : Script := s.push (.endStorage storage)

def workingStorage (s : Script) : Script := s.dataDivision.storage .workingStorage

def endWorkingStorage (s : Script) : Script := (s.endStorage .workingStorage).endDataDivision

def fileDescription (s : Script) (name : String) : Script :=
  s.onNextLine fun s => .startFile { name, position := s.entryPosition }

def endFileDescription (s : Script) : Script := s.push .endFile

def entry (s : Script) (level : Level) (name : String) (clauses : DataEntry → Position → DataEntry) : Script :=
  s.onNextLine fun s => .dataEntry (clauses (.named level name s.entryPosition) s.referencePosition)

def group (s : Script) (level : Level) (name : String) : Script := s.entry level name fun e _ => e

def pic (s : Script) (level : Level) (name picture : String) : Script :=
  s.entry level name fun e _ => e.withPicture picture

def typed (s : Script) (level : Level) (name typeName : String) : Script :=
  s.entry level name fun e position => e.ofType ⟨typeName, position⟩

def filler (s : Script) (level : Level) (picture : String) : Script :=
  s.onNextLine fun s => .dataEntry ((DataEntry.filler level s.entryPosition).withPicture picture)

def typeDefinition (s : Script) (level : Level) (name : String) (clause : TypedefClause)
    (clauses : DataEntry → Position → DataEntry) : Script :=
  s.onNextLine fun s =>
    .typedefEntry (clauses ((DataEntry.named level name s.entryPosition).asTypeDefinition clause) s.referencePosition)

def redefines (s : Script) (level : Level) (name target picture : String) : Script :=
  s.onNextLine fun s =>
    .redefinesEntry ⟨(DataEntry.named level name s.entryPosition).withPicture picture, s.reference target⟩

def renames (s : Script) (name first : String) (thru : Option String) : Script :=
  s.onNextLine fun s =>
    .renamesEntry
      { name
        position := s.entryPosition
        first := s.reference first
        thru := thru.map fun last => ⟨last, ⟨s.line, referenceColumn + 20⟩⟩ }

def condition (s : Script) (name : String) : Script :=
  s.onNextLine fun s => .conditionEntry { name, position := s.entryPosition, values := [] }

def procedureDivision (s : Script) (parameters : List String) (returning : Option String) : Script :=
  s.onNextLine fun s =>
    .startProcedureDivision
      { position := s.entryPosition
        parameters := parameters.map fun name => { target := s.reference name }
        returning := returning.map s.reference }

def procedureDivisionWith (s : Script) (parameters : List CallParameter) : Script :=
  s.onNextLine fun s => .startProcedureDivision { position := s.entryPosition, parameters }

def endProcedureDivision (s : Script) : Script := s.push .endProcedureDivision

/-- A procedure is declared; the script gives the header its name and position. -/
def declare (s : Script) (name : String) (header : DeclaredProcedure) : Script :=
  s.onNextLine fun s => .startProcedure { header with name, position := s.entryPosition }

def endDeclare (s : Script) : Script := s.push .endProcedure

def procedureSection (s : Script) (name : String) : Script :=
  s.onNextLine fun s => .startSection ⟨name, s.entryPosition⟩

def endProcedureSection (s : Script) : Script := s.push .endSection

def paragraph (s : Script) (name : String) : Script := s.onNextLine fun s => .startParagraph ⟨name, s.entryPosition⟩

def endParagraph (s : Script) : Script := s.push .endParagraph

def statement (s : Script) (kind : StatementKind) : Script := s.onNextLine fun s => .statement ⟨kind, s.entryPosition⟩

/-- Build the unit as file 0 of a new session. -/
def build (s : Script) (options : Options) : CompiledUnit × Session := (Session.start options).compile 0 s.events

end Script

end CobolSymbols
