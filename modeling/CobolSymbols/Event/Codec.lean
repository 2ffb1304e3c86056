import CobolSymbols.Entry.Codec
import CobolSymbols.Event
import CobolSymbols.Json.Reader

/-!
# Events in JSON, and recorded traces of them

An event that carries a value is written as an object with one member, named for the event; an event that carries
nothing is written as its name. A trace is the text of a JSON array of events. `Event.ofJson?` reads back what
`Event.toJson` writes.
-/

set_option autoImplicit false

namespace CobolSymbols

open Json

namespace ProgramHeader

def toJson (h : ProgramHeader) : Json :=
  .object [("name", .string h.name), ("position", h.position.toJson), ("is_common", .bool h.isCommon),
    ("is_initial", .bool h.isInitial)]

def ofJson? (j : Json) : Option ProgramHeader := do
  let r ← record? ["name", "position", "is_common", "is_initial"] j
  let name ← r.required "name" text?
  let position ← r.required "position" Position.ofJson?
  let isCommon ← r.withDefault "is_common" false bool?
  let isInitial ← r.withDefault "is_initial" false bool?
  return { name, position, isCommon, isInitial }

end ProgramHeader

namespace ProgramEnd

def toJson (e : ProgramEnd) : Json := .object [("name", ofOption .string e.name), ("position", e.position.toJson)]

def ofJson? (j : Json) : Option ProgramEnd := do
  let r ← record? ["name", "position"] j
  let name ← r.optional "name" text?
  let position ← r.required "position" Position.ofJson?
  return { name, position }

end ProgramEnd

namespace StorageHeader

def toJson (h : StorageHeader) : Json := .object [("position", h.position.toJson)]

def ofJson? (j : Json) : Option StorageHeader := do
  let r ← record? ["position"] j
  let position ← r.required "position" Position.ofJson?
  return { position }

end StorageHeader

namespace Event

def toJson : Event → Json
  | .startProgram header => .object [("StartProgram", header.toJson)]
  | .endProgram marker => .object [("EndProgram", ofOption ProgramEnd.toJson marker)]
  | .startDataDivision position => .object [("StartDataDivision", position.toJson)]
  | .endDataDivision => .string "EndDataDivision"
  | .startStorage storage header => .object [("StartDataSection", .array [ofLabelled storage, header.toJson])]
  | .endStorage storage => .object [("EndDataSection", ofLabelled storage)]
  | .startFile entry => .object [("StartFileDescriptionEntry", entry.toJson)]
  | .endFile => .string "EndFileDescriptionEntry"
  | .dataEntry entry => .object [("StartDataDescriptionEntry", entry.toJson)]
  | .redefinesEntry entry => .object [("StartDataRedefinesEntry", entry.toJson)]
  | .renamesEntry entry => .object [("StartDataRenamesEntry", entry.toJson)]
  | .conditionEntry entry => .object [("StartDataConditionEntry", entry.toJson)]
  | .typedefEntry entry => .object [("StartTypedefEntry", entry.toJson)]
  | .startProcedureDivision header => .object [("StartProcedureDivision", header.toJson)]
  | .endProcedureDivision => .string "EndProcedureDivision"
  | .startDeclaratives position => .object [("StartDeclaratives", position.toJson)]
  | .endDeclaratives => .string "EndDeclaratives"
  | .startProcedure header => .object [("StartFunctionDeclaration", header.toJson)]
  | .endProcedure => .string "EndFunctionDeclaration"
  | .startSection heading => .object [("StartSection", heading.toJson)]
  | .endSection => .string "EndSection"
  | .startParagraph heading => .object [("StartParagraph", heading.toJson)]
  | .endParagraph => .string "EndParagraph"
  | .statement body => .object [("Statement", body.toJson)]

def bare? : String → Option Event
  | "EndDataDivision" => some .endDataDivision
  | "EndFileDescriptionEntry" => some .endFile
  | "EndProcedureDivision" => some .endProcedureDivision
  | "EndDeclaratives" => some .endDeclaratives
  | "EndFunctionDeclaration" => some .endProcedure
  | "EndSection" => some .endSection
  | "EndParagraph" => some .endParagraph
  | _ => none

/-- The event that has the name and carries what the value writes. -/
def carrying? (name : String) (value : Json) : Option Event :=
  match name with
  | "StartProgram" => (ProgramHeader.ofJson? value).map .startProgram
  | "EndProgram" => (Record.nullable ProgramEnd.ofJson? value).map .endProgram
  | "StartDataDivision" => (Position.ofJson? value).map .startDataDivision
  | "StartDataSection" =>
    match value with
    | .array [storage, header] => do
      let storage ← labelled? storage
      let header ← StorageHeader.ofJson? header
      return .startStorage storage header
    | _ => none
  | "EndDataSection" => (labelled? value).map .endStorage
  | "StartFileDescriptionEntry" => (FileEntry.ofJson? value).map .startFile
  | "StartDataDescriptionEntry" => (DataEntry.ofJson? value).map .dataEntry
  | "StartDataRedefinesEntry" => (RedefinesEntry.ofJson? value).map .redefinesEntry
  | "StartDataRenamesEntry" => (RenamesEntry.ofJson? value).map .renamesEntry
  | "StartDataConditionEntry" => (ConditionEntry.ofJson? value).map .conditionEntry
  | "StartTypedefEntry" => (DataEntry.ofJson? value).map .typedefEntry
  | "StartProcedureDivision" => (ProcedureHeader.ofJson? value).map .startProcedureDivision
  | "StartDeclaratives" => (Position.ofJson? value).map .startDeclaratives
  | "StartFunctionDeclaration" => (DeclaredProcedure.ofJson? value).map .startProcedure
  | "StartSection" => (SectionHeading.ofJson? value).map .startSection
  | "StartParagraph" => (ParagraphHeading.ofJson? value).map .startParagraph
  | "Statement" => (Statement.ofJson? value).map .statement
  | _ =>
    match value with
    | .null => bare? name
    | _ => none

def ofJson? (j : Json) : Option Event :=
  match variant? j with
  | some (name, none) => bare? name
  | some (name, some value) => carrying? name value
  | none => none

end Event

inductive TraceError where
  | unreadable
  | malformed
deriving DecidableEq, Repr

def TraceError.message : TraceError → String
  | .unreadable => "Failed to read event trace"
  | .malformed => "Failed to parse event trace"

/-- The events recorded in a trace, given its text if there is one. -/
def readTrace (contents : Option String) : Except TraceError (List Event) :=
  match contents with
  | none => .error .unreadable
  | some text =>
    match (Json.parse? text).bind (list? Event.ofJson?) with
    | some events => .ok events
    | none => .error .malformed

def traceJson (events : List Event) : Json := ofList Event.toJson events

end CobolSymbols
