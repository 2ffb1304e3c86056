import CobolSymbols.Entry.Procedure
import CobolSymbols.Storage

/-!
# Events of a compilation unit

A unit is read as a flat sequence of events, one for each header, entry, statement or end of a division. Data entries
have a start only: their level numbers tell where they end.
-/

set_option autoImplicit false

namespace CobolSymbols

structure ProgramHeader where
  name : String
  position : Position
  isCommon : Bool := false
  isInitial : Bool := false
deriving DecidableEq, Repr

structure ProgramEnd where
  name : Option String := none
  position : Position
deriving DecidableEq, Repr

structure StorageHeader where
  position : Position := {}
deriving DecidableEq, Repr, Inhabited

inductive Event where
  | startProgram (header : ProgramHeader)
  /-- A program ends, with its END PROGRAM marker if it has one. -/
  | endProgram (marker : Option ProgramEnd)
  | startDataDivision (position : Position)
  | endDataDivision
  | startStorage (storage : StorageSection) (header : StorageHeader)
  | endStorage (storage : StorageSection)
  | startFile (entry : FileEntry)
  | endFile
  | dataEntry (entry : DataEntry)
  | redefinesEntry (entry : RedefinesEntry)
  | renamesEntry (entry : RenamesEntry)
  | conditionEntry (entry : ConditionEntry)
  | typedefEntry (entry : DataEntry)
  | startProcedureDivision (header : ProcedureHeader)
  | endProcedureDivision
  | startDeclaratives (position : Position)
  | endDeclaratives
  | startProcedure (header : DeclaredProcedure)
  | endProcedure
  | startSection (heading : SectionHeading)
  | endSection
  | startParagraph (heading : ParagraphHeading)
  | endParagraph
  | statement (body : Statement)
deriving DecidableEq, Repr

end CobolSymbols
