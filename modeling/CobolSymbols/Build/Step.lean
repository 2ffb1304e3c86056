import CobolSymbols.Build.Basic
import CobolSymbols.Build.Declarations.Procedure
import CobolSymbols.Build.Declarations.Program

/-!
# Building a unit

A unit is built event by event. Each event adds nodes under the current node of the tree or closes open nodes, and
makes the symbols that become known by it. A program that ends without being open leaves everything as it is, except
for its marker or the flag that the marker is missing.
-/

set_option autoImplicit false

namespace CobolSymbols

structure BuiltUnit where
  tree : Tree
  programs : List SymbolId

namespace Build

def mapDeclarations (b : Build) (f : Declarations → Declarations) : Build :=
  { b with declarations := f b.declarations }

def setStorage (b : Build) (storage : Option StorageSection) : Build := { b with storage }

def declareCurrent (b : Build) (declare : Declarations → Option SymbolId × Declarations) : Build :=
  let (id, declarations) := declare b.declarations
  (b.mapDeclarations fun _ => declarations).bindCurrent (id.map .symbol)

def startProgram (b : Build) (header : ProgramHeader) : Build :=
  (((b.closeDefinitions none).pushFrame ∅).enter (.program header)).declareCurrent fun d =>
    let (id, d) := d.startProgram header
    (some id, d)

/-- Add the marker of the program that ends, or mark that it is missing. -/
def addMarker (b : Build) : Option ProgramEnd → Build
  | some marker => b.leaf (.programEnd marker)
  | none => b.markCurrent .missingEnd

def closeProgram (b : Build) : Build :=
  if b.path.atRoot then b else (b.exit.mapDeclarations Declarations.endProgram).popFrame

def endProgram (b : Build) (marker : Option ProgramEnd) : Build :=
  let b := b.closeDefinitions none
  ((exitToProgram b.path.above.length b).addMarker marker).closeProgram

/-- Let the current node mean the scope that its section opens. -/
def bindStorage (b : Build) (storage : StorageSection) : Build :=
  b.bindCurrent (b.declarations.currentScope.map fun scope => .scope scope storage.slot)

def startStorage (b : Build) (storage : StorageSection) (header : StorageHeader) : Build :=
  let b := ((b.closeDefinitions none).setStorage (some storage)).enter (.storage storage header)
  (b.bindStorage storage).mapDeclarations fun d => { d with storage := some storage }

def isStorage (wanted : StorageSection) : NodeKind → Bool
  | .storage storage _ => storage == wanted
  | _ => false

def endStorage (b : Build) (storage : StorageSection) : Build :=
  ((b.exitThrough (isStorage storage)).2.mapDeclarations fun d => { d with storage := none }).setStorage none

/-- Open the body of the type definition that is current, unless it lies in the body of another one. -/
def openType (b : Build) : Build := if b.typeNode.isNone then { b with typeNode := some b.current.id } else b

/-- A type definition is read; the outermost one is the type whose body is open. -/
def typedefEntry (b : Build) (entry : DataEntry) : Build :=
  (b.enterDefinition entry.level (.typeDefinition entry)).openType.addIndexes entry

def dataEntry (b : Build) (entry : DataEntry) : Build :=
  if entry.isTypeDefinition then b.typedefEntry entry
  else (b.enterDefinition entry.level (.data entry)).addIndexes entry

def startProcedureDivision (b : Build) (header : ProcedureHeader) : Build :=
  (((b.closeDefinitions none).setStorage none).mapDeclarations (·.startProcedureDivision header)).enter
    (.procedureDivision header)

/-- Mark the nearest open program above the current node as one that declares a procedure. -/
def markProgram (b : Build) : Build :=
  { b with path := b.path.mapFirstAbove (·.kind.isProgram) fun n => n.mark .containsProcedure }

def addParameter (b : Build) (parameter : Option Direction × DataEntry) : Build :=
  { b with
    path := b.path.leaf ((b.newNode (.parameter parameter.2 parameter.1)).mark .linkage)
    nodeCount := b.nodeCount + 1 }

def addParameters (b : Build) (parameters : List (Option Direction × DataEntry)) : Build :=
  parameters.foldl addParameter b

/-- Make the symbols of the procedure whose node is current and of its parameters, which are the children of the
node. -/
def declareProcedure (b : Build) (header : DeclaredProcedure) : Build :=
  let (id, parameters, declarations) := b.declarations.startProcedure header b.path.current.children
  { b with path := b.path.setChildren parameters, declarations }.bindCurrent (id.map .symbol)

def startProcedure (b : Build) (header : DeclaredProcedure) : Build :=
  let b := (b.closeDefinitions none).markProgram.pushFrame (.single .insideProcedure)
  ((b.enter (.procedure header)).addParameters header.parameters).declareProcedure header

def isProcedure : NodeKind → Bool
  | .procedure _ => true
  | _ => false

def endProcedure (b : Build) : Build :=
  match b.exitThrough isProcedure with
  | (true, b) => (b.mapDeclarations Declarations.endProcedure).popFrame
  | (false, b) => b

def startSection (b : Build) (heading : SectionHeading) : Build :=
  (b.enter (.heading heading)).declareCurrent (·.startHeading heading)

def isHeading : NodeKind → Bool
  | .heading _ => true
  | _ => false

def endSection (b : Build) : Build :=
  (b.exitThrough isHeading).2.mapDeclarations fun d => { d with heading := none }

def startParagraph (b : Build) (heading : ParagraphHeading) : Build :=
  (b.enter (.paragraph heading)).declareCurrent (·.startParagraph heading)

def isDataDivision : NodeKind → Bool
  | .dataDivision _ => true
  | _ => false

def isFile : NodeKind → Bool
  | .file _ => true
  | _ => false

def isProcedureDivision : NodeKind → Bool
  | .procedureDivision _ => true
  | _ => false

def isDeclaratives : NodeKind → Bool
  | .declaratives _ => true
  | _ => false

def isParagraph : NodeKind → Bool
  | .paragraph _ => true
  | _ => false

def step (b : Build) : Event → Build
  | .startProgram header => b.startProgram header
  | .endProgram marker => b.endProgram marker
  | .startDataDivision position => b.enter (.dataDivision position)
  | .endDataDivision => (b.exitThrough isDataDivision).2
  | .startStorage storage header => b.startStorage storage header
  | .endStorage storage => b.endStorage storage
  | .startFile entry => (b.closeDefinitions none).enter (.file entry)
  | .endFile => (b.exitThrough isFile).2
  | .dataEntry entry => b.dataEntry entry
  | .redefinesEntry entry => (b.enterDefinition entry.entry.level (.redefines entry)).addIndexes entry.entry
  | .renamesEntry entry => b.enterDefinition renamesLevel (.renames entry)
  | .conditionEntry entry => b.enterDefinition conditionLevel (.condition entry)
  | .typedefEntry entry => b.typedefEntry entry
  | .startProcedureDivision header => b.startProcedureDivision header
  | .endProcedureDivision => (b.exitThrough isProcedureDivision).2
  | .startDeclaratives position => b.enter (.declaratives position)
  | .endDeclaratives => (b.exitThrough isDeclaratives).2
  | .startProcedure header => b.startProcedure header
  | .endProcedure => b.endProcedure
  | .startSection heading => b.startSection heading
  | .endSection => b.endSection
  | .startParagraph heading => b.startParagraph heading
  | .endParagraph => (b.exitThrough isParagraph).2
  | .statement body => b.leaf (.statement body)

def steps (b : Build) (events : List Event) : Build := events.foldl step b

def close (b : Build) : Build := b.closeDefinitions none

def unit (b : Build) : BuiltUnit := ⟨b.path.toTree, b.declarations.programs⟩

end Build

end CobolSymbols
