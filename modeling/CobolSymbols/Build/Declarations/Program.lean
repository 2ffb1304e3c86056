import CobolSymbols.Build.Declarations.Basic
import CobolSymbols.Build.Link
import CobolSymbols.Event

/-!
# Programs

A program may be nested in another. Names are unique among the programs of one nesting level: a program whose name is
taken gets a symbol, but it is entered nowhere. The end of the outermost program links the unit.
-/

set_option autoImplicit false

namespace CobolSymbols.Declarations

def programSymbol (header : ProgramHeader) (owner : SymbolId) (place : SymbolFlag) : Symbol :=
  { name := header.name
    flags := .single place
    owner := some owner
    type := some (.signature {})
    position := header.position
    body := .program {} }

def addDuplicate (d : Declarations) (parent id : SymbolId) : Declarations :=
  d.modify parent (Symbol.mapProgram fun data => { data with duplicates := data.duplicates ++ [id] })

/-- Make the symbol of a program inside another; a name that is taken there is refused. -/
def declareNested (d : Declarations) (parent : SymbolId) (header : ProgramHeader) : SymbolId × Bool × Declarations :=
  let (id, d) := d.alloc (programSymbol header parent .nestedProgram)
  let siblings := ScopeRef.slot parent .programs
  if (d.table.scope? siblings).any fun scope => !(scope.lookup header.name).isEmpty then
    (id, true, d.addDuplicate parent id)
  else (id, false, (d.enterIn id (some siblings)).registerProgram id)

/-- Make the symbol of a program that lies in no other one; a name that the unit has used is refused. -/
def declareTopLevel (d : Declarations) (header : ProgramHeader) : SymbolId × Bool × Declarations :=
  let place : SymbolFlag := if d.programs.isEmpty then .mainProgram else .stackedProgram
  let taken := d.programs.any fun program => d.table.name program == header.name
  let (id, d) := d.alloc (programSymbol header Table.rootId place)
  let d := { d with programs := d.programs ++ [id] }
  if taken then (id, true, d)
  else (id, false, (d.enterIn id (some (.slot Table.rootId .programs))).registerProgram id)

/-- Make a program that has its symbol the innermost one. -/
def openProgram (d : Declarations) (id : SymbolId) : Declarations :=
  { d with openPrograms := id :: d.openPrograms, scopes := id :: d.scopes, storage := none, heading := none }

def startProgram (d : Declarations) (header : ProgramHeader) : SymbolId × Declarations :=
  let (id, taken, d) :=
    match d.openPrograms.head? with
    | some parent => d.declareNested parent header
    | none => d.declareTopLevel header
  let d := if taken then d.report (.duplicateProgram header.name) header.position else d
  (id, d.openProgram id)

def leaveProgram (d : Declarations) : Declarations :=
  { d with
    openPrograms := d.openPrograms.tail
    scopes := (d.scopes.dropWhile fun scope => some scope != d.openPrograms.head?).tail
    storage := none
    heading := none
    pendingRenames := [] }

def link (d : Declarations) : Declarations :=
  let linked := ({ context := d.context } : Linker).linkUnit d.typedItems d.dependentTypes d.dependentTables
  { d with context := linked.context, typedItems := [], dependentTypes := [], dependentTables := [] }

/-- Close the innermost program and the procedures in it; closing the outermost one links the unit. -/
def endProgram (d : Declarations) : Declarations :=
  let d := d.leaveProgram
  if d.openPrograms.isEmpty then d.link else d

end CobolSymbols.Declarations
