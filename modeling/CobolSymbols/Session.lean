import CobolSymbols.Build.Step
import CobolSymbols.Table.Removal

/-!
# Sessions

A session builds units one after the other into one symbol table. Building a file again first detaches the programs
that it gave before.
-/

set_option autoImplicit false

namespace CobolSymbols

structure CompiledUnit where
  file : FileId
  tree : Tree
  /-- The programs that lie in no other one, in declaration order. -/
  programs : List SymbolId
  diagnostics : List Diagnostic

/-- Build one unit in a context; the context comes back without the unit's diagnostics. -/
def Context.compile (c : Context) (file : FileId) (events : List Event) : CompiledUnit × Context :=
  let b := ((Build.start { c with file }).steps events).close
  let context := b.declarations.context
  (⟨file, b.unit.tree, b.unit.programs, context.diagnostics⟩, { context with diagnostics := [] })

structure Session where
  context : Context
  options : Options
  units : List (FileId × List SymbolId) := []

namespace Session

def start (options : Options) : Session := { context := { options := options.checks }, options }

def table (s : Session) : Table := s.context.table

def compile (s : Session) (file : FileId) (events : List Event) : CompiledUnit × Session :=
  let (built, context) := s.context.compile file events
  (built, { s with context, units := (file, built.programs) :: s.units.filter (·.1 != file) })

def detach (s : Session) (file : FileId) : Session :=
  let programs := (List.lookup file s.units).getD []
  let context := s.context.mapTable fun t => programs.foldl (fun t program => (t.removeProgram program).2) t
  { s with context, units := s.units.filter (·.1 != file) }

/-- Detach the programs that a file gave, then build it again. -/
def recompile (s : Session) (file : FileId) (events : List Event) : CompiledUnit × Session :=
  (s.detach file).compile file events

end Session

end CobolSymbols
