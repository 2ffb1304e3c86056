import CobolSymbols.Diagnostic.Basic
import CobolSymbols.Options.Basic
import CobolSymbols.Table.Basic

/-!
# The context of a build

What the units of a session share: the symbol table and the options. Diagnostics are kept until the unit that they
belong to is complete.
-/

set_option autoImplicit false

namespace CobolSymbols

/-- The symbol table, the diagnostics of the current unit, and the options. -/
structure Context where
  table : Table := .initial
  diagnostics : List Diagnostic := []
  options : CheckOptions := {}
  file : FileId := 0

namespace Context

def push (c : Context) (problem : Problem) (severity : Severity) (position : Position) : Context :=
  { c with diagnostics := c.diagnostics ++ [⟨problem, severity, ⟨c.file, position⟩⟩] }

def report (c : Context) (problem : Problem) (position : Position) : Context := c.push problem .error position

def reportAt (c : Context) (level : ReportLevel) (problem : Problem) (position : Position) : Context :=
  match level.severity? with
  | some severity => c.push problem severity position
  | none => c

def mapTable (c : Context) (f : Table → Table) : Context := { c with table := f c.table }

def modify (c : Context) (id : SymbolId) (f : Symbol → Symbol) : Context := c.mapTable fun t => t.modify id f

end Context

end CobolSymbols
