import CobolSymbols.Build.Context

/-!
# Declarations of a unit

Symbols are made while a unit is read: for programs, procedures, sections and paragraphs when they start, for data when
a definition that lies in no other one is complete.

What has to wait is queued: level-66 entries until their record is complete, references to types and DEPENDING ON
objects until the outermost program ends.
-/

set_option autoImplicit false

namespace CobolSymbols

structure Declarations where
  context : Context
  /-- The programs of the unit that lie in no other one, refused ones included, oldest first. -/
  programs : List SymbolId := []
  openPrograms : List SymbolId := []
  scopes : List SymbolId := []
  storage : Option StorageSection := none
  heading : Option SymbolId := none
  /-- The level-66 items of the record being made, oldest first. -/
  pendingRenames : List (SymbolId × RenamesEntry) := []
  /-- The items outside of types that refer to a type, oldest first. -/
  typedItems : List SymbolId := []
  /-- The types that hold a table with a DEPENDING ON object, oldest first. -/
  dependentTypes : List SymbolId := []
  /-- The tables outside of types that have a DEPENDING ON object, oldest first. -/
  dependentTables : List SymbolId := []

namespace Declarations

def table (d : Declarations) : Table := d.context.table

def mapTable (d : Declarations) (f : Table → Table) : Declarations := { d with context := d.context.mapTable f }

def modify (d : Declarations) (id : SymbolId) (f : Symbol → Symbol) : Declarations :=
  d.mapTable fun t => t.modify id f

def alloc (d : Declarations) (s : Symbol) : SymbolId × Declarations :=
  let (id, table) := d.table.alloc s
  (id, d.mapTable fun _ => table)

def addFlags (d : Declarations) (id : SymbolId) (flags : SymbolFlags) : Declarations :=
  d.modify id (Symbol.addFlags flags)

def enterIn (d : Declarations) (id : SymbolId) : Option ScopeRef → Declarations
  | some parent => d.mapTable fun t => t.enter parent id
  | none => d

def registerProgram (d : Declarations) (id : SymbolId) : Declarations := d.mapTable fun t => t.registerProgram id

def registerType (d : Declarations) (id : SymbolId) : Declarations := d.mapTable fun t => t.registerType id

def report (d : Declarations) (problem : Problem) (position : Position) : Declarations :=
  { d with context := d.context.report problem position }

def currentScope (d : Declarations) : Option SymbolId := d.scopes.head?

end Declarations

end CobolSymbols
