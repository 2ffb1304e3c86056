import CobolSymbols.Slot.Table
import CobolSymbols.Symbol.Basic

/-!
# Symbol tables

A table holds every symbol ever made, numbered in order of making. It starts with a root, a variable that stands for
no storage, and the built-in types. Programs and types can be found by name, and every variable that takes storage has
a slot among all variables, which is reused once the variable is removed.
-/

set_option autoImplicit false

namespace CobolSymbols

structure Table where
  symbols : Array Symbol := #[]
  programs : Domain SymbolId := {}
  types : Domain SymbolId := {}
  slots : SlotTable SymbolId := {}

namespace Table

def size (t : Table) : Nat := t.symbols.size

def get (t : Table) (id : SymbolId) : Symbol := t.symbols[id]?.getD default

def name (t : Table) (id : SymbolId) : String := (t.get id).name

def modify (t : Table) (id : SymbolId) (f : Symbol → Symbol) : Table := { t with symbols := t.symbols.modify id f }

/-- Add a symbol, which gets the next number. -/
def alloc (t : Table) (s : Symbol) : SymbolId × Table := (t.symbols.size, { t with symbols := t.symbols.push s })

def scope? (t : Table) : ScopeRef → Option (Scope SymbolId)
  | .slot owner slot => (t.get owner).scope? slot
  | .fields owner => (t.get owner).fields?

/-- Change the scope that a reference names, or nothing when there is no such scope. -/
def modifyScope (t : Table) (ref : ScopeRef) (f : Scope SymbolId → Scope SymbolId) : Table :=
  match ref with
  | .slot owner slot =>
    match (t.get owner).scope? slot with
    | some _ => t.modify owner (Symbol.mapScopes fun scopes => scopes.modify slot f)
    | none => t
  | .fields owner => t.modify owner fun s => { s with type := s.type.map (DataType.mapFields f) }

def enter (t : Table) (ref : ScopeRef) (id : SymbolId) : Table := t.modifyScope ref fun s => s.enter (t.name id) id

def addToDomain (t : Table) (program id : SymbolId) : Table :=
  t.modify program (Symbol.mapProgram fun data => { data with domain := data.domain.enter (t.name id) id })

def registerProgram (t : Table) (id : SymbolId) : Table := { t with programs := t.programs.enter (t.name id) id }

def registerType (t : Table) (id : SymbolId) : Table := { t with types := t.types.enter (t.name id) id }

def addVariable (t : Table) (id : SymbolId) : Nat × Table :=
  let (index, slots) := t.slots.insert id
  (index, { t with slots }.modify id (Symbol.mapItem fun data => { data with variableSlot := some index }))

def removeVariable (t : Table) (id : SymbolId) : Table :=
  match (t.get id).item?.bind (·.variableSlot) with
  | none => t
  | some index =>
    { t with slots := (t.slots.remove index).2 }.modify id
      (Symbol.mapItem fun data => { data with variableSlot := none })

def rootId : SymbolId := 0

/-- The number of the variable that stands for no storage. -/
def bottomId : SymbolId := 1

def builtinTypes : List (String × UsageFormat) :=
  [("Omitted", none), ("Alphabetic", some .display), ("Numeric", some .display), ("NumericEdited", some .display),
    ("Alphanumeric", some .display), ("AlphanumericEdited", some .display), ("DBCS", some .display1),
    ("FloatingPoint", some .comp1)]

def addBuiltin (t : Table) (name : String) (usage : UsageFormat) : Table :=
  let (id, t) := t.alloc
    { name
      flags := .ofList [.builtinType, .exported, .weakType]
      owner := some rootId
      type := some (.usage usage)
      position := .synthetic
      body := .item { level := 1, kind := .typeDefinition .weak [] } }
  (t.enter (.slot rootId .types) id).registerType id

/-- The table of a session in which nothing has been built. -/
def initial : Table :=
  let root : Symbol := { name := "<<Root>>", position := .synthetic, body := .root {} }
  let bottom : Symbol :=
    { name := "<<BottomVariable>>"
      owner := some rootId
      position := .synthetic
      body := .item { level := 1, kind := .plain } }
  let (_, started) := ({ symbols := #[root, bottom] } : Table).addVariable bottomId
  builtinTypes.foldl (fun t (name, usage) => t.addBuiltin name usage) started

def lookupProgram (t : Table) (name : String) : List SymbolId := t.programs.lookup name

def lookupType (t : Table) (name : String) : List SymbolId := t.types.lookup name

def fields (t : Table) (id : SymbolId) : List SymbolId := (t.get id).fieldList

end Table

end CobolSymbols
