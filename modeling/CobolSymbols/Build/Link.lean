import CobolSymbols.Build.Context
import CobolSymbols.Table.Lookup

/-!
# Linking of types

When the outermost program of a unit ends, its TYPE references are bound. The first time a scope uses a type, the typed
items of the type's body are linked into the scope too, depth first. The types that are open on the way are kept as a
path: a reference back to one of them closes a cycle, is reported once, and stays unbound. A path never meets a type
twice, so it is no longer than the table.

After that the objects of DEPENDING ON phrases are found: inside a type among its items and those of the types they
refer to, elsewhere by name from the scope of the table.
-/

set_option autoImplicit false

namespace CobolSymbols

structure Linker where
  context : Context
  /-- What the references of typed items were found to mean, failures included. -/
  resolved : List (SymbolId × Option SymbolId) := []
  cyclic : List SymbolId := []

def listReference (type item : SymbolId) : List (SymbolId × List SymbolId) → List (SymbolId × List SymbolId)
  | [] => [(type, [item])]
  | (key, items) :: rest =>
    if key = type then (key, if items.contains item then items else items ++ [item]) :: rest
    else (key, items) :: listReference type item rest

namespace Linker

def table (l : Linker) : Table := l.context.table

/-- The type that the reference of an item means; failures are reported. -/
def resolve (l : Linker) (item : SymbolId) : Option SymbolId × Linker :=
  let t := l.table
  match (t.get item).reference?, t.enclosingScope item with
  | some reference, some scope =>
    match t.resolveType scope reference.name with
    | [type] => (some type, l)
    | [] => (none, { l with context := l.context.report (.unresolvedType reference.name) reference.position })
    | candidates =>
      (none, { l with
        context := l.context.report (.ambiguousType reference.name candidates.length) reference.position })
  | _, _ => (none, l)

/-- The type that the reference of an item of a type's body means; it is looked up and reported once. -/
def resolveOnce (l : Linker) (item : SymbolId) : Option SymbolId × Linker :=
  match List.lookup item l.resolved with
  | some found => (found, l)
  | none =>
    let (found, l) := l.resolve item
    (found, { l with resolved := (item, found) :: l.resolved })

/-- Bind the reference of an item to a type; the item takes over the restriction flags of the type. -/
def bind (l : Linker) (item type : SymbolId) : Linker :=
  let restriction := (l.table.get type).flags ∩ SymbolFlags.restrictions
  { l with
    context := l.context.modify item fun s =>
      { s with type := s.type.map (DataType.bindReference type), flags := s.flags ∪ restriction } }

/-- List an item under a type in a scope; the result tells whether it is the first there. A symbol that keeps no
references counts as using every type for the first time. -/
def record (l : Linker) (scope type item : SymbolId) : Bool × Linker :=
  match (l.table.get scope).program? with
  | none => (true, l)
  | some data =>
    let first := ((List.lookup type data.references).getD []).isEmpty
    (first, { l with
      context := l.context.modify scope (Symbol.mapProgram fun data =>
        { data with references := listReference type item data.references }) })

def referencePosition (t : Table) (item : SymbolId) : Position :=
  let s := t.get item
  (s.reference?.map (·.position)).getD s.position

/-- Report that an item's reference to a type closes a cycle of the path. -/
def reportCycle (l : Linker) (path : List SymbolId) (item target : SymbolId) : Linker :=
  let cycle := path.dropWhile (· != target) ++ [target]
  { l with
    cyclic := item :: l.cyclic
    context := l.context.report (.circularType (cycle.map l.table.name)) (referencePosition l.table item) }

/-- Bind the reference of an item to a type and list it in a scope; on first use there the body of the type is linked
too, which `linkTarget` does. -/
def use (l : Linker) (scope item type : SymbolId) (linkTarget : SymbolId → Linker → Linker) : Linker :=
  match (l.bind item type).record scope type item with
  | (true, l) => linkTarget type l
  | (false, l) => l

/-- Link a typed item of a type's body into a scope; `path` holds the open types, outermost first. -/
def linkListed (l : Linker) (scope : SymbolId) (path : List SymbolId) (linkTarget : SymbolId → Linker → Linker)
    (item : SymbolId) : Linker :=
  if l.cyclic.contains item then l
  else
    match l.resolveOnce item with
    | (none, l) => l
    | (some target, l) =>
      if path.contains target then l.reportCycle path item target else l.use scope item target linkTarget

/-- Link the typed items of a type's body into a scope; `path` holds the types open above it, outermost first. -/
def linkBody (scope : SymbolId) : (steps : Nat) → SymbolId → List SymbolId → Linker → Linker
  | 0, _, _, l => l
  | steps + 1, type, path, l =>
    (l.table.get type).typedItems.foldl (fun l item =>
      l.linkListed scope (path ++ [type]) (fun target l => linkBody scope steps target (path ++ [type]) l) item) l

def linkType (l : Linker) (scope type : SymbolId) : Linker := linkBody scope (l.table.size + 1) type [] l

/-- Bind the reference of an item outside of types, and link the body of its type on first use. -/
def linkItem (l : Linker) (item : SymbolId) : Linker :=
  match l.resolve item with
  | (none, l) => l
  | (some type, l) =>
    match l.table.enclosingScope item with
    | none => l.bind item type
    | some scope => l.use scope item type fun type l => l.linkType scope type

def pendingObject? (t : Table) (item : SymbolId) : Option DependingOn :=
  ((t.get item).type.bind DataType.dependingOn?).filter (·.target.isNone)

def setDependingOn (l : Linker) (item : SymbolId) (object : DependingOn) (found : Option SymbolId) : Linker :=
  match found with
  | some target =>
    { l with
      context := l.context.modify item fun s => { s with type := s.type.map (DataType.bindDependingOn target) } }
  | none =>
    let level := l.context.options.unresolvedDependingOn
    { l with
      context := l.context.reportAt level (.unresolvedDependingOn (l.table.name item) object.name) object.position }

def resolveDependingOn (l : Linker) (item : SymbolId) : Linker :=
  match pendingObject? l.table item with
  | none => l
  | some object =>
    let found := (l.table.enclosingScope item).bind fun scope => (l.table.resolveItem scope object.name).head?
    l.setDependingOn item object found

/-- The items subordinate to an item in declaration order, to a depth of `steps`. -/
def subordinatesWithin (t : Table) : (steps : Nat) → SymbolId → List SymbolId
  | 0, _ => []
  | steps + 1, id => (t.fields id).flatMap fun field => field :: subordinatesWithin t steps field

def subordinates (t : Table) (id : SymbolId) : List SymbolId := subordinatesWithin t t.size id

/-- Find the DEPENDING ON objects inside a type among its items and those of the types they refer to. -/
def resolveTypeDependingOn (l : Linker) (type : SymbolId) : Linker :=
  let t := l.table
  let own := subordinates t type
  let linked := own.filterMap fun item => (t.get item).reference?.bind (·.target)
  let candidates := own ++ linked.flatMap (subordinates t)
  (type :: own).foldl (fun l item =>
    match pendingObject? l.table item with
    | none => l
    | some object =>
      l.setDependingOn item object (candidates.find? fun candidate => l.table.name candidate == object.name)) l

def linkDependentType (l : Linker) (type : SymbolId) : Linker :=
  let l :=
    match l.table.enclosingScope type with
    | some scope => l.linkType scope type
    | none => l
  l.resolveTypeDependingOn type

/-- Link items outside of types, then types with DEPENDING ON objects, then the objects of other tables. -/
def linkUnit (l : Linker) (items types tables : List SymbolId) : Linker :=
  let l := items.foldl linkItem l
  let l := types.foldl linkDependentType l
  tables.foldl resolveDependingOn l

end Linker

end CobolSymbols
