import CobolSymbols.Table.Basic

/-!
# Finding names from inside a program

Names are looked for from a symbol outwards along its owners. An owner is made before what it owns, so the chain of
owners is no longer than the table. Types of an enclosing program are seen from inside only when they are marked
visible; data items of an enclosing scope only when they are global.
-/

set_option autoImplicit false

namespace CobolSymbols.Table

/-- A symbol, its owner, the owner's owner and so on, at most `steps` of them. -/
def chainFrom (t : Table) : (steps : Nat) → Option SymbolId → List SymbolId
  | 0, _ => []
  | _, none => []
  | steps + 1, some id => id :: t.chainFrom steps (t.get id).owner

def chain (t : Table) (id : SymbolId) : List SymbolId := t.chainFrom t.size (some id)

def owners (t : Table) (id : SymbolId) : List SymbolId := t.chainFrom t.size (t.get id).owner

def enclosingScope (t : Table) (id : SymbolId) : Option SymbolId := (t.owners id).find? fun o => (t.get o).isScope

def isNested (t : Table) (id : SymbolId) : Bool :=
  match (t.get id).owner with
  | some owner => (t.get owner).kind == .program
  | none => false

def topLevelItem (t : Table) (id : SymbolId) : SymbolId :=
  ((t.owners id).takeWhile fun o => (t.get o).item?.isSome).getLast?.getD id

/-- The types of a name that one symbol declares; types of a program that has been left have to be visible. -/
def typesIn (t : Table) (name : String) (left : Bool) (id : SymbolId) : List SymbolId :=
  match (t.get id).body with
  | .program data | .procedure data =>
    (data.scopes.types.lookup name).filter fun type => !left || (t.get type).flags.meets SymbolFlags.visibility
  | .root scopes | .namespaceBody scopes => scopes.types.lookup name
  | _ => []

/-- The types of a name in the first of the symbols that has one. -/
def resolveTypeIn (t : Table) (name : String) (left : Bool) : List SymbolId → List SymbolId
  | [] => []
  | id :: outer =>
    match t.typesIn name left id with
    | [] => t.resolveTypeIn name (left || (t.get id).kind == .program) outer
    | found => found

def resolveType (t : Table) (scope : SymbolId) (name : String) : List SymbolId :=
  t.resolveTypeIn name false (t.chain scope)

/-- The flags of items that are seen from nested programs. -/
def globalFlags : SymbolFlags := .ofList [.global, .globalStorage]

/-- The items of a name in the first of the symbols that has one; beyond the first program they have to be global. -/
def resolveItemIn (t : Table) (name : String) (outside : Bool) : List SymbolId → List SymbolId
  | [] => []
  | id :: outer =>
    match (t.get id).program? with
    | none => t.resolveItemIn name outside outer
    | some data =>
      match (data.domain.lookup name).filter fun item => !outside || (t.get item).flags.meets globalFlags with
      | [] => t.resolveItemIn name true outer
      | found => found

def resolveItem (t : Table) (scope : SymbolId) (name : String) : List SymbolId :=
  t.resolveItemIn name false (t.chain scope)

end CobolSymbols.Table
