import CobolSymbols.Build.Context

/-!
# REDEFINES clauses

An item may redefine the item before it: the last sibling that takes storage of its own, or one of the items that
redefine it already. Indexes, level-66 and level-88 items in between do not count. Only the sibling with storage of its
own is asked for its level.
-/

set_option autoImplicit false

namespace CobolSymbols

inductive RedefinesFault where
  | unresolved
  | ambiguous
  | notPreceding
deriving DecidableEq, Repr

def RedefinesFault.problem (name target : String) : RedefinesFault → Problem
  | .unresolved => .unresolvedRedefines name target
  | .ambiguous => .ambiguousRedefines name target
  | .notPreceding => .redefinesNotPreceding name target

namespace Table

/-- Whether a sibling is passed over in the search for a redefined item. -/
def isPassedOver (t : Table) (id : SymbolId) : Bool :=
  let s := t.get id
  s.kind == .index || s.kind == .renames || s.level? == some conditionLevel

def siblingsBackwards (t : Table) (scope : Scope SymbolId) : List SymbolId :=
  scope.order.reverse.filter fun id => !t.isPassedOver id

def isRedefining (t : Table) (id : SymbolId) : Bool := (t.get id).flags.has .redefines

/-- The item of a scope that a new item of the level redefines under the name. -/
def redefined (t : Table) (parent : ScopeRef) (level : Level) (name : String) : Except RedefinesFault SymbolId :=
  match t.scope? parent with
  | none => .error .unresolved
  | some scope =>
    match scope.lookup name with
    | [] => .error .unresolved
    | candidate :: others =>
      let siblings := t.siblingsBackwards scope
      let redefining := siblings.takeWhile t.isRedefining
      match ((siblings.dropWhile t.isRedefining).head?).filter (candidate :: others).contains with
      | some preceding => if (t.get preceding).level? = some level then .ok preceding else .error .notPreceding
      | none =>
        if !others.isEmpty then .error .ambiguous
        else if redefining.contains candidate then .ok candidate
        else .error .notPreceding

end Table

/-- The item that an entry redefines; a fault is reported where the item is named. -/
def Context.redefinesTarget (c : Context) (entry : RedefinesEntry) (parent : Option ScopeRef) :
    Option SymbolId × Context :=
  let name := entry.entry.displayName
  let target := entry.redefines
  match parent with
  | none => (none, c.report (.redefinesNotAllowed name) target.position)
  | some parent =>
    match c.table.redefined parent entry.entry.level target.name with
    | .ok id => (some id, c)
    | .error fault => (none, c.report (fault.problem name target.name) target.position)

end CobolSymbols
