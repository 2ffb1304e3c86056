import CobolSymbols.Table.Basic

/-!
# Removing programs

Removing a program detaches everything it holds: programs and types are no longer found by name, variables lose their
slots, and every symbol is marked as removed. What a symbol holds was made after it, so holding is no deeper than the
table.
-/

set_option autoImplicit false

namespace CobolSymbols.Table

/-- What a symbol holds directly: the members of a program, the fields of a group. -/
def held (t : Table) (id : SymbolId) : List SymbolId :=
  (((t.get id).program?.map ProgramData.members).getD []) ++ t.fields id

/-- A symbol with everything it holds, what was entered last first, to a depth of `steps`. -/
def ownedWithin (t : Table) : (steps : Nat) → SymbolId → List SymbolId
  | 0, _ => []
  | steps + 1, id => id :: (t.held id).reverse.flatMap (t.ownedWithin steps)

def owned (t : Table) (id : SymbolId) : List SymbolId := t.ownedWithin t.size id

def detach (t : Table) (id : SymbolId) : Table :=
  let name := t.name id
  let unlisted : Table :=
    match (t.get id).kind with
    | .program | .procedure | .namespaceKind => { t with programs := (t.programs.delete? name id).getD t.programs }
    | .typeDefinition => { t with types := (t.types.delete? name id).getD t.types }
    | _ => t
  (unlisted.removeVariable id).modify id (Symbol.addFlags (.single .removed))

/-- Remove a program that has not been removed; the result tells how many symbols were detached. -/
def removeProgram (t : Table) (id : SymbolId) : Nat × Table :=
  if (t.get id).isRemoved then (0, t)
  else
    let unlisted :=
      match (t.get id).owner with
      | some owner => t.modifyScope (.slot owner .programs) fun s => (s.delete? (t.name id) id).getD s
      | none => t
    let owned := unlisted.owned id
    (owned.length, owned.foldl detach unlisted)

end CobolSymbols.Table
