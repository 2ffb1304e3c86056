import CobolSymbols.Build.Declarations.Data
import CobolSymbols.Tree.Path

/-!
# A unit under construction

New nodes are added under the current node of the tree. A data entry has no end of its own: an entry closes the open
definitions of its level or a deeper one, where levels 1 and 77 close all of them and a level-66 entry closes all but
the record. A definition that lies in no other one is made into symbols when it is closed.

An end with no matching open node closes every node up to the root.
-/

set_option autoImplicit false

namespace CobolSymbols

structure Frame where
  flags : NodeFlags
  storage : Option StorageSection
  typeNode : Option NodeId
deriving DecidableEq, Repr

structure Build where
  path : Path := .start { id := 0, kind := .sourceFile }
  nodeCount : Nat := 1
  declarations : Declarations
  typeNode : Option NodeId := none
  storage : Option StorageSection := none
  scopeFlags : NodeFlags := ∅
  /-- What is put aside for the enclosing programs and procedures, innermost first. -/
  frames : List Frame := []

namespace Build

def start (context : Context) : Build := { declarations := { context } }

def current (b : Build) : Node := b.path.current.node

def flags (b : Build) : NodeFlags :=
  (b.scopeFlags ∪ .ofList (b.storage.toList.map StorageSection.nodeFlag)).insertIf b.typeNode.isSome .insideType

def newNode (b : Build) (kind : NodeKind) : Node :=
  { id := b.nodeCount, kind, flags := b.flags, typeNode := b.typeNode }

def leaf (b : Build) (kind : NodeKind) : Build :=
  { b with path := b.path.leaf (b.newNode kind), nodeCount := b.nodeCount + 1 }

def enter (b : Build) (kind : NodeKind) : Build :=
  { b with path := b.path.enter (b.newNode kind), nodeCount := b.nodeCount + 1 }

def markCurrent (b : Build) (flag : NodeFlag) : Build := { b with path := b.path.mapCurrent fun n => n.mark flag }

def bindCurrent (b : Build) (meaning : Option Meaning) : Build :=
  match meaning with
  | some meaning => { b with path := b.path.mapCurrent fun n => { n with meaning := some meaning } }
  | none => b

/-- Close the current node; the root stays open. -/
def exit (b : Build) : Build := { b with path := b.path.close?.getD b.path }

/-- Close a definition. One that lies in no other definition is complete and is made into symbols. -/
def exitDefinition (b : Build) : Build :=
  match b.path.pop? with
  | none => b
  | some (tree, rest) =>
    let typeNode := if b.typeNode = some tree.node.id then none else b.typeNode
    if rest.current.node.isDefinition then { b with path := rest.attach tree, typeNode }
    else
      let (tree, declarations) := b.declarations.declareRecord tree
      { b with path := rest.attach tree, typeNode, declarations }

/-- Close open definitions from the innermost outwards, at most `steps`, as long as their level is the bound or a
deeper one; without a bound all of them are closed. -/
def closeWithin (bound : Option Level) : (steps : Nat) → Build → Build
  | 0, b => b
  | steps + 1, b =>
    match b.current.definition? with
    | none => b
    | some definition =>
      if bound.any (definition.level < ·) then b else closeWithin bound steps b.exitDefinition

def closeDefinitions (b : Build) (bound : Option Level) : Build := closeWithin bound b.path.above.length b

/-- Close nodes from the innermost outwards, at most `steps`, up to one that is wanted; the result tells whether there
is one. -/
def exitWithin (wanted : NodeKind → Bool) : (steps : Nat) → Build → Bool × Build
  | 0, b => (false, b)
  | steps + 1, b =>
    if b.path.atRoot then (false, b)
    else if wanted b.current.kind then (true, b.exit)
    else exitWithin wanted steps b.exit

/-- Close the innermost open node that is wanted and everything in it, or every node up to the root. -/
def exitThrough (b : Build) (wanted : NodeKind → Bool) : Bool × Build :=
  let b := b.closeDefinitions none
  exitWithin wanted b.path.above.length b

/-- Close nodes up to a program or the root, at most `steps`, and leave that open. -/
def exitToProgram : (steps : Nat) → Build → Build
  | 0, b => b
  | steps + 1, b => if b.path.atRoot || b.current.kind.isProgram then b else exitToProgram steps b.exit

/-- The bound up to which a new definition of a level closes the open ones. -/
def bound (level : Level) : Option Level :=
  if level = 1 ∨ level = independentLevel then none
  else if level = renamesLevel then some 2
  else some level

def enterDefinition (b : Build) (level : Level) (kind : NodeKind) : Build :=
  (b.closeDefinitions (bound level)).enter kind

def addIndexes (b : Build) (entry : DataEntry) : Build :=
  match entry.indexNames with
  | [] => b
  | names => (names.foldl (fun b name => b.leaf (.index name)) b).markCurrent .containsIndex

def pushFrame (b : Build) (flags : NodeFlags) : Build :=
  { b with
    frames := ⟨b.scopeFlags, b.storage, b.typeNode⟩ :: b.frames, storage := none, typeNode := none,
    scopeFlags := flags }

def popFrame (b : Build) : Build :=
  match b.frames with
  | [] => b
  | frame :: rest =>
    { b with scopeFlags := frame.flags, storage := frame.storage, typeNode := frame.typeNode, frames := rest }

end Build

end CobolSymbols
