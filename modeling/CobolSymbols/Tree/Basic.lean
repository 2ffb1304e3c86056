import CobolSymbols.Tree.Node

/-!
# Program trees

A forest is empty, or a node with its children followed by its later siblings; a tree is one node with its children.
`Forest.nodes` lists the nodes in source order, each before its children.
-/

set_option autoImplicit false

namespace CobolSymbols

inductive Forest where
  | nil
  | cons (node : Node) (children siblings : Forest)
deriving DecidableEq, Repr, Inhabited

structure Tree where
  node : Node
  children : Forest := .nil
deriving DecidableEq, Repr

namespace Forest

def append : Forest → Forest → Forest
  | .nil, other => other
  | .cons node children siblings, other => .cons node children (siblings.append other)

def ofTree (t : Tree) : Forest := .cons t.node t.children .nil

/-- The forest with a tree added after its last. -/
def push (f : Forest) (t : Tree) : Forest := f.append (ofTree t)

/-- The nodes in source order, each before its children. -/
def nodes : Forest → List Node
  | .nil => []
  | .cons node children siblings => node :: (children.nodes ++ siblings.nodes)

def roots : Forest → List Node
  | .nil => []
  | .cons node _ siblings => node :: siblings.roots

/-- The trees of a forest in order. -/
def trees : Forest → List Tree
  | .nil => []
  | .cons node children siblings => ⟨node, children⟩ :: siblings.trees

def size : Forest → Nat
  | .nil => 0
  | .cons _ children siblings => 1 + children.size + siblings.size

/-- The nodes in source order, each with the number of its parent. -/
def withParents (parent : Option NodeId) : Forest → List (Node × Option NodeId)
  | .nil => []
  | .cons node children siblings =>
    (node, parent) :: (children.withParents (some node.id) ++ siblings.withParents parent)

/-- The tree under the node with a number, and the ancestors of that node, nearest first. -/
def find? (id : NodeId) (above : List Node) : Forest → Option (Tree × List Node)
  | .nil => none
  | .cons node children siblings =>
    if node.id = id then some (⟨node, children⟩, above)
    else
      match children.find? id (node :: above) with
      | some found => some found
      | none => siblings.find? id above

/-- One line for each node, indented by its depth. -/
def outline (depth : Nat) : Forest → String
  | .nil => ""
  | .cons node children siblings =>
    String.ofList (List.replicate (2 * depth) ' ') ++ node.kind.label ++ "\n" ++ children.outline (depth + 1) ++
      siblings.outline depth

end Forest

namespace Tree

/-- The nodes in source order, each before its children. -/
def nodes (t : Tree) : List Node := (Forest.ofTree t).nodes

def size (t : Tree) : Nat := (Forest.ofTree t).size

/-- The nodes in source order, each with the number of its parent. -/
def withParents (t : Tree) : List (Node × Option NodeId) := (Forest.ofTree t).withParents none

/-- The tree under the node with a number, and the ancestors of that node, nearest first. -/
def find? (t : Tree) (id : NodeId) : Option (Tree × List Node) := (Forest.ofTree t).find? id []

/-- One line for each node, indented by its depth. -/
def outline (t : Tree) : String := (Forest.ofTree t).outline 0

/-- The nodes that declare data under a name, in source order. -/
def findData (t : Tree) (name : String) : List Node :=
  t.nodes.filter fun n => (n.definition?.bind (·.name)) == some name

end Tree

end CobolSymbols
