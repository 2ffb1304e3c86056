import CobolSymbols.Tree.Basic

/-!
# A tree under construction

While a tree grows, the nodes on the way from its root to the current node are open: each keeps the children that are
complete. New nodes are added under the current node. Closing the current node makes it the last complete child of the
node above it, so the tree only ever grows at its right edge.
-/

set_option autoImplicit false

namespace CobolSymbols

structure OpenNode where
  node : Node
  children : Forest := .nil
deriving DecidableEq, Repr

/-- The tree of an open node whose last child is complete. -/
def OpenNode.toTree (o : OpenNode) : Tree := ⟨o.node, o.children⟩

structure Path where
  current : OpenNode
  above : List OpenNode := []
deriving DecidableEq, Repr

namespace Path

/-- A tree that is nothing but its open root. -/
def start (root : Node) : Path := { current := { node := root } }

def atRoot (p : Path) : Bool := p.above.isEmpty

def enter (p : Path) (n : Node) : Path := { current := { node := n }, above := p.current :: p.above }

/-- Add a complete tree as the last child of the current node. -/
def attach (p : Path) (t : Tree) : Path := { p with current := { p.current with children := p.current.children.push t } }

def leaf (p : Path) (n : Node) : Path := p.attach { node := n }

/-- The tree under the current node, taken out of the path; the root stays. -/
def pop? (p : Path) : Option (Tree × Path) :=
  match p.above with
  | [] => none
  | parent :: rest => some (p.current.toTree, { current := parent, above := rest })

/-- Close the current node; the root stays open. -/
def close? (p : Path) : Option Path := p.pop?.map fun (tree, rest) => rest.attach tree

def mapCurrent (p : Path) (f : Node → Node) : Path := { p with current := { p.current with node := f p.current.node } }

def setChildren (p : Path) (children : Forest) : Path := { p with current := { p.current with children } }

/-- The open nodes with the first that satisfies a condition changed. -/
def mapFirst (condition : Node → Bool) (f : Node → Node) : List OpenNode → List OpenNode
  | [] => []
  | o :: rest => if condition o.node then { o with node := f o.node } :: rest else o :: mapFirst condition f rest

/-- Change the nearest open node above the current one that satisfies a condition. -/
def mapFirstAbove (p : Path) (condition : Node → Bool) (f : Node → Node) : Path :=
  { p with above := mapFirst condition f p.above }

def toTree (p : Path) : Tree :=
  p.above.foldl (fun tree o => ⟨o.node, o.children.push tree⟩) p.current.toTree

end Path

end CobolSymbols
