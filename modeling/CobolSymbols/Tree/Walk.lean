import CobolSymbols.Tree.Basic

/-!
# Walking a tree

A visitor is shown each node before its children and once more after them. It may skip the children of a node or stop
the walk. `Tree.walk` keeps what is still to do on a stack of its own: to enter a tree or to leave a node.
`Forest.traverse` is the same walk by recursion. A walk can start from any node.
-/

set_option autoImplicit false

namespace CobolSymbols

/-- What a visitor wants after it has seen a node. -/
inductive Control where
  | descend
  /-- Skip the children and go on with the next sibling. -/
  | skip
  | stop
deriving DecidableEq, Repr

/-- What is done with the nodes of a walk, on a state of the visitor's own. -/
structure Visitor (σ : Type) where
  visit : σ → Node → Control × σ
  /-- See a node after its children, or when they are skipped. -/
  leave : σ → Node → σ

/-- What is still to do on a walk: a tree is seen from its top on, or a node is seen once more. -/
inductive WalkStep where
  | enter (tree : Tree)
  | leave (node : Node)

namespace WalkStep

-- A sum starts from the numeral, whatever algebra of numbers is in scope.
attribute [local instance (high)] Zero.ofOfNat0

/-- A bound on the number of steps that a pending step still causes. -/
def work : WalkStep → Nat
  | .enter tree => 2 * tree.size
  | .leave _ => 1

theorem sum_work_enter (f : Forest) : ((f.trees.map enter).map work).sum = 2 * f.size := by
  induction f with
  | nil => rfl
  | cons node children siblings _ ih =>
    simp only [Forest.trees, List.map_cons, List.sum_cons, ih, work, Tree.size, Forest.ofTree, Forest.size]
    omega

/-- Do what is on the stack, top first; the result tells whether the walk came to its end. -/
def run {σ : Type} (v : Visitor σ) (s : σ) : List WalkStep → Bool × σ
  | [] => (true, s)
  | .leave node :: rest => run v (v.leave s node) rest
  | .enter tree :: rest =>
    match v.visit s tree.node with
    | (.stop, s) => (false, s)
    | (.skip, s) => run v (v.leave s tree.node) rest
    | (.descend, s) => run v s (tree.children.trees.map enter ++ .leave tree.node :: rest)
termination_by stack => (stack.map work).sum
decreasing_by
  all_goals simp only [List.map_append, List.map_cons, List.sum_append, List.sum_cons, sum_work_enter, work, Tree.size,
    Forest.ofTree, Forest.size]
  all_goals omega

end WalkStep

/-- Walk the forest by recursion; the result tells whether the walk came to its end. -/
def Forest.traverse {σ : Type} (v : Visitor σ) (s : σ) : Forest → Bool × σ
  | .nil => (true, s)
  | .cons node children siblings =>
    match v.visit s node with
    | (.stop, s) => (false, s)
    | (.skip, s) => siblings.traverse v (v.leave s node)
    | (.descend, s) =>
      match children.traverse v s with
      | (false, s) => (false, s)
      | (true, s) => siblings.traverse v (v.leave s node)

/-- Walk a tree from its top; the result tells whether the walk came to its end. -/
def Tree.walk {σ : Type} (v : Visitor σ) (s : σ) (t : Tree) : Bool × σ := WalkStep.run v s [.enter t]

/-- Walk the part of a tree under the node with a number, if there is such a node. -/
def Tree.walkFrom? {σ : Type} (v : Visitor σ) (s : σ) (t : Tree) (start : NodeId) : Option (Bool × σ) :=
  (t.find? start).map fun found => found.1.walk v s

end CobolSymbols
