import CobolSymbols.Proofs.Tree.Shape
import CobolSymbols.Tree.Walk
import Mathlib.Data.List.Nodup

/-!
# The walk of a tree by its stack

`WalkStep.run` works off a stack of pending steps. Trees on top of the stack are walked as `Forest.traverse` walks them by
recursion: when that comes to its end, the rest of the stack is worked off from the state it leaves, and when the visitor
stops it, nothing else is done. A visitor that only records what it sees lists the nodes in source order. In a tree that has
grown node by node every number below its size names one part of it, and a walk can start there.
-/

set_option autoImplicit false

namespace CobolSymbols

open List

namespace WalkStep

variable {σ : Type} (v : Visitor σ)

/-- What is left of a walk once the trees on top are done: the rest of the stack, unless the visitor has stopped. -/
def resume (rest : List WalkStep) : Bool × σ → Bool × σ
  | (true, s) => run v s rest
  | (false, s) => (false, s)

/-- Trees on top of the stack are walked by recursion before the rest of the stack. -/
theorem run_enter (f : Forest) (s : σ) (rest : List WalkStep) :
    run v s (f.trees.map enter ++ rest) = resume v rest (f.traverse v s) := by
  induction f generalizing s rest with
  | nil => rfl
  | cons node children siblings ihChildren ihSiblings =>
    simp only [Forest.trees, map_cons, cons_append]
    rw [run, Forest.traverse]
    rcases hv : v.visit s node with ⟨control, s₁⟩
    cases control with
    | stop => rfl
    | skip => exact ihSiblings (v.leave s₁ node) rest
    | descend =>
      simp only
      rw [ihChildren]
      rcases hc : children.traverse v s₁ with ⟨ended, s₂⟩
      cases ended with
      | false => rfl
      | true =>
        simp only [resume]
        rw [run, ihSiblings]
        rfl

end WalkStep

/-- The walk by the stack is the walk by recursion. -/
theorem Tree.walk_eq_traverse {σ : Type} (v : Visitor σ) (s : σ) (t : Tree) :
    t.walk v s = (Forest.ofTree t).traverse v s := by
  have hwalk : t.walk v s = WalkStep.resume v [] ((Forest.ofTree t).traverse v s) :=
    WalkStep.run_enter v (.ofTree t) s []
  rw [hwalk]
  rcases (Forest.ofTree t).traverse v s with ⟨ended, s'⟩
  cases ended with
  | false => rfl
  | true => simp only [WalkStep.resume, WalkStep.run]

namespace Forest

/-- The forest with a new node as the last child of the node with a number, if there is one. -/
def addChild? (parent : NodeId) (child : Node) : Forest → Option Forest
  | .nil => none
  | .cons node children siblings =>
    if node.id = parent then some (.cons node (children.push ⟨child, .nil⟩) siblings)
    else
      match children.addChild? parent child with
      | some children => some (.cons node children siblings)
      | none => (siblings.addChild? parent child).map (.cons node children)

/-- The trees under the nodes of a forest, in source order. -/
def subtrees : Forest → List Tree
  | .nil => []
  | .cons node children siblings => ⟨node, children⟩ :: (children.subtrees ++ siblings.subtrees)

theorem map_node_subtrees (f : Forest) : f.subtrees.map Tree.node = f.nodes := by
  induction f with
  | nil => rfl
  | cons node children siblings ihChildren ihSiblings =>
    rw [subtrees, map_cons, map_append, ihChildren, ihSiblings, nodes]

/-- Adding a child adds one node. -/
theorem nodes_addChild? {f g : Forest} {parent : NodeId} {child : Node} (h : f.addChild? parent child = some g) :
    g.nodes.Perm (child :: f.nodes) := by
  induction f generalizing g with
  | nil => cases h
  | cons node children siblings ihChildren ihSiblings =>
    have hswap : (child :: nodes (.cons node children siblings)).Perm
        (node :: (child :: children.nodes ++ siblings.nodes)) := .swap node child _
    rw [addChild?] at h
    split at h
    · cases h
      refine .trans (.cons node (.append_right _ ?_)) hswap.symm
      rw [nodes_push]
      exact perm_append_singleton child children.nodes
    · split at h
      · rename_i hchildren
        cases h
        exact .trans (.cons node (.append_right _ (ihChildren hchildren))) hswap.symm
      · obtain ⟨siblings', hsiblings, rfl⟩ := Option.map_eq_some_iff.mp h
        exact .trans (.cons node ((ihSiblings hsiblings).append_left _ |>.trans perm_middle)) hswap.symm

/-- Looking for a number gives a part of the forest whose top has the number, unless no node has it. -/
theorem find?_spec (f : Forest) (id : NodeId) (above : List Node) :
    match f.find? id above with
    | some found => found.1.node.id = id ∧ found.1 ∈ f.subtrees
    | none => id ∉ f.nodes.map (·.id) := by
  induction f generalizing above with
  | nil => simp [find?, nodes]
  | cons node children siblings ihChildren ihSiblings =>
    rw [find?]
    by_cases hnode : node.id = id
    · simp [hnode, subtrees]
    · have hchildren := ihChildren (node :: above)
      have hsiblings := ihSiblings above
      rw [if_neg hnode]
      cases hfound : children.find? id (node :: above) with
      | some found => simp_all [subtrees]
      | none => cases hnext : siblings.find? id above <;> simp_all [nodes, subtrees, Ne.symm hnode]

end Forest

/-- Trees that come from a root by adding children, each under the next number. -/
inductive Tree.Grown : Tree → Prop where
  | root : Grown ⟨{ id := 0, kind := .sourceFile }, .nil⟩
  | child {t t' : Tree} (h : Grown t) (parent : NodeId) (kind : NodeKind)
    (hchild : (Forest.ofTree t).addChild? parent { id := t.size, kind } = some (.ofTree t')) : Grown t'

/-- The numbers of the nodes are those below their number. -/
theorem Tree.Grown.ids {t : Tree} (h : t.Grown) : (t.nodes.map (·.id)).Perm (range t.size) := by
  induction h with
  | root => exact .refl _
  | @child t t' _ _ _ hchild ih =>
    have hnodes : t'.nodes.Perm _ := Forest.nodes_addChild? hchild
    have hsize : t'.size = t.size + 1 := by
      rw [Tree.size, Forest.size_eq_length_nodes, Tree.size, Forest.size_eq_length_nodes]
      exact hnodes.length_eq
    rw [hsize, range_succ]
    exact (hnodes.map _).trans ((ih.cons t.size).trans (perm_append_singleton t.size _).symm)

/-- No two parts of a tree that has grown by adding children have the same number on top. -/
theorem Tree.Grown.nodup_subtrees {t : Tree} (h : t.Grown) :
    ((Forest.ofTree t).subtrees.map fun sub => sub.node.id).Nodup := by
  have hids : ((Forest.ofTree t).subtrees.map fun sub => sub.node.id) = t.nodes.map (·.id) := by
    rw [Tree.nodes, ← Forest.map_node_subtrees, map_map]
    rfl
  rw [hids]
  exact h.ids.nodup_iff.mpr nodup_range

/-- The visitor that goes everywhere and records the nodes in the order in which it sees them. -/
def Visitor.recorder : Visitor (List Node) where
  visit seen node := (.descend, seen ++ [node])
  leave seen _ := seen

/-- Recording by recursion lists the nodes of a forest in source order. -/
theorem Forest.traverse_recorder (f : Forest) (seen : List Node) :
    f.traverse Visitor.recorder seen = (true, seen ++ f.nodes) := by
  induction f generalizing seen with
  | nil => simp [Forest.traverse, Forest.nodes]
  | cons node children siblings ihChildren ihSiblings =>
    simp only [Forest.traverse, Visitor.recorder, Forest.nodes] at ihChildren ihSiblings ⊢
    rw [ihChildren]
    simp only
    rw [ihSiblings]
    simp

/-- A walk that records what it sees comes to its end and has seen every node of the tree in source order. -/
theorem Tree.walk_recorder (t : Tree) : t.walk Visitor.recorder [] = (true, t.nodes) := by
  rw [Tree.walk_eq_traverse, Forest.traverse_recorder]
  simp [Tree.nodes]

/-- From every node of a tree that has grown by adding children, the walk by the stack is the walk by recursion over the one
part of the tree with this node on top, for any visitor and any state of it: it makes the same calls on the visitor in the
same order and ends with the same result. -/
theorem Tree.walk_from_node {t : Tree} (h : t.Grown) {start : NodeId} (hstart : start < t.size) :
    ∃ below, (∀ sub ∈ (Forest.ofTree t).subtrees, sub.node.id = start ↔ sub = below) ∧
      below ∈ (Forest.ofTree t).subtrees ∧
      ∀ {σ : Type} (v : Visitor σ) (s : σ), t.walkFrom? v s start = some ((Forest.ofTree below).traverse v s) := by
  have hfound := (Forest.ofTree t).find?_spec start []
  rw [← Tree.find?] at hfound
  cases heq : t.find? start with
  | some found =>
    rw [heq] at hfound
    obtain ⟨hid, hbelow⟩ := hfound
    refine ⟨found.1, fun sub hsub => ⟨fun hstart => ?_, fun heq => heq ▸ hid⟩, hbelow, fun v s => ?_⟩
    · exact inj_on_of_nodup_map h.nodup_subtrees hsub hbelow (hstart.trans hid.symm)
    · rw [walkFrom?, heq, Option.map_some, walk_eq_traverse]
  | none =>
    rw [heq] at hfound
    exact absurd (h.ids.mem_iff.mpr (mem_range.mpr hstart)) hfound

/-- A tree with a child that has a child: the walk from the first child sees both. -/
theorem Tree.walk_from_node_child :
    ∃ t : Tree, t.Grown ∧ 1 < t.size ∧ t.walkFrom? Visitor.recorder [] 1 =
      some (true, [{ id := 1, kind := .dataDivision {} }, { id := 2, kind := .dataDivision {} }]) := by
  have hone : Grown ⟨_, .cons { id := 1, kind := .dataDivision {} } .nil .nil⟩ := .child .root 0 (.dataDivision {}) rfl
  have htwo : Grown ⟨_, .cons _ (.cons { id := 2, kind := .dataDivision {} } .nil .nil) .nil⟩ :=
    .child hone 1 (.dataDivision {}) rfl
  obtain ⟨below, hiff, hbelow, hwalk⟩ := walk_from_node htwo (show 1 < 3 by decide)
  have hpart := (hiff ⟨_, .cons { id := 2, kind := .dataDivision {} } .nil .nil⟩ (mem_cons_of_mem _ mem_cons_self)).mp rfl
  refine ⟨_, htwo, by decide, ?_⟩
  rw [hwalk, ← hpart]
  rfl

end CobolSymbols
