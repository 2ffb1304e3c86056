import CobolSymbols.Proofs.Build.Steps
import CobolSymbols.Proofs.Tree.Sites
import CobolSymbols.Proofs.Tree.Walk
import CobolSymbols.Session

/-!
# Trees list their events in source order

Every event stands for a list of nodes: a start for its node, with the index names or parameters right after it, an end
for nothing except for its END PROGRAM marker. Building a unit numbers these nodes in the order of the events and adds
them at the right edge of the tree, whether or not the ends match what is open. So the depth-first walk of the finished
tree sees exactly these nodes, in this order.
-/

set_option autoImplicit false

namespace CobolSymbols

open List Path

/-- Kinds of nodes numbered one after the other. -/
def numbered : Nat → List NodeKind → List (NodeId × NodeKind)
  | _, [] => []
  | start, kind :: rest => (start, kind) :: numbered (start + 1) rest

/-- Numbering a list is numbering its first part and going on from there. -/
theorem numbered_append (start : Nat) (kinds more : List NodeKind) :
    numbered start (kinds ++ more) = numbered start kinds ++ numbered (start + kinds.length) more := by
  induction kinds generalizing start with
  | nil => simp [numbered]
  | cons kind rest ih => simp [numbered, ih, Nat.add_assoc, Nat.add_comm 1]

theorem numbered_map_fst (start : Nat) (kinds : List NodeKind) :
    (numbered start kinds).map Prod.fst = List.range' start kinds.length := by
  induction kinds generalizing start with
  | nil => rfl
  | cons kind rest ih => simp [numbered, ih, range'_succ]

theorem numbered_map_snd (start : Nat) (kinds : List NodeKind) : (numbered start kinds).map Prod.snd = kinds := by
  induction kinds generalizing start with
  | nil => rfl
  | cons kind rest ih => simp [numbered, ih]

namespace Path

/-- The labels of the nodes of the tree under construction, in source order. -/
def labels (p : Path) : List (NodeId × NodeKind) := p.nodes.map Node.label

end Path

namespace Build

section Sites

variable {α : Type} {view : Node → α} (hview : ∀ n : Node, view n.shape = view n) (b : Build)
include hview

theorem bindCurrent_sites (meaning : Option Meaning) : (b.bindCurrent meaning).path.sites view = b.path.sites view := by
  cases meaning with
  | none => rfl
  | some meaning =>
    exact b.path.mapCurrent_sites fun n => (hview { n with meaning }).symm.trans (hview n)

/-- Closing a definition keeps the sites, also when it is made into symbols. -/
theorem exitDefinition_sites : b.exitDefinition.path.sites view = b.path.sites view := by
  unfold exitDefinition
  cases hpop : b.path.pop? with
  | none => rfl
  | some found =>
    obtain ⟨tree, rest⟩ := found
    simp only
    split
    · rw [attach_sites, ← pop?_sites view hpop]
    · have htree : (Forest.ofTree (b.declarations.declareRecord tree).1).shape = (Forest.ofTree tree).shape :=
        congrArg Forest.ofTree (b.declarations.declareRecord_shape tree)
      rw [attach_sites, Forest.sites_shape_congr _ hview htree, ← pop?_sites view hpop]

/-- Making the symbols of a procedure and of its parameters keeps the sites. -/
theorem declareProcedure_sites (header : DeclaredProcedure) :
    (b.declareProcedure header).path.sites view = b.path.sites view := by
  have hkept := b.declarations.startProcedure_shape header b.path.current.children
  unfold declareProcedure
  rw [bindCurrent_sites hview]
  simp [Path.sites, Path.setChildren, OpenNode.sites, Forest.sites_shape_congr _ hview hkept]

end Sites

/-- Every act adds its nodes at the end of the tree, below the current node. -/
theorem Act.sites {b b' : Build} {kinds : List NodeKind} (h : Act b kinds b') : b'.path.sites Node.label =
    b.path.sites Node.label ++ kinds.map fun kind => ((b.nodeCount, kind), b.path.line Node.label) := by
  have hshape : ∀ n : Node, n.shape.label = n.label := fun _ => rfl
  have hmark : ∀ (flag : NodeFlag) (n : Node), (n.mark flag).label = n.label := fun _ _ => rfl
  cases h with
  | aside hpath => simp [hpath]
  | leaf => simp [Build.leaf, newNode, Node.label]
  | addParameter => simp [Build.addParameter, newNode, Node.mark, Node.label]
  | enter => simp [Build.enter, newNode, Node.label]
  | enterProcedure =>
    have hline : b.markProgram.path.line Node.label = b.path.line Node.label :=
      congrArg (b.current.label :: ·) (mapFirst_line _ (hmark .containsProcedure) b.path.above)
    have hsites : b.markProgram.path.sites Node.label = b.path.sites Node.label :=
      b.path.mapFirstAbove_sites _ (hmark .containsProcedure)
    refine (enter_sites Node.label b.markProgram.path _).trans ?_
    rw [hsites, hline]
    rfl
  | exit => simp [Build.exit, close?_sites]
  | exitDefinition => simp [exitDefinition_sites hshape]
  | markCurrent => simp [Build.markCurrent, mapCurrent_sites _ (hmark _)]
  | bindCurrent => simp [bindCurrent_sites hshape]
  | plain => simp
  | declareProcedure => simp [declareProcedure_sites hshape]

/-- The second unit is the first one with nodes of the given kinds added at its end. -/
structure Adds (b b' : Build) (kinds : List NodeKind) : Prop where
  /-- The new nodes are counted. -/
  count : b'.nodeCount = b.nodeCount + kinds.length
  /-- The new nodes are numbered from the old count on and come last. -/
  labels : b'.path.labels = b.path.labels ++ numbered b.nodeCount kinds
  /-- The old nodes keep their sites. -/
  sites : b.path.sites Node.label <+: b'.path.sites Node.label

namespace Adds

variable {b b' b'' : Build} {kinds : List NodeKind}

theorem refl (b : Build) : Adds b b [] := ⟨rfl, by simp [numbered], prefix_rfl⟩

theorem trans {more : List NodeKind} (h : Adds b b' kinds) (h' : Adds b' b'' more) : Adds b b'' (kinds ++ more) := by
  constructor
  · rw [h'.count, h.count, length_append, Nat.add_assoc]
  · rw [h'.labels, h.labels, h.count, numbered_append, append_assoc]
  · exact h.sites.trans h'.sites

end Adds

theorem bindCurrent_count (b : Build) (meaning : Option Meaning) : (b.bindCurrent meaning).nodeCount = b.nodeCount := by
  cases meaning <;> rfl

theorem exitDefinition_count (b : Build) : b.exitDefinition.nodeCount = b.nodeCount := by
  unfold exitDefinition
  split
  · rfl
  · simp only
    split <;> rfl

/-- Every act adds its nodes at the end of the tree. -/
theorem Act.adds {b b' : Build} {kinds : List NodeKind} (h : Act b kinds b') : Adds b b' kinds := by
  have hsites := h.sites
  have hlabels := congrArg (map Prod.fst) hsites
  have hcount : b'.nodeCount = b.nodeCount + kinds.length ∧ kinds.length ≤ 1 := by
    cases h with
    | aside _ hcount => exact ⟨hcount, Nat.zero_le _⟩
    | leaf | addParameter | enter | enterProcedure | exit | markCurrent | plain => exact ⟨rfl, by simp⟩
    | exitDefinition => exact ⟨exitDefinition_count b, Nat.zero_le _⟩
    | bindCurrent => exact ⟨bindCurrent_count b _, Nat.zero_le _⟩
    | declareProcedure => exact ⟨bindCurrent_count _ _, Nat.zero_le _⟩
  refine ⟨hcount.1, ?_, ?_⟩
  · rw [sites_nodes, map_append, sites_nodes, map_map] at hlabels
    cases kinds with
    | nil => exact hlabels
    | cons kind rest =>
      obtain rfl : rest = [] := eq_nil_of_length_eq_zero (Nat.le_zero.mp (Nat.le_of_succ_le_succ hcount.2))
      exact hlabels
  · rw [hsites]
    exact prefix_append _ _

/-- Acts add the nodes that they stand for at the end of the tree. -/
theorem Acts.adds {b b' : Build} {kinds : List NodeKind} (h : Acts b kinds b') : Adds b b' kinds := by
  induction h with
  | refl => exact .refl b
  | tail _ hlast ih => exact ih.trans hlast.adds

end Build

theorem Context.compile_tree_labels (c : Context) (file : FileId) (events : List Event) :
    (c.compile file events).1.tree.nodes.map Node.label =
      numbered 0 (.sourceFile :: events.flatMap Event.nodeKinds) := by
  have hstart : (Build.start { c with file }).path.labels = numbered 0 [.sourceFile] := rfl
  have hlabels := (Build.unit_acts { c with file } events).adds.labels
  rw [hstart] at hlabels
  show List.map Node.label (Path.toTree _).nodes = _
  rw [toTree_nodes]
  exact hlabels

/-- The walk of the tree of a unit sees its nodes in the order of their numbers, and what they are made from is the
source file followed by what each event stands for: nothing is lost, doubled or moved, for events in any order. -/
theorem Context.compile_walk_in_source_order (c : Context) (file : FileId) (events : List Event) :
    ∃ seen : List Node,
      (c.compile file events).1.tree.walk Visitor.recorder [] = (true, seen) ∧
      seen.map Node.id = List.range (c.compile file events).1.tree.size ∧
      seen.map Node.kind = .sourceFile :: events.flatMap Event.nodeKinds := by
  have hlabels := c.compile_tree_labels file events
  refine ⟨(c.compile file events).1.tree.nodes, Tree.walk_recorder _, ?_, ?_⟩
  · have hids := congrArg (List.map Prod.fst) hlabels
    rw [map_map, numbered_map_fst] at hids
    have hsize : (c.compile file events).1.tree.size = (.sourceFile :: events.flatMap Event.nodeKinds).length := by
      have hlength := congrArg List.length hids
      rw [length_map, length_range'] at hlength
      exact (Forest.size_eq_length_nodes _).trans hlength
    rw [hsize, range_eq_range']
    exact hids
  · have hkinds := congrArg (List.map Prod.snd) hlabels
    rw [map_map, numbered_map_snd] at hkinds
    exact hkinds

end CobolSymbols
