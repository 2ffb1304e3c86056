import CobolSymbols.Proofs.Tree.Shape

/-!
# Sites of nodes

A node gets its site when it is made and keeps it: closing open nodes and making symbols change no site, and new nodes
come last. `Path.sites` lists what is seen of each node with what is seen of the nodes above it, nearest first, for a tree
under construction as for the finished one.
-/

set_option autoImplicit false

namespace CobolSymbols

open List

/-- The number of a node with what it was made from. -/
def Node.label (n : Node) : NodeId × NodeKind := (n.id, n.kind)

namespace Forest

variable {α : Type} (view : Node → α) (f : Forest) (above : List α)

/-- What is seen of each node and of the nodes above it, nearest first, in source order. -/
def sites (above : List α) : Forest → List (α × List α)
  | .nil => []
  | .cons node children siblings =>
    (view node, above) :: (children.sites (view node :: above) ++ siblings.sites above)

theorem sites_nodes : (f.sites view above).map Prod.fst = f.nodes.map view := by
  induction f generalizing above with
  | nil => rfl
  | cons node children siblings ihChildren ihSiblings => simp [sites, nodes, ihChildren, ihSiblings]

/-- The parent of a node is the nearest node above it. -/
theorem withParents_sites (above : List (NodeId × NodeKind)) :
    (f.withParents (above.head?.map Prod.fst)).map (fun entry => (entry.1.label, entry.2)) =
      (f.sites Node.label above).map fun site => (site.1, site.2.head?.map Prod.fst) := by
  induction f generalizing above with
  | nil => rfl
  | cons node children siblings ihChildren ihSiblings =>
    have hchildren := ihChildren (node.label :: above)
    simp only [withParents, sites, map_cons, map_append, ihSiblings, ← hchildren]
    rfl

theorem withParents_nodes (f : Forest) (parent : Option NodeId) : (f.withParents parent).map Prod.fst = f.nodes := by
  induction f generalizing parent with
  | nil => rfl
  | cons node children siblings ihChildren ihSiblings => simp [withParents, nodes, ihChildren, ihSiblings]

@[simp] theorem sites_push (t : Tree) :
    (f.push t).sites view above = f.sites view above ++ (ofTree t).sites view above := by
  induction f with
  | nil => rfl
  | cons node children siblings _ ih =>
    rw [push] at ih ⊢
    simp only [append, sites, ih, cons_append, append_assoc]

variable {view}

theorem sites_shape_congr (hview : ∀ n : Node, view n.shape = view n) {f g : Forest} (h : f.shape = g.shape) :
    f.sites view above = g.sites view above := by
  have hshape : ∀ (f : Forest) (above : List α), f.shape.sites view above = f.sites view above := by
    intro f
    induction f with
    | nil => exact fun _ => rfl
    | cons node children siblings ihChildren ihSiblings => simp [sites, hview, ihChildren, ihSiblings]
  rw [← hshape f, h, hshape]

end Forest

section

variable {α : Type} (view : Node → α)

/-- What is seen of open nodes, innermost first, and of their children with the nodes above them. -/
def OpenNode.sites : List OpenNode → List (α × List α)
  | [] => []
  | o :: outer =>
    OpenNode.sites outer ++ (view o.node, outer.map (view ·.node)) ::
      o.children.sites view ((o :: outer).map (view ·.node))

end

namespace Path

variable {α : Type} {f : Node → Node} (view : Node → α) (p : Path)

/-- What is seen of the open nodes, innermost first. -/
def line (p : Path) : List α := (p.current :: p.above).map (view ·.node)

/-- What is seen of each node of the tree under construction with what is seen of the nodes above it, in source order. -/
def sites (p : Path) : List (α × List α) := OpenNode.sites view (p.current :: p.above)

/-- Closing every open node keeps the sites. -/
theorem toTree_sites : (Forest.ofTree p.toTree).sites view [] = p.sites view := by
  obtain ⟨current, above⟩ := p
  induction above generalizing current with
  | nil => simp [sites, toTree, OpenNode.sites, OpenNode.toTree, Forest.ofTree, Forest.sites]
  | cons parent outer ih =>
    refine (ih ⟨parent.node, parent.children.push current.toTree⟩).trans ?_
    simp [sites, OpenNode.sites, OpenNode.toTree, Forest.ofTree, Forest.sites]

theorem sites_nodes : (p.sites view).map Prod.fst = p.nodes.map view := by
  rw [← toTree_sites, Forest.sites_nodes, ← toTree_nodes]
  rfl

@[simp] theorem enter_sites (n : Node) : (p.enter n).sites view = p.sites view ++ [(view n, p.line view)] := by
  simp [enter, sites, OpenNode.sites, Forest.sites, line]

@[simp] theorem attach_sites (t : Tree) :
    (p.attach t).sites view = p.sites view ++ (Forest.ofTree t).sites view (p.line view) := by
  simp [attach, sites, OpenNode.sites, line]

@[simp] theorem leaf_sites (n : Node) : (p.leaf n).sites view = p.sites view ++ [(view n, p.line view)] :=
  p.attach_sites view { node := n }

theorem pop?_sites {p rest : Path} {t : Tree} (h : p.pop? = some (t, rest)) :
    p.sites view = rest.sites view ++ (Forest.ofTree t).sites view (rest.line view) := by
  unfold pop? at h
  split at h
  · cases h
  · rename_i parent above habove
    obtain ⟨rfl, rfl⟩ := h
    simp [sites, habove, OpenNode.sites, OpenNode.toTree, Forest.ofTree, Forest.sites, line]

theorem close?_sites : (p.close?.getD p).sites view = p.sites view := by
  unfold close?
  cases h : p.pop? with
  | none => rfl
  | some found =>
    obtain ⟨t, rest⟩ := found
    simp [pop?_sites view h]

variable {view}

theorem mapCurrent_sites (h : ∀ n, view (f n) = view n) : (p.mapCurrent f).sites view = p.sites view := by
  simp [mapCurrent, sites, OpenNode.sites, h]

theorem mapFirst_line (condition : Node → Bool) (h : ∀ n, view (f n) = view n) (above : List OpenNode) :
    (mapFirst condition f above).map (view ·.node) = above.map (view ·.node) := by
  induction above with
  | nil => rfl
  | cons o rest ih =>
    rw [mapFirst]
    split <;> simp [h, ih]

theorem mapFirstAbove_sites (condition : Node → Bool) (h : ∀ n, view (f n) = view n) :
    (p.mapFirstAbove condition f).sites view = p.sites view := by
  have key : ∀ above : List OpenNode, OpenNode.sites view (mapFirst condition f above) = OpenNode.sites view above := by
    intro above
    induction above with
    | nil => rfl
    | cons o rest ih =>
      have hline := mapFirst_line condition h rest
      rw [mapFirst]
      split <;> simp [OpenNode.sites, h, ih, hline]
  simp [mapFirstAbove, sites, OpenNode.sites, key, mapFirst_line condition h]

end Path

end CobolSymbols
