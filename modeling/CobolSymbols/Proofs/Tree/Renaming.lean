import CobolSymbols.Tree.Path

/-!
# Trees under other numbers

The nodes of a tree mean symbols and scopes by number. A tree under other numbers has the same nodes, which mean the
symbols that go by the other numbers; everything else in a node stays, so a tree grows and is closed the same way.
-/

set_option autoImplicit false

namespace CobolSymbols

section Definitions

variable (ρ : SymbolId → SymbolId)

/-- What a node means, under other numbers. -/
def Meaning.rename : Meaning → Meaning
  | .symbol id => .symbol (ρ id)
  | .scope owner slot => .scope (ρ owner) slot

/-- A node, under other numbers. -/
def Node.rename (n : Node) : Node := { n with meaning := n.meaning.map (Meaning.rename ρ) }

/-- A forest, under other numbers. -/
def Forest.rename : Forest → Forest
  | .nil => .nil
  | .cons node children siblings => .cons (node.rename ρ) children.rename siblings.rename

/-- A tree, under other numbers. -/
def Tree.rename (t : Tree) : Tree := ⟨t.node.rename ρ, t.children.rename ρ⟩

/-- An open node, under other numbers. -/
def OpenNode.rename (o : OpenNode) : OpenNode := ⟨o.node.rename ρ, o.children.rename ρ⟩

/-- The open nodes of a tree, under other numbers. -/
def Path.rename (p : Path) : Path := ⟨p.current.rename ρ, p.above.map (OpenNode.rename ρ)⟩

end Definitions

variable (ρ : SymbolId → SymbolId)

section Composition

variable (σ : SymbolId → SymbolId)

theorem Node.rename_rename (n : Node) : (n.rename σ).rename ρ = n.rename (ρ ∘ σ) := by
  have hmeaning : Meaning.rename ρ ∘ Meaning.rename σ = Meaning.rename (ρ ∘ σ) := by
    funext meaning
    cases meaning <;> rfl
  unfold rename
  simp only [Option.map_map, hmeaning]

theorem Forest.rename_rename (f : Forest) : (f.rename σ).rename ρ = f.rename (ρ ∘ σ) := by
  induction f with
  | nil => rfl
  | cons node children siblings ihChildren ihSiblings =>
    simp only [rename, Node.rename_rename, ihChildren, ihSiblings]

theorem Tree.rename_rename (t : Tree) : (t.rename σ).rename ρ = t.rename (ρ ∘ σ) := by
  simp only [rename, Node.rename_rename, Forest.rename_rename]

end Composition

namespace Forest

theorem rename_append (f g : Forest) : (f.append g).rename ρ = (f.rename ρ).append (g.rename ρ) := by
  induction f with
  | nil => rfl
  | cons node children siblings _ ih => simp only [append, rename, ih]

theorem rename_push (f : Forest) (t : Tree) : (f.push t).rename ρ = (f.rename ρ).push (t.rename ρ) :=
  rename_append ρ f (ofTree t)

theorem roots_rename (f : Forest) : (f.rename ρ).roots = f.roots.map (Node.rename ρ) := by
  induction f with
  | nil => rfl
  | cons node children siblings _ ih => simp only [rename, roots, List.map_cons, ih]

theorem any_isDefinition_rename (f : Forest) : (f.rename ρ).roots.any Node.isDefinition = f.roots.any Node.isDefinition := by
  rw [roots_rename, List.any_map]
  rfl

end Forest

namespace Path

variable (p : Path)

theorem rename_attach (t : Tree) : (p.attach t).rename ρ = (p.rename ρ).attach (t.rename ρ) := by
  simp only [attach, rename, OpenNode.rename, Forest.rename_push]

theorem rename_leaf (n : Node) : (p.leaf n).rename ρ = (p.rename ρ).leaf (n.rename ρ) :=
  rename_attach ρ p { node := n }

theorem pop?_rename : (p.rename ρ).pop? = p.pop?.map fun found => (found.1.rename ρ, found.2.rename ρ) := by
  obtain ⟨current, above⟩ := p
  cases above <;> rfl

theorem close?_rename : (p.rename ρ).close? = p.close?.map (rename ρ) := by
  unfold close?
  rw [pop?_rename]
  cases p.pop? with
  | none => rfl
  | some found => simp only [Option.map_some, rename_attach]

theorem rename_mapCurrent {f f' : Node → Node} (h : ∀ n, f' (n.rename ρ) = (f n).rename ρ) :
    (p.mapCurrent f).rename ρ = (p.rename ρ).mapCurrent f' := by
  simp only [mapCurrent, rename, OpenNode.rename, h]

/-- A change of the nearest node that fits, where neither the test nor the change looks at what the node means. -/
theorem rename_mapFirstAbove (condition : Node → Bool) (f : Node → Node)
    (hcondition : ∀ n, condition (n.rename ρ) = condition n) (hf : ∀ n, f (n.rename ρ) = (f n).rename ρ) :
    (p.mapFirstAbove condition f).rename ρ = (p.rename ρ).mapFirstAbove condition f := by
  have hfirst : ∀ above : List OpenNode, (mapFirst condition f above).map (OpenNode.rename ρ) =
      mapFirst condition f (above.map (OpenNode.rename ρ)) := by
    intro above
    induction above with
    | nil => rfl
    | cons o rest ih =>
      simp only [mapFirst, List.map_cons, OpenNode.rename, hcondition]
      split
      · simp only [List.map_cons, OpenNode.rename, hf]
      · simp only [List.map_cons, OpenNode.rename, ← ih]
  simp only [mapFirstAbove, rename, hfirst]

theorem toTree_rename : (p.rename ρ).toTree = p.toTree.rename ρ := by
  obtain ⟨current, above⟩ := p
  have hclosed : ∀ (above : List OpenNode) (tree : Tree),
      (above.map (OpenNode.rename ρ)).foldl (fun tree o => ⟨o.node, o.children.push tree⟩) (tree.rename ρ) =
        (above.foldl (fun tree o => (⟨o.node, o.children.push tree⟩ : Tree)) tree).rename ρ := by
    intro above
    induction above with
    | nil => exact fun tree => rfl
    | cons o rest ih =>
      intro tree
      have hpushed : (⟨(o.rename ρ).node, (o.rename ρ).children.push (tree.rename ρ)⟩ : Tree) =
          (⟨o.node, o.children.push tree⟩ : Tree).rename ρ := by
        simp only [Tree.rename, OpenNode.rename, Forest.rename_push]
      rw [List.map_cons, List.foldl_cons, List.foldl_cons, hpushed]
      exact ih _
  exact hclosed above current.toTree

end Path

end CobolSymbols
