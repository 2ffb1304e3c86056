import CobolSymbols.Build.Declarations.Procedure
import CobolSymbols.Tree.Path

/-!
# The shape of a tree

The shape of a node is all of it but its meaning: its number, what it was made from, its flags and its place in a type.
Making symbols gives meanings to nodes and leaves the shape of the tree as it is. Closing open nodes leaves the list of
all nodes as it is, and opening a node adds one node at its end.
-/

set_option autoImplicit false

namespace CobolSymbols

variable (n : Node) (id : SymbolId)

/-- The node without its meaning. -/
def Node.shape (n : Node) : Node := { n with meaning := none }

@[simp] theorem Node.shape_id : n.shape.id = n.id := rfl

@[simp] theorem Node.shape_kind : n.shape.kind = n.kind := rfl

@[simp] theorem Node.shape_flags : n.shape.flags = n.flags := rfl

@[simp] theorem Node.shape_bindSymbol : (n.bindSymbol id).shape = n.shape := rfl

@[simp] theorem Node.symbol?_bindSymbol : (n.bindSymbol id).symbol? = some id := rfl

@[simp] theorem Node.isDefinition_bindSymbol :
    (n.bindSymbol id).isDefinition = n.isDefinition := rfl

namespace Forest

/-- The forest with every node changed. -/
def map (f : Node → Node) : Forest → Forest
  | .nil => .nil
  | .cons node children siblings => .cons (f node) (children.map f) (siblings.map f)

/-- The forest without the meanings of its nodes. -/
def shape (f : Forest) : Forest := f.map Node.shape

@[simp] theorem shape_nil : shape .nil = .nil := rfl

@[simp] theorem shape_cons (node : Node) (children siblings : Forest) :
    shape (.cons node children siblings) = .cons node.shape children.shape siblings.shape := rfl

@[simp] theorem nodes_append (f g : Forest) : (f.append g).nodes = f.nodes ++ g.nodes := by
  induction f with
  | nil => rfl
  | cons node children siblings _ ih => simp [append, nodes, ih]

@[simp] theorem nodes_push (f : Forest) (t : Tree) : (f.push t).nodes = f.nodes ++ t.nodes := by
  simp [push, Tree.nodes]

theorem roots_append {f g : Forest} : (f.append g).roots = f.roots ++ g.roots := by
  induction f with
  | nil => rfl
  | cons node children siblings _ ih => simp only [append, roots, ih, List.cons_append]

@[simp] theorem roots_map (g : Node → Node) (f : Forest) : (f.map g).roots = f.roots.map g := by
  induction f with
  | nil => rfl
  | cons node children siblings _ ih => simp [map, roots, ih]

theorem size_eq_length_nodes (f : Forest) : f.size = f.nodes.length := by
  induction f with
  | nil => rfl
  | cons node children siblings ihChildren ihSiblings =>
    simp only [size, nodes, ihChildren, ihSiblings, List.length_cons, List.length_append]
    omega

end Forest

/-- The tree without the meanings of its nodes. -/
def Tree.shape (t : Tree) : Tree := ⟨t.node.shape, t.children.shape⟩

namespace Declarations

variable (d : Declarations)

@[simp] theorem shape_bindIfMade (node : Node) (made : Option SymbolId) : (bindIfMade node made).shape = node.shape := by
  cases made <;> rfl

/-- Making indexes keeps the shape of the children. -/
theorem declareIndexes_shape (indexed : SymbolId) (parent : ScopeRef) (typeBody : Option SymbolId) (f : Forest)
    (d : Declarations) : (declareIndexes indexed parent typeBody f d).1.shape = f.shape := by
  induction f generalizing d with
  | nil => rfl
  | cons node children siblings _ ih =>
    rw [declareIndexes]
    split
    · simp [ih]
    · simp [ih]

section View

variable {β : Type} (view : Forest → β) {children : Forest} {fields : Placement → Declarations → Forest × Declarations}
  (hfields : ∀ place d, view (fields place d).1 = view children)
include hfields

/-- Giving an item its type keeps what is seen of its children, when making its fields does. -/
theorem declareContent_view (id : SymbolId) (entry : DataEntry) (typeBody : Option SymbolId) :
    view (d.declareContent id entry typeBody children fields).1 = view children := by
  unfold declareContent
  split
  · exact hfields _ _
  · rfl

variable (hindexes : ∀ indexed parent typeBody f d, view (declareIndexes indexed parent typeBody f d).1 = view f)
include hindexes

/-- Making an item keeps what is seen of its children, when making its fields and its indexes does. -/
theorem declareItem_view (entry : DataEntry) (kind : ItemKind) (place : Placement) :
    view (d.declareItem entry kind place children fields).2.1 = view children := by
  unfold declareItem enterItem
  simp only
  split
  · exact declareContent_view _ view hfields _ _ _
  · split
    · rw [hindexes]
      exact declareContent_view _ view hfields _ _ _
    · exact declareContent_view _ view hfields _ _ _

theorem declareNode_view (node : Node) (place : Placement) :
    view (d.declareNode node place children fields).2.1 = view children := by
  unfold declareNode
  split
  · split
    · rfl
    · exact declareItem_view _ view hfields hindexes _ _ _
  · exact declareItem_view _ view hfields hindexes _ _ _
  · exact declareItem_view _ view hfields hindexes _ _ _
  · exact declareItem_view _ view hfields hindexes _ _ _
  · rfl
  · rfl
  · rfl

end View

/-- Making the symbols of a forest keeps its shape. -/
theorem declareFields_shape (f : Forest) (place : Placement) (d : Declarations) :
    (declareFields f place d).1.shape = f.shape := by
  induction f generalizing place d with
  | nil => rfl
  | cons node children siblings ihChildren ihSiblings =>
    rw [declareFields]
    simp [ihSiblings, declareNode_view d Forest.shape ihChildren declareIndexes_shape node place]

/-- Making the symbols of a definition that lies in no other one keeps the shape of its tree. -/
theorem declareTop_shape (tree : Tree) (scope : SymbolId) : (d.declareTop tree scope).1.shape = tree.shape := by
  unfold declareTop
  split
  · simp [declareType, Tree.shape, declareItem_view _ Forest.shape (declareFields_shape tree.children) declareIndexes_shape]
  · simp [Tree.shape, declareNode_view _ Forest.shape (declareFields_shape tree.children) declareIndexes_shape]

/-- Making the symbols of a record keeps the shape of its tree. -/
theorem declareRecord_shape (tree : Tree) : (d.declareRecord tree).1.shape = tree.shape := by
  unfold declareRecord
  simp only
  split
  · rfl
  · exact declareTop_shape _ _ _

/-- Making the symbols of parameters keeps the shape of their nodes. -/
theorem declareParameters_shape (linkage : ScopeRef) (f : Forest) (signature : Signature) (d : Declarations) :
    (declareParameters linkage f signature d).1.shape = f.shape := by
  induction f generalizing signature d with
  | nil => rfl
  | cons node children siblings _ ih =>
    rw [declareParameters]
    split
    · simp [ih, declareItem_view _ Forest.shape (declareFields_shape children) declareIndexes_shape]
    · simp [ih]

theorem startProcedure_shape (header : DeclaredProcedure) (parameters : Forest) :
    (d.startProcedure header parameters).2.1.shape = parameters.shape := by
  unfold startProcedure
  split
  · rfl
  · simp [declareParameters_shape]

end Declarations

/-- The nodes of an open node and of its complete children, in source order. -/
def OpenNode.nodes (o : OpenNode) : List Node := o.node :: o.children.nodes

namespace Path

variable (p : Path)

/-- The nodes of the tree under construction, in source order. -/
def nodes (p : Path) : List Node := p.above.reverse.flatMap OpenNode.nodes ++ p.current.nodes

/-- Closing every open node keeps the list of nodes. -/
theorem toTree_nodes : p.toTree.nodes = p.nodes := by
  have key : ∀ (above : List OpenNode) (t : Tree),
      (above.foldl (fun tree o => ⟨o.node, o.children.push tree⟩) t).nodes =
        above.reverse.flatMap OpenNode.nodes ++ t.nodes := by
    intro above
    induction above with
    | nil => intro t; simp
    | cons o rest ih =>
      intro t
      rw [List.foldl_cons, ih]
      simp [OpenNode.nodes, Tree.nodes, Forest.ofTree, Forest.nodes]
  rw [toTree, key]
  simp [nodes, OpenNode.nodes, OpenNode.toTree, Tree.nodes, Forest.ofTree, Forest.nodes]

/-- Opening a node adds it at the end of the list of nodes. -/
@[simp] theorem enter_nodes (n : Node) : (p.enter n).nodes = p.nodes ++ [n] := by
  simp [enter, nodes, OpenNode.nodes, Forest.nodes]

/-- Adding a complete tree adds its nodes at the end of the list of nodes. -/
@[simp] theorem attach_nodes (t : Tree) : (p.attach t).nodes = p.nodes ++ t.nodes := by
  simp [attach, nodes, OpenNode.nodes]

/-- Adding a node without children adds it at the end of the list of nodes. -/
@[simp] theorem leaf_nodes (n : Node) : (p.leaf n).nodes = p.nodes ++ [n] := by
  simp [leaf, Tree.nodes, Forest.ofTree, Forest.nodes]

/-- The tree taken out of a path held the last of its nodes. -/
theorem pop?_nodes {p rest : Path} {t : Tree} (h : p.pop? = some (t, rest)) : p.nodes = rest.nodes ++ t.nodes := by
  unfold pop? at h
  split at h
  · cases h
  · rename_i parent above habove
    obtain ⟨rfl, rfl⟩ := h
    simp [nodes, habove, OpenNode.nodes, OpenNode.toTree, Tree.nodes, Forest.ofTree, Forest.nodes]

/-- Closing the current node keeps the list of nodes. -/
theorem close?_nodes : (p.close?.getD p).nodes = p.nodes := by
  unfold close?
  cases h : p.pop? with
  | none => rfl
  | some found =>
    obtain ⟨t, rest⟩ := found
    simp [pop?_nodes h]

end Path

end CobolSymbols
