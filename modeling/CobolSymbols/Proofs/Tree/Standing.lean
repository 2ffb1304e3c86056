import CobolSymbols.Proofs.Tree.Shape

/-!
# Which definitions are made into symbols

A definition is subordinate to the definitions it lies in, up to the first node that declares no data. Nothing is made of
a definition that is subordinate to a level-66 or level-88 entry, or that is or lies in a TYPEDEF header subordinate to an
ordinary item. `Occurrence.IsExempt` says so from the nodes above a definition, `Standing` says it step by step from the
outermost definition inwards, and the two agree.

A finished forest is settled: its definitions inside programs have their symbols. The definitions in a record that is
still open are waiting: none of them has a symbol.
-/

set_option autoImplicit false

namespace CobolSymbols

open List

namespace NodeKind

/-- Whether the node declares data. -/
def isDefinition (k : NodeKind) : Bool := k.definition?.isSome

/-- Whether the node is a TYPEDEF header. -/
def isTypeDefinition : NodeKind → Bool
  | .typeDefinition _ => true
  | _ => false

/-- Whether the node is a level-66 or level-88 entry, below which nothing is made. -/
def standsAlone : NodeKind → Bool
  | .renames _ | .condition _ => true
  | _ => false

/-- The name of an INDEXED BY phrase that the node stands for. -/
def index? : NodeKind → Option IndexName
  | .index name => some name
  | _ => none

/-- The names of the INDEXED BY phrase of a data entry. -/
def indexNames : NodeKind → List IndexName
  | .data entry | .typeDefinition entry => entry.indexNames
  | .redefines entry => entry.entry.indexNames
  | _ => []

theorem plain_of_standsAlone {k : NodeKind} (h : k.standsAlone = true) :
    k.isTypeDefinition = false ∧ k.indexNames = [] := by
  cases k <;> first | exact ⟨rfl, rfl⟩ | cases h

end NodeKind

theorem Node.isDefinition_of_kind {n : Node} {k : NodeKind} (h : n.kind = k) : n.isDefinition = k.isDefinition := by
  unfold Node.isDefinition Node.definition? NodeKind.isDefinition
  rw [h]

/-- A node of a tree with its children and with what the nodes above it were made from, nearest first. -/
structure Occurrence where
  node : Node
  children : Forest
  above : List NodeKind

namespace Occurrence

/-- The definitions to which a node is subordinate, nearest first. -/
def superiors (o : Occurrence) : List NodeKind := o.above.takeWhile NodeKind.isDefinition

/-- The node lies in a program. -/
def InProgram (o : Occurrence) : Prop := ∃ k ∈ o.above, k.isProgram = true

/-- The node is subordinate to a level-66 or level-88 entry, or it is or lies in a TYPEDEF header that is subordinate to a
record of another kind. -/
def IsExempt (o : Occurrence) : Prop :=
  (∃ k ∈ o.superiors, k.standsAlone = true) ∨
    ∃ record, o.superiors.getLast? = some record ∧ record.isTypeDefinition = false ∧
      ∃ k ∈ o.node.kind :: o.superiors, k.isTypeDefinition = true

end Occurrence

/-- Where a definition stands: in no other one, in an ordinary record, in a type, or where nothing is made. -/
inductive Standing where
  | outside
  | inItem
  | inType
  | unseen
deriving DecidableEq

namespace Standing

variable {typeBody : Option SymbolId} {k : NodeKind}

/-- Where the definitions below a definition stand. -/
def below (s : Standing) (k : NodeKind) : Standing :=
  if k.standsAlone then .unseen
  else
    match s with
    | .outside => if k.isTypeDefinition then .inType else .inItem
    | .inItem => if k.isTypeDefinition then .unseen else .inItem
    | .inType => .inType
    | .unseen => .unseen

/-- Whether a definition that stands there is made into a symbol. -/
def binds (s : Standing) (k : NodeKind) : Bool :=
  match s with
  | .outside | .inType => true
  | .inItem => !k.isTypeDefinition
  | .unseen => false

/-- Where the definitions stand that are made with or without the body of a type open. -/
def ofBody (typeBody : Option SymbolId) : Standing := if typeBody.isSome then .inType else .inItem

@[simp] theorem below_unseen (k : NodeKind) : unseen.below k = unseen := by
  unfold below
  split <;> rfl

theorem ofBody_below (halone : k.standsAlone = false)
    (htype : typeBody.isSome = true ∨ k.isTypeDefinition = false) : (ofBody typeBody).below k = ofBody typeBody := by
  unfold below ofBody
  cases typeBody with
  | none =>
    rcases htype with htype | htype
    · cases htype
    · simp [halone, htype]
  | some type => simp [halone]

theorem ofBody_binds
    (htype : typeBody.isSome = true ∨ k.isTypeDefinition = false) : (ofBody typeBody).binds k = true := by
  unfold binds ofBody
  cases typeBody with
  | none =>
    rcases htype with htype | htype
    · cases htype
    · simp [htype]
  | some type => rfl

theorem below_standsAlone {s : Standing} (halone : k.standsAlone = true) : s.below k = .unseen := by
  unfold below
  rw [if_pos halone]

/-- Where the definitions below a list of definitions stand, nearest first. -/
def ofSuperiors : List NodeKind → Standing
  | [] => .outside
  | k :: rest => (ofSuperiors rest).below k

/-- Where the definitions below a list of nodes stand, nearest first. -/
def ofAbove : List NodeKind → Standing
  | [] => .outside
  | k :: rest => if k.isDefinition then (ofAbove rest).below k else .outside

theorem ofAbove_eq (above : List NodeKind) : ofAbove above = ofSuperiors (above.takeWhile NodeKind.isDefinition) := by
  induction above with
  | nil => rfl
  | cons k rest ih =>
    unfold ofAbove
    rw [takeWhile_cons]
    split
    · rw [ih]
      rfl
    · rfl

/-- The standing below a list of definitions is told by its outermost member and by what kinds occur in it. -/
theorem ofSuperiors_eq (record : NodeKind) (inner : List NodeKind) :
    ofSuperiors (inner ++ [record]) =
      if (inner ++ [record]).any NodeKind.standsAlone then .unseen
      else if record.isTypeDefinition then .inType
      else if inner.any NodeKind.isTypeDefinition then .unseen
      else .inItem := by
  induction inner with
  | nil =>
    cases halone : record.standsAlone <;> cases htype : record.isTypeDefinition <;>
      simp [ofSuperiors, below, halone, htype]
  | cons k inner ih =>
    rw [cons_append, ofSuperiors, ih]
    cases halone : k.standsAlone <;> cases htype : k.isTypeDefinition <;>
      cases hrest : (inner ++ [record]).any NodeKind.standsAlone <;>
        cases hrecord : record.isTypeDefinition <;> cases hinner : inner.any NodeKind.isTypeDefinition <;>
          simp [below, halone, htype, hrest, hinner]

end Standing

/-- A definition is made into a symbol where it stands exactly when it is not exempt. -/
theorem Occurrence.binds_iff (o : Occurrence) : (Standing.ofAbove o.above).binds o.node.kind = true ↔ ¬ o.IsExempt := by
  rw [Standing.ofAbove_eq]
  unfold IsExempt superiors
  rcases eq_nil_or_concat (o.above.takeWhile NodeKind.isDefinition) with hnil | ⟨inner, record, hlist⟩
  · rw [hnil]
    simp [Standing.ofSuperiors, Standing.binds]
  · rw [hlist, concat_eq_append, Standing.ofSuperiors_eq]
    by_cases halone : (inner ++ [record]).any NodeKind.standsAlone = true
    · have hexists : ∃ k ∈ inner ++ [record], k.standsAlone = true := by simpa using halone
      rw [if_pos halone]
      exact iff_of_false nofun fun hnot => hnot (.inl hexists)
    · have hnone : ¬ ∃ k ∈ inner ++ [record], k.standsAlone = true := by simpa using halone
      rw [if_neg halone]
      simp only [hnone, false_or, getLast?_append, getLast?_singleton, Option.some_or, Option.some.injEq,
        exists_eq_left']
      cases hrecord : record.isTypeDefinition with
      | true => simp [Standing.binds]
      | false =>
        by_cases hinner : inner.any NodeKind.isTypeDefinition = true
        · have hexists : ∃ k ∈ inner, k.isTypeDefinition = true := by simpa using hinner
          obtain ⟨k, hk, htype⟩ := hexists
          simp only [Bool.false_eq_true, if_false, hinner, if_true, Standing.binds, true_and, false_iff]
          exact fun hnot => hnot ⟨k, mem_cons_of_mem _ (mem_append_left _ hk), htype⟩
        · have hnone' : ∀ k ∈ inner, k.isTypeDefinition = false := by simpa using hinner
          simp only [Bool.false_eq_true, if_false, hinner, Standing.binds]
          cases hown : o.node.kind.isTypeDefinition with
          | true => simp [hown]
          | false => simpa [hown, hrecord] using hnone'

namespace Forest

/-- The nodes of a forest with their children and with what the nodes above them were made from. -/
def occurrences (above : List NodeKind) : Forest → List Occurrence
  | .nil => []
  | .cons node children siblings =>
    ⟨node, children, above⟩ :: (children.occurrences (node.kind :: above) ++ siblings.occurrences above)

/-- The symbols that the nodes of a forest mean. -/
def symbols (f : Forest) : List SymbolId := f.nodes.filterMap Node.symbol?

/-- The names of INDEXED BY phrases on top of a forest. -/
def indexNames (f : Forest) : List IndexName := f.roots.filterMap fun n => n.kind.index?

/-- The symbols of the indexes on top of a forest. -/
def indexSymbols (f : Forest) : List SymbolId := f.roots.filterMap fun n => n.kind.index?.bind fun _ => n.symbol?

/-- The symbols of the definitions on top of a forest, each followed by those of its indexes. -/
def fieldSymbols : Forest → List SymbolId
  | .nil => []
  | .cons node children siblings =>
    (if node.isDefinition then (node.symbol?.map fun id => id :: children.indexSymbols).getD [] else []) ++
      siblings.fieldSymbols

/-- The definitions that stand in a forest and lie inside a program are made into symbols or not according to where they
stand; `inside` tells whether the forest lies in a program. -/
def Settled (f : Forest) (inside : Bool) (s : Standing) : Prop :=
  match f with
  | .nil => True
  | .cons node children siblings =>
    (if node.isDefinition then
      (inside = true → node.symbol?.isSome = s.binds node.kind) ∧ children.Settled inside (s.below node.kind)
    else children.Settled (inside || node.kind.isProgram) .outside) ∧ siblings.Settled inside s

/-- The definitions of a record that is not complete have no symbols, and neither do their indexes; below nodes that
declare no data everything is settled. -/
def Waiting (f : Forest) (inside : Bool) : Prop :=
  match f with
  | .nil => True
  | .cons node children siblings =>
    (if node.isDefinition then node.symbol? = none ∧ children.Waiting inside
    else (node.kind.index?.isSome = true → node.symbol? = none) ∧
      children.Settled (inside || node.kind.isProgram) .outside) ∧ siblings.Waiting inside

/-- Every data entry has exactly the indexes that its INDEXED BY phrase names. -/
def Indexed : Forest → Prop
  | .nil => True
  | .cons node children siblings =>
    children.indexNames = node.kind.indexNames ∧ children.Indexed ∧ siblings.Indexed

section Predicates

variable {f g : Forest} {inside : Bool} {s : Standing}

theorem settled_append : (f.append g).Settled inside s ↔ f.Settled inside s ∧ g.Settled inside s := by
  induction f with
  | nil => simp [append, Settled]
  | cons node children siblings _ ih => simp only [append, Settled, ih, and_assoc]

theorem waiting_append : (f.append g).Waiting inside ↔ f.Waiting inside ∧ g.Waiting inside := by
  induction f with
  | nil => simp [append, Waiting]
  | cons node children siblings _ ih => simp only [append, Waiting, ih, and_assoc]

theorem indexed_append : (f.append g).Indexed ↔ f.Indexed ∧ g.Indexed := by
  induction f with
  | nil => simp [append, Indexed]
  | cons node children siblings _ ih => simp only [append, Indexed, ih, and_assoc]

theorem indexNames_append : (f.append g).indexNames = f.indexNames ++ g.indexNames := by
  unfold indexNames
  rw [roots_append, filterMap_append]

theorem indexNames_shape (f : Forest) : f.shape.indexNames = f.indexNames := by
  unfold shape indexNames
  rw [roots_map, filterMap_map]
  rfl

theorem indexNames_congr (h : f.shape = g.shape) : f.indexNames = g.indexNames := by
  rw [← indexNames_shape f, h, indexNames_shape]

theorem indexed_shape : f.shape.Indexed ↔ f.Indexed := by
  induction f with
  | nil => exact Iff.rfl
  | cons node children siblings ihChildren ihSiblings =>
    simp only [shape_cons, Indexed, indexNames_shape, Node.shape_kind, ihChildren, ihSiblings]

theorem indexed_congr (h : f.shape = g.shape) : f.Indexed ↔ g.Indexed := by
  rw [← indexed_shape, h, indexed_shape]

/-- What waits where nothing is made is settled. -/
theorem Waiting.settled_unseen (h : f.Waiting inside) : f.Settled inside .unseen := by
  induction f with
  | nil => trivial
  | cons node children siblings ihChildren ihSiblings =>
    obtain ⟨hnode, hsiblings⟩ := h
    refine ⟨?_, ihSiblings hsiblings⟩
    split
    · rename_i hdef
      rw [if_pos hdef] at hnode
      refine ⟨fun _ => by rw [hnode.1]; rfl, ?_⟩
      rw [Standing.below_unseen]
      exact ihChildren hnode.2
    · rename_i hdef
      rw [if_neg hdef] at hnode
      exact hnode.2

/-- Without definitions on top it does not matter where a forest stands. -/
theorem Waiting.settled_of_none (h : f.Waiting inside) (hnone : f.roots.any Node.isDefinition = false) (s : Standing) :
    f.Settled inside s := by
  induction f with
  | nil => trivial
  | cons node children siblings _ ih =>
    obtain ⟨hnode, hsiblings⟩ := h
    rw [roots, any_cons, Bool.or_eq_false_iff] at hnone
    refine ⟨?_, ih hsiblings hnone.2⟩
    have hdef : ¬ node.isDefinition = true := by simp [hnone.1]
    rw [if_neg hdef] at hnode ⊢
    exact hnode.2

theorem Waiting.settled_outside (h : f.Waiting false) (s : Standing) : f.Settled false s := by
  induction f generalizing s with
  | nil => trivial
  | cons node children siblings ihChildren ihSiblings =>
    obtain ⟨hnode, hsiblings⟩ := h
    refine ⟨?_, ihSiblings hsiblings s⟩
    split
    · rename_i hdef
      rw [if_pos hdef] at hnode
      exact ⟨nofun, ihChildren hnode.2 _⟩
    · rename_i hdef
      rw [if_neg hdef] at hnode
      exact hnode.2

theorem Settled.isSome_iff {above : List NodeKind} (h : f.Settled (above.any NodeKind.isProgram) (.ofAbove above))
    {o : Occurrence} (ho : o ∈ f.occurrences above) (hdef : o.node.isDefinition = true) (hinside : o.InProgram) :
    o.node.symbol?.isSome = true ↔ ¬ o.IsExempt := by
  induction f generalizing above with
  | nil => cases ho
  | cons node children siblings ihChildren ihSiblings =>
    obtain ⟨hnode, hsiblings⟩ := h
    rcases mem_cons.mp ho with heq | ho
    · subst heq
      rw [if_pos hdef] at hnode
      have hany : above.any NodeKind.isProgram = true := by simpa [Occurrence.InProgram] using hinside
      rw [← Occurrence.binds_iff, hnode.1 hany]
    · rcases mem_append.mp ho with ho | ho
      · refine ihChildren ?_ ho
        have hstanding : Standing.ofAbove (node.kind :: above) =
            if node.isDefinition then (Standing.ofAbove above).below node.kind else .outside := rfl
        rw [hstanding, any_cons]
        split
        · rename_i hdef'
          rw [if_pos hdef'] at hnode
          have hprog : node.kind.isProgram = false := by
            cases hkind : node.kind <;>
              simp [Node.isDefinition, Node.definition?, NodeKind.definition?, hkind] at hdef' <;> rfl
          rw [hprog, Bool.false_or]
          exact hnode.2
        · rename_i hdef'
          rw [if_neg hdef'] at hnode
          rw [Bool.or_comm]
          exact hnode
      · exact ihSiblings hsiblings ho

end Predicates

end Forest

end CobolSymbols
