import CobolSymbols.Proofs.Build.Nesting

/-!
# The boundaries of a tree

A walk through a tree meets the start and the end of each construct, and the end of each record: a data definition that
lies in no other one. These are the boundaries of the tree. Where a node stands is told by the boundaries before it: the constructs
that have started there and not ended are those around the node.

The builder does not look at what is around a node. It keeps the section of the data division and the section of the
procedure division that it is reading, each in one place. Some constructs change what is kept when they start, and some
empty it when they end. `Sectioning` is what they do, `Sectioning.current` is what is kept after some boundaries, and
`Sectioning.nearest` is the section around the node. The two agree as long as nothing that changes a section stands in one.
-/

set_option autoImplicit false

namespace CobolSymbols

open Forest List Node

/-- Whether a construct is a program or a procedure: these have scopes of their own. -/
def Construct.isScope : Construct → Bool
  | .program | .procedure => true
  | _ => false

/-- Whether the node of a construct means a symbol when it stands in a program. -/
def Construct.isNamed : Construct → Bool
  | .program | .procedure | .heading | .paragraph => true
  | _ => false

theorem Construct.isScope_of_not_isNamed {c : Construct} (h : c.isNamed = false) : c.isScope = false := by
  cases c <;> first | rfl | cases h

/-- An open construct with the symbol that its node means. -/
structure Opening where
  construct : Construct
  symbol : Option SymbolId
deriving DecidableEq

/-- The construct that a node stands for, with its symbol. -/
def Node.opening? (n : Node) : Option Opening := n.kind.construct?.map fun construct => ⟨construct, n.symbol?⟩

theorem Node.opening?_congr {n n' : Node} (hkind : n'.kind = n.kind) (hsymbol : n'.symbol? = n.symbol?) :
    n'.opening? = n.opening? := by
  unfold Node.opening?
  rw [hkind, hsymbol]

theorem Node.opening?_of_definition {n : Node} (h : n.isDefinition = true) : n.opening? = none := by
  unfold Node.opening?
  cases hkind : n.kind.construct? with
  | none => rfl
  | some c =>
    have hnot : n.isDefinition = false := NodeKind.isDefinition_of_construct? hkind
    rw [hnot] at h
    cases h

theorem Node.opening?_of_construct {n : Node} {c : Construct} (h : n.kind.construct? = some c) :
    n.opening? = some ⟨c, n.symbol?⟩ := by
  unfold Node.opening?
  rw [h]
  rfl

/-- The symbols of the programs and procedures among the open constructs. -/
def scopeSymbols (os : List Opening) : List SymbolId := (os.filter (·.construct.isScope)).filterMap Opening.symbol

/-- What a walk through a tree meets: the start and the end of a construct, and the end of a record with its symbol. -/
inductive Boundary where
  | start (opening : Opening)
  | finish
  | record (symbol : Option SymbolId)
deriving DecidableEq

/-- Whether the node is a parameter of a procedure. -/
def NodeKind.isParameter : NodeKind → Bool
  | .parameter .. => true
  | _ => false

namespace Node

/-- The boundary before the children of a node. -/
def starts (n : Node) : List Boundary := n.opening?.toList.map .start

/-- The boundary after the children of a node, which may stand directly in a data definition. -/
def ends (n : Node) (inside : Bool) : List Boundary :=
  if n.opening?.isSome then [.finish]
  else if n.isDefinition && !n.kind.isParameter && !inside then [.record n.symbol?] else []

variable {n n' : Node} {inside : Bool}

theorem starts_congr (hkind : n'.kind = n.kind) (hsymbol : n'.symbol? = n.symbol?) : n'.starts = n.starts := by
  unfold starts
  rw [opening?_congr hkind hsymbol]

theorem starts_of_opening {o : Opening} (h : n.opening? = some o) : n.starts = [.start o] := by
  unfold starts
  rw [h]
  rfl

theorem starts_of_definition (h : n.isDefinition = true) : n.starts = [] := by
  unfold starts
  rw [opening?_of_definition h]
  rfl

theorem ends_of_opening {o : Opening} (h : n.opening? = some o) : n.ends inside = [.finish] := by
  unfold ends
  rw [h]
  rfl

theorem ends_of_definition (h : n.isDefinition = true) :
    n.ends inside = if n.kind.isParameter || inside then [] else [.record n.symbol?] := by
  unfold ends
  rw [opening?_of_definition h, h]
  cases n.kind.isParameter <;> cases inside <;> rfl

variable (h : n.opening? = none)
include h

/-- A node that neither stands for a construct nor declares data has no boundaries. -/
theorem starts_of_other : n.starts = [] := by
  unfold starts
  rw [h]
  rfl

theorem ends_cases : n.ends inside = [] ∨ n.ends inside = [.record n.symbol?] := by
  unfold ends
  rw [h]
  split
  · contradiction
  · split
    · exact .inr rfl
    · exact .inl rfl

theorem ends_of_other (hdef : n.isDefinition = false) : n.ends inside = [] := by
  unfold ends
  rw [h, hdef]
  rfl

end Node

namespace Forest

/-- The boundaries of a forest, which may stand directly in a data definition. -/
def boundaries (inside : Bool) : Forest → List Boundary
  | .nil => []
  | .cons node children siblings =>
    node.starts ++ children.boundaries node.isDefinition ++ node.ends inside ++ siblings.boundaries inside

theorem boundaries_append (f g : Forest) (inside : Bool) : (f.append g).boundaries inside = f.boundaries inside ++ g.boundaries inside := by
  induction f with
  | nil => rfl
  | cons node children siblings _ ih => simp [append, boundaries, ih]

theorem boundaries_ofTree (t : Tree) (inside : Bool) : (ofTree t).boundaries inside =
    t.node.starts ++ t.children.boundaries t.node.isDefinition ++ t.node.ends inside := by
  simp [ofTree, boundaries]

theorem boundaries_push (f : Forest) (t : Tree) (inside : Bool) :
    (f.push t).boundaries inside = f.boundaries inside ++ (ofTree t).boundaries inside := boundaries_append f _ inside

end Forest

/-- The boundaries of a tree. -/
def Tree.boundaries (t : Tree) : List Boundary := (Forest.ofTree t).boundaries false

section Declaring

variable (d : Declarations)

open Declarations

theorem boundaries_declareIndexes {inside : Bool} (indexed : SymbolId) (parent : ScopeRef) (typeBody : Option SymbolId)
    (f : Forest) (d : Declarations) : (declareIndexes indexed parent typeBody f d).1.boundaries inside = f.boundaries inside := by
  induction f generalizing d with
  | nil => rfl
  | cons node children siblings _ ih =>
    cases hindex : node.kind.index? with
    | none =>
      rw [declareIndexes_of_other hindex]
      simp only [Forest.boundaries, ih]
    | some name =>
      have hkind := kind_of_index? hindex
      have hplain : ∀ n : Node, n.kind = .index name → n.starts = [] ∧ n.ends inside = [] ∧ n.isDefinition = false := by
        intro n hn
        have hopening : n.opening? = none := by
          unfold Node.opening?
          rw [hn]
          rfl
        have hdef : n.isDefinition = false := Node.isDefinition_of_kind hn
        exact ⟨starts_of_other hopening, ends_of_other hopening hdef, hdef⟩
      obtain ⟨hstarts, hends, hdef⟩ := hplain node hkind
      obtain ⟨hstarts', hends', hdef'⟩ := hplain (node.bindSymbol d.table.size) hkind
      rw [declareIndexes_of_index hkind]
      simp only [Forest.boundaries, ih, hstarts, hstarts', hends, hends', hdef, hdef']

theorem bindIfMade_kind (node : Node) (made : Option SymbolId) : (bindIfMade node made).kind = node.kind := by
  cases made <;> rfl

/-- Making the definitions on top of a forest into fields leaves its boundaries as they are. -/
theorem boundaries_declareFields (f : Forest) (place : Placement) (d : Declarations) :
    (declareFields f place d).1.boundaries true = f.boundaries true := by
  induction f generalizing place d with
  | nil => rfl
  | cons node children siblings ihChildren ihSiblings =>
    rw [declareFields_cons]
    simp only [Forest.boundaries, ihSiblings]
    cases hdef : node.isDefinition with
    | true =>
      have hmade : ∀ made, (bindIfMade node made).isDefinition = true := fun made =>
        (isDefinition_congr (bindIfMade_kind node made)).trans hdef
      rw [hmade, declareNode_view d (boundaries true) ihChildren boundaries_declareIndexes, starts_of_definition (hmade _),
        starts_of_definition hdef, ends_of_definition (hmade _), ends_of_definition hdef,
        Bool.or_true, Bool.or_true]
      rfl
    | false =>
      rw [declareNode_of_other hdef]
      simp only [bindIfMade, hdef]

/-- A record that is made into symbols has the boundaries that it had, and its end tells its symbol. -/
theorem boundaries_declareRecord {tree : Tree} (hdef : tree.node.isDefinition = true) (inside : Bool) :
    (Forest.ofTree (d.declareRecord tree).1).boundaries inside =
      tree.children.boundaries true ++ (d.declareRecord tree).1.node.ends inside := by
  have hkind : (d.declareRecord tree).1.node.kind = tree.node.kind := by
    exact congrArg (fun t => t.node.kind) (declareRecord_shape d tree : (d.declareRecord tree).1.shape = tree.shape)
  have hdef' := (isDefinition_congr hkind).trans hdef
  have hchildren : (d.declareRecord tree).1.children.boundaries true = tree.children.boundaries true := by
    unfold declareRecord
    simp only
    split
    · rfl
    · unfold declareTop declareType
      simp only
      split
      · exact declareItem_view _ (boundaries true) (boundaries_declareFields tree.children) boundaries_declareIndexes _ _ _
      · exact declareNode_view _ (boundaries true) (boundaries_declareFields tree.children) boundaries_declareIndexes _ _
  rw [boundaries_ofTree, hdef', hchildren, starts_of_definition hdef']
  rfl

end Declaring

namespace Path

/-- The boundaries of open nodes, innermost first, as far as they are known. -/
def openBoundaries : List OpenNode → List Boundary
  | [] => []
  | o :: os => openBoundaries os ++ (o.node.starts ++ o.children.boundaries o.node.isDefinition)

/-- The boundaries of a tree under construction, as far as they are known. -/
def boundaries (p : Path) : List Boundary := openBoundaries (p.current :: p.above)

/-- The open constructs, innermost first. -/
def openings (p : Path) : List Opening := (p.current :: p.above).filterMap fun o => o.node.opening?

variable {p p' : Path} {o : OpenNode} {os : List OpenNode}

/-- A path with an open node below the root. -/
theorem pop?_of_above (h : p.above = o :: os) : p.pop? = some (p.current.toTree, { current := o, above := os }) := by
  unfold pop?
  rw [h]

theorem close?_of_above (h : p.above = o :: os) :
    p.close?.getD p = { current := { o with children := o.children.push p.current.toTree }, above := os } := by
  unfold close?
  rw [pop?_of_above h]
  rfl

/-- Only what the open nodes were made from, what they mean and their children count. -/
theorem boundaries_same (h : Forall₂ OpenNode.Same (p.current :: p.above) (p'.current :: p'.above)) :
    p'.boundaries = p.boundaries := by
  unfold boundaries
  generalize p.current :: p.above = os at h
  generalize p'.current :: p'.above = os' at h
  induction h with
  | nil => rfl
  | cons hnode _ ih =>
    unfold openBoundaries
    rw [ih, starts_congr hnode.kind hnode.symbol, isDefinition_congr hnode.kind, hnode.children]

/-- Changing the current node in what does not concern its boundaries. -/
theorem boundaries_mapCurrent (p : Path) {f : Node → Node} (hkind : (f p.current.node).kind = p.current.node.kind)
    (hsymbol : (f p.current.node).symbol? = p.current.node.symbol?) : (p.mapCurrent f).boundaries = p.boundaries := by
  unfold boundaries mapCurrent openBoundaries
  simp only [starts_congr hkind hsymbol, isDefinition_congr hkind]

theorem boundaries_enter (p : Path) (n : Node) : (p.enter n).boundaries = p.boundaries ++ n.starts := by
  simp [boundaries, enter, openBoundaries, Forest.boundaries]

theorem boundaries_attach (p : Path) (t : Tree) :
    (p.attach t).boundaries = p.boundaries ++ (Forest.ofTree t).boundaries p.current.node.isDefinition := by
  simp [boundaries, attach, openBoundaries, boundaries_push]

theorem boundaries_leaf (p : Path) {n : Node} (hopening : n.opening? = none)
    (hdef : n.isDefinition = false ∨ n.kind.isParameter = true) : (p.leaf n).boundaries = p.boundaries := by
  have hends : ∀ inside, n.ends inside = [] := by
    intro inside
    unfold Node.ends
    rw [hopening]
    rcases hdef with h | h <;> simp [h]
  unfold leaf
  rw [boundaries_attach, boundaries_ofTree, starts_of_other hopening, hends]
  simp [Forest.boundaries]

/-- Closing a node adds its end. -/
theorem boundaries_close (h : p.above = o :: os) :
    (p.close?.getD p).boundaries = p.boundaries ++ p.current.node.ends o.node.isDefinition := by
  rw [close?_of_above h]
  simp [boundaries, openBoundaries, h, boundaries_push, boundaries_ofTree, OpenNode.toTree]

/-- The boundaries of the open nodes around the current one come first. -/
theorem boundaries_eq (h : p.above = o :: os) : p.boundaries = ({ current := o, above := os } : Path).boundaries ++
      (p.current.node.starts ++ p.current.children.boundaries p.current.node.isDefinition) := by
  simp [boundaries, openBoundaries, h]

/-- A tree of which only the root is open has all its boundaries. -/
theorem boundaries_toTree (hkind : p.current.node.kind = .sourceFile) (habove : p.above = []) : p.toTree.boundaries = p.boundaries := by
  have hopening : p.current.node.opening? = none := by
    unfold Node.opening?
    rw [hkind]
    rfl
  have hdef : p.current.node.isDefinition = false := Node.isDefinition_of_kind hkind
  unfold Tree.boundaries toTree boundaries
  rw [habove, boundaries_ofTree]
  simp [openBoundaries, OpenNode.toTree, ends_of_other hopening hdef]

end Path

/-- What one more boundary does to the open constructs, innermost first. -/
def Boundary.apply (os : List Opening) : Boundary → List Opening
  | .start o => o :: os
  | .finish => os.tail
  | .record _ => os

/-- The constructs that are open after some boundaries, innermost first. -/
def openAfter (es : List Boundary) : List Opening := es.foldl Boundary.apply []

section OpenAfter

variable (es : List Boundary)

@[simp] theorem openAfter_append (e : Boundary) : openAfter (es ++ [e]) = e.apply (openAfter es) := by simp [openAfter]

/-- The innermost program or procedure after some boundaries. -/
def scopeAfter : Option SymbolId := (scopeSymbols (openAfter es)).head?

variable {es}

/-- What is open has been started where only that is open which is around it. -/
theorem started_of_openAfter {inner outer : List Opening} {o : Opening} (h : openAfter es = inner ++ o :: outer) :
    ∃ before after, es = before ++ .start o :: after ∧ openAfter before = outer := by
  induction es using List.reverseRecOn generalizing inner with
  | nil => exact absurd (eq_nil_of_append_eq_nil h.symm).2 nofun
  | append_singleton es e ih =>
    have hearlier : (∃ inner, openAfter es = inner ++ o :: outer) →
        ∃ before after, es ++ [e] = before ++ .start o :: after ∧ openAfter before = outer := by
      rintro ⟨inner, hes⟩
      obtain ⟨before, after, rfl, hbefore⟩ := ih hes
      exact ⟨before, after ++ [e], by simp, hbefore⟩
    rw [openAfter_append] at h
    cases e with
    | record symbol => exact hearlier ⟨inner, h⟩
    | finish =>
      cases hopen : openAfter es with
      | nil =>
        rw [hopen] at h
        exact absurd (eq_nil_of_append_eq_nil h.symm).2 nofun
      | cons last rest =>
        rw [hopen] at h
        exact hearlier ⟨last :: inner, by rw [hopen, cons_append]; exact congrArg _ h⟩
    | start started =>
      cases inner with
      | nil =>
        obtain ⟨rfl, hrest⟩ := List.cons.inj h
        exact ⟨es, [], rfl, hrest⟩
      | cons first inner => exact hearlier ⟨inner, (List.cons.inj h).2⟩

end OpenAfter

section Places

/-- Whether the boundary is the end of a construct. -/
def Boundary.isFinish : Boundary → Bool
  | .finish => true
  | _ => false

/-- Where the constructs and the records of a forest stand: each with the constructs around it, innermost first. -/
def Forest.places (around : List Opening) (inside : Bool) : Forest → List (List Opening × Boundary)
  | .nil => []
  | .cons node children siblings =>
    node.starts.map (around, ·) ++ children.places (node.opening?.toList ++ around) node.isDefinition ++
      ((node.ends inside).filter (!·.isFinish)).map (around, ·) ++ siblings.places around inside

/-- Where the constructs and the records of a tree stand. -/
def Tree.places (t : Tree) : List (List Opening × Boundary) := (Forest.ofTree t).places [] false

/-- Where constructs start and records end, told by the boundaries before. -/
def placesFrom (around : List Opening) : List Boundary → List (List Opening × Boundary)
  | [] => []
  | e :: es => (if e.isFinish then [] else [(around, e)]) ++ placesFrom (e.apply around) es

theorem placesFrom_append (around : List Opening) (es es' : List Boundary) :
    placesFrom around (es ++ es') = placesFrom around es ++ placesFrom (es.foldl Boundary.apply around) es' := by
  induction es generalizing around with
  | nil => rfl
  | cons e es ih => simp [placesFrom, ih]

/-- What starts in a forest ends in it. -/
theorem Forest.foldl_boundaries (f : Forest) (inside : Bool) (around : List Opening) :
    (f.boundaries inside).foldl Boundary.apply around = around := by
  induction f generalizing inside around with
  | nil => rfl
  | cons node children siblings ihChildren ihSiblings =>
    rw [boundaries, foldl_append, foldl_append, foldl_append, ihChildren, ihSiblings]
    cases hopening : node.opening? with
    | some o =>
      rw [starts_of_opening hopening, ends_of_opening hopening]
      rfl
    | none =>
      rw [starts_of_other hopening]
      rcases ends_cases hopening with hends | hends <;> rw [hends] <;> rfl

/-- The constructs that are open after the boundaries of a path are those of its open nodes. -/
theorem Path.openAfter_boundaries (p : Path) : openAfter p.boundaries = p.openings := by
  unfold boundaries openings
  generalize p.current :: p.above = os
  induction os with
  | nil => rfl
  | cons o os ih =>
    have houter : (openBoundaries os).foldl Boundary.apply [] = _ := ih
    rw [openBoundaries, openAfter, foldl_append, foldl_append, Forest.foldl_boundaries, houter, filterMap_cons]
    cases hopening : o.node.opening? with
    | none =>
      rw [starts_of_other hopening]
      rfl
    | some opening =>
      rw [starts_of_opening hopening]
      rfl

theorem Path.openings_congr {p p' : Path} (h : p'.boundaries = p.boundaries) : p'.openings = p.openings := by
  rw [← openAfter_boundaries, h, openAfter_boundaries]

/-- The boundaries tell where the constructs and the records of a forest stand. -/
theorem Forest.placesFrom_boundaries (f : Forest) (inside : Bool) (around : List Opening) :
    placesFrom around (f.boundaries inside) = f.places around inside := by
  induction f generalizing inside around with
  | nil => rfl
  | cons node children siblings ihChildren ihSiblings =>
    simp only [boundaries, placesFrom_append, foldl_append, foldl_boundaries, ihChildren, ihSiblings, places]
    cases hopening : node.opening? with
    | some o =>
      rw [starts_of_opening hopening, ends_of_opening hopening]
      rfl
    | none =>
      rw [starts_of_other hopening]
      rcases ends_cases hopening with hends | hends <;> rw [hends] <;> rfl

/-- Where a construct starts or a record ends, that is open which is around it. -/
theorem Tree.mem_places {t : Tree} {before after : List Boundary} {e : Boundary} (he : e.isFinish = false)
    (h : t.boundaries = before ++ e :: after) : (openAfter before, e) ∈ t.places := by
  unfold places
  rw [← placesFrom_boundaries]
  have hsplit : (Forest.ofTree t).boundaries false = before ++ e :: after := h
  rw [hsplit, placesFrom_append, placesFrom, he]
  exact mem_append_right _ (mem_append_left _ (mem_singleton_self _))

end Places

/-- How sections of some sort are kept track of: what is kept when a construct has started, if it changes that, and the
constructs that leave nothing kept when they end. -/
structure Sectioning (α : Type) where
  opened : Opening → Option (Option α)
  ended : Construct → Bool
  /-- A construct that opens a section ends it. -/
  sound : ∀ o value, opened o = some (some value) → ended o.construct = true

/-- The sections of the procedure division, told by their symbols. Procedures do not change the section that is kept until
they end. -/
def headings : Sectioning SymbolId where
  opened o :=
    match o.construct with
    | .program => some none
    | .heading => some o.symbol
    | _ => none
  ended
    | .program | .procedure | .heading => true
    | _ => false
  sound o value h := by
    cases hconstruct : o.construct <;> simp [hconstruct] at h ⊢

/-- The sections of the data division. Procedures do not change the section that is kept until they end. -/
def storages : Sectioning StorageSection where
  opened o :=
    match o.construct with
    | .program | .procedureDivision => some none
    | .storage kept => some (some kept)
    | _ => none
  ended
    | .program | .procedure | .storage _ => true
    | _ => false
  sound o value h := by
    cases hconstruct : o.construct <;> simp [hconstruct] at h ⊢

namespace Sectioning

variable {α : Type} (k : Sectioning α) {es : List Boundary}

/-- What one more boundary does to the section that is kept, where some constructs are open. -/
def next (os : List Opening) (kept : Option α) : Boundary → Option α
  | .start o => (k.opened o).getD kept
  | .finish => if os.head?.any fun o => k.ended o.construct then none else kept
  | .record _ => kept

/-- The section that is kept after some boundaries. -/
def current (es : List Boundary) : Option α :=
  (es.foldl (fun (os, kept) e => (e.apply os, k.next os kept e)) ([], none)).2

/-- The section around what stands in some constructs: the nearest one in the same program or procedure. -/
def nearest : List Opening → Option α
  | [] => none
  | o :: os => if k.ended o.construct then (k.opened o).getD none else nearest os

/-- Whether a boundary starts a construct that changes the section that is kept, at its start or at its end. -/
def changes : Boundary → Bool
  | .start o => k.ended o.construct || (k.opened o).isSome
  | _ => false

/-- Nothing that changes a section stands in one. -/
def Flat (es : List Boundary) : Prop := ∀ place ∈ placesFrom [] es, k.changes place.2 = true → k.nearest place.1 = none

instance (es : List Boundary) : Decidable (k.Flat es) :=
  inferInstanceAs (Decidable (∀ place ∈ placesFrom [] es, k.changes place.2 = true → k.nearest place.1 = none))

@[simp] theorem current_nil : k.current [] = none := rfl

@[simp] theorem current_append (es : List Boundary) (e : Boundary) :
    k.current (es ++ [e]) = k.next (openAfter es) (k.current es) e := by
  have hopen : ∀ (es : List Boundary) (os : List Opening) (kept : Option α),
      (es.foldl (fun (os, kept) e => (Boundary.apply os e, k.next os kept e)) (os, kept)).1 = es.foldl Boundary.apply os := by
    intro es
    induction es with
    | nil => exact fun _ _ => rfl
    | cons e es ih => exact fun os kept => ih (e.apply os) (k.next os kept e)
  unfold current
  rw [foldl_append]
  simp only [foldl_cons, foldl_nil]
  rw [hopen, openAfter]

/-- In all the constructs that are open, nothing that changes a section stands in one. -/
def FlatIn : List Opening → Prop
  | [] => True
  | o :: os => (k.changes (.start o) = true → k.nearest os = none) ∧ FlatIn os

variable {k}

theorem nearest_cons (o : Opening) (os : List Opening) :
    k.nearest (o :: os) = if k.ended o.construct then (k.opened o).getD none else k.nearest os := rfl

theorem Flat.of_append {e : Boundary} (h : k.Flat (es ++ [e])) :
    k.Flat es ∧ (k.changes e = true → k.nearest (openAfter es) = none) := by
  unfold Flat at h
  rw [placesFrom_append] at h
  refine ⟨fun place hplace => h place (mem_append_left _ hplace), fun hchanges => ?_⟩
  refine h (openAfter es, e) (mem_append_right _ ?_) hchanges
  cases e with
  | start o => exact mem_singleton_self _
  | finish | record => cases hchanges

/-- Where nothing that changes a section stands in one, the section that is kept is the section around. -/
theorem Flat.current_eq (h : k.Flat es) : k.FlatIn (openAfter es) ∧ k.current es = k.nearest (openAfter es) := by
  induction es using List.reverseRecOn with
  | nil => exact ⟨trivial, rfl⟩
  | append_singleton es e ih =>
    obtain ⟨hflat, hcurrent⟩ := ih h.of_append.1
    rw [openAfter_append, current_append, hcurrent]
    cases e with
    | record symbol => exact ⟨hflat, rfl⟩
    | start o =>
      have houter := h.of_append.2
      refine ⟨⟨houter, hflat⟩, ?_⟩
      rw [next, Boundary.apply, nearest_cons]
      cases hended : k.ended o.construct with
      | true => rw [houter (by rw [changes, hended, Bool.true_or]), if_pos rfl]
      | false =>
        rw [if_neg Bool.false_ne_true]
        cases hopened : k.opened o with
        | none => rfl
        | some value =>
          rw [houter (by rw [changes, hopened, Option.isSome_some, Bool.or_true])]
          cases value with
          | none => rfl
          | some value => exact absurd ((k.sound o value hopened).symm.trans hended) nofun
    | finish =>
      rw [next, Boundary.apply]
      cases hopen : openAfter es with
      | nil => exact ⟨trivial, rfl⟩
      | cons o os =>
        rw [hopen] at hflat
        refine ⟨hflat.2, ?_⟩
        rw [head?_cons, Option.any_some, tail_cons, nearest_cons]
        cases hended : k.ended o.construct with
        | true => exact (hflat.1 (by rw [changes, hended, Bool.true_or])).symm
        | false => rfl

end Sectioning

end CobolSymbols
