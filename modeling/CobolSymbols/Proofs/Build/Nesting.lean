import CobolSymbols.Proofs.Build.Records

/-!
# Well-nested events

Events open and close programs, divisions, sections and the like. They are well nested when every end closes what has been
opened last and nothing stays open. Data entries have no ends and are not looked at.

While well-nested events are read, the open nodes of the tree are the open constructs with data entries in between.
`Tracked` says what holds of the children of the open nodes meanwhile: below an open data entry everything waits, and
below any other open node everything is settled.
-/

set_option autoImplicit false

namespace CobolSymbols

open Forest

/-- What has a start and an end. -/
inductive Construct where
  | program
  | dataDivision
  | storage (storage : StorageSection)
  | file
  | procedureDivision
  | declaratives
  | procedure
  | heading
  | paragraph
deriving DecidableEq

/-- What an event opens. -/
def Event.opens : Event → Option Construct
  | .startProgram _ => some .program
  | .startDataDivision _ => some .dataDivision
  | .startStorage storage _ => some (.storage storage)
  | .startFile _ => some .file
  | .startProcedureDivision _ => some .procedureDivision
  | .startDeclaratives _ => some .declaratives
  | .startProcedure _ => some .procedure
  | .startSection _ => some .heading
  | .startParagraph _ => some .paragraph
  | _ => none

/-- What an event closes. -/
def Event.closes : Event → Option Construct
  | .endProgram _ => some .program
  | .endDataDivision => some .dataDivision
  | .endStorage storage => some (.storage storage)
  | .endFile => some .file
  | .endProcedureDivision => some .procedureDivision
  | .endDeclaratives => some .declaratives
  | .endProcedure => some .procedure
  | .endSection => some .heading
  | .endParagraph => some .paragraph
  | _ => none

/-- The open constructs after an event, innermost first; an end must close the innermost one. -/
def nest (opened : List Construct) (event : Event) : Option (List Construct) :=
  match event.opens, event.closes with
  | some construct, _ => some (construct :: opened)
  | none, some construct => if opened.head? = some construct then some opened.tail else none
  | none, none => some opened

/-- Every end closes what has been opened last, and nothing stays open. -/
def WellNested (events : List Event) : Prop := events.foldlM nest [] = some []

instance (events : List Event) : Decidable (WellNested events) :=
  inferInstanceAs (Decidable (events.foldlM nest [] = some []))

/-- The construct that a node stands for. -/
def NodeKind.construct? : NodeKind → Option Construct
  | .program _ => some .program
  | .dataDivision _ => some .dataDivision
  | .storage kept _ => some (.storage kept)
  | .file _ => some .file
  | .procedureDivision _ => some .procedureDivision
  | .declaratives _ => some .declaratives
  | .procedure _ => some .procedure
  | .heading _ => some .heading
  | .paragraph _ => some .paragraph
  | _ => none

/-- Whether the innermost construct lies in a program. -/
def insideProgram (cs : List Construct) : Bool := cs.contains .program

/-- What holds of the children of an open node, whatever it is. -/
structure OpenNode.Kept (o : OpenNode) (t : Table) : Prop where
  names : o.children.indexNames = o.node.kind.indexNames
  indexed : o.children.Indexed
  realized : o.children.Realized t

/-- The open nodes, innermost first, follow the open constructs. -/
inductive Tracked (t : Table) : List OpenNode → List Construct → Prop
  | root {o : OpenNode} (hkind : o.node.kind = .sourceFile) (hsettled : o.children.Settled false .outside)
      (hkept : o.Kept t) : Tracked t [o] []
  | definition {o : OpenNode} {os : List OpenNode} {cs : List Construct} (hdefinition : o.node.isDefinition = true)
      (hsymbol : o.node.symbol? = none) (hwaiting : o.children.Waiting (insideProgram cs)) (hkept : o.Kept t)
      (h : Tracked t os cs) : Tracked t (o :: os) cs
  | construct {o : OpenNode} {os : List OpenNode} {c : Construct} {cs : List Construct}
      (hkind : o.node.kind.construct? = some c) (hsettled : o.children.Settled (insideProgram (c :: cs)) .outside)
      (hkept : o.Kept t) (h : Tracked t os cs) : Tracked t (o :: os) (c :: cs)

section Tracked

variable {t t' : Table} {o : OpenNode} {os : List OpenNode} {cs : List Construct} {c : Construct} {k : NodeKind}
  {tree : Tree} {o' : OpenNode}

theorem OpenNode.Kept.preserves (h : o.Kept t) (hpres : t.Preserves t') : o.Kept t' :=
  ⟨h.names, h.indexed, h.realized.keep fun id _ => hpres.view id⟩

/-- Open nodes stay tracked as long as the items stay connected as they are. -/
theorem Tracked.preserves (h : Tracked t os cs) (hpres : t.Preserves t') : Tracked t' os cs := by
  induction h with
  | root hkind hsettled hkept => exact .root hkind hsettled (hkept.preserves hpres)
  | definition hdef hsymbol hwaiting hkept _ ih =>
    exact .definition hdef hsymbol hwaiting (hkept.preserves hpres) ih
  | construct hkind hsettled hkept _ ih => exact .construct hkind hsettled (hkept.preserves hpres) ih

section

variable (h : k.construct? = some c)
include h

/-- A node is a construct, declares data or does neither. -/
theorem NodeKind.isDefinition_of_construct? : k.isDefinition = false := by
  cases k <;> simp [construct?] at h <;> rfl

theorem NodeKind.index?_of_construct? : k.index? = none := by
  cases k <;> simp [construct?] at h <;> rfl

theorem NodeKind.indexNames_of_construct? : k.indexNames = [] := by
  cases k <;> simp [construct?] at h <;> rfl

theorem NodeKind.isProgram_of_construct? : k.isProgram = (c == .program) := by
  cases k <;> simp [construct?] at h <;> subst h <;> rfl

end

/-- A tree that becomes the last child of the innermost open node. -/
structure Fitting (t : Table) (inside : Bool) (definition : Bool) (tree : Tree) : Prop where
  index : tree.node.kind.index? = none
  indexed : (Forest.ofTree tree).Indexed
  realized : (Forest.ofTree tree).Realized t
  waiting : definition = true → (Forest.ofTree tree).Waiting inside
  settled : definition = false → (Forest.ofTree tree).Settled inside .outside

theorem OpenNode.Kept.attach (h : o.Kept t) (hindex : tree.node.kind.index? = none)
    (hindexed : (Forest.ofTree tree).Indexed) (hrealized : (Forest.ofTree tree).Realized t) :
    ({ o with children := o.children.push tree } : OpenNode).Kept t where
  names := by
    have hnone : (Forest.ofTree tree).indexNames = [] := by simp [Forest.ofTree, Forest.indexNames, Forest.roots, hindex]
    simp only [Forest.push, indexNames_append, hnone, List.append_nil, h.names]
  indexed := indexed_append.mpr ⟨h.indexed, hindexed⟩
  realized := realized_append.mpr ⟨h.realized, hrealized⟩

theorem Tracked.attach (h : Tracked t (o :: os) cs) (hfits : Fitting t (insideProgram cs) o.node.isDefinition tree) :
    Tracked t ({ o with children := o.children.push tree } :: os) cs := by
  cases h with
  | root hkind hsettled hkept =>
    have hdef : o.node.isDefinition = false := Node.isDefinition_of_kind hkind
    exact .root hkind (settled_append.mpr ⟨hsettled, hfits.settled hdef⟩)
      (hkept.attach hfits.index hfits.indexed hfits.realized)
  | definition hdef hsymbol hwaiting hkept hos =>
    exact .definition hdef hsymbol (waiting_append.mpr ⟨hwaiting, hfits.waiting hdef⟩)
      (hkept.attach hfits.index hfits.indexed hfits.realized) hos
  | construct hkind hsettled hkept hos =>
    have hdef : o.node.isDefinition = false := NodeKind.isDefinition_of_construct? hkind
    exact .construct hkind (settled_append.mpr ⟨hsettled, hfits.settled hdef⟩)
      (hkept.attach hfits.index hfits.indexed hfits.realized) hos

theorem insideProgram_cons (c : Construct) (cs : List Construct) :
    insideProgram (c :: cs) = (insideProgram cs || c == .program) := by
  unfold insideProgram
  rw [List.contains_cons, Bool.or_comm, Bool.beq_comm]

/-- Closing a construct makes it the last child of the node around it. -/
theorem Tracked.close_construct (h : Tracked t (o :: o' :: os) (c :: cs)) (hdef : o.node.isDefinition = false) :
    Tracked t ({ o' with children := o'.children.push o.toTree } :: os) cs := by
  cases h with
  | definition hdef' =>
    rw [hdef] at hdef'
    cases hdef'
  | construct hkind hsettled hkept hos =>
    have hindex := NodeKind.index?_of_construct? hkind
    have hinside : insideProgram (c :: cs) = (insideProgram cs || o.node.kind.isProgram) := by
      rw [insideProgram_cons, NodeKind.isProgram_of_construct? hkind]
    rw [hinside] at hsettled
    have hnot : ¬ o.toTree.node.isDefinition = true := by simp [OpenNode.toTree, hdef]
    refine hos.attach ⟨hindex, ⟨hkept.names, hkept.indexed, trivial⟩, ⟨fun h => absurd h hnot, hkept.realized, trivial⟩,
      fun _ => ⟨?_, trivial⟩, fun _ => ⟨?_, trivial⟩⟩
    · have hnone : o.toTree.node.kind.index?.isSome = true → o.toTree.node.symbol? = none := by
        intro hsome
        rw [show o.toTree.node.kind.index? = none from hindex] at hsome
        cases hsome
      rw [if_neg hnot]
      exact ⟨hnone, hsettled⟩
    · rw [if_neg hnot]
      exact hsettled

/-- What an open data entry is when it is closed. -/
theorem Tracked.top_definition (h : Tracked t (o :: os) cs) (hdef : o.node.isDefinition = true) :
    Tracked t os cs ∧ (Forest.ofTree o.toTree).Waiting (insideProgram cs) ∧ (Forest.ofTree o.toTree).Indexed ∧
      (Forest.ofTree o.toTree).Realized t := by
  cases h with
  | root hkind => simp [Node.isDefinition, Node.definition?, NodeKind.definition?, hkind] at hdef
  | construct hkind =>
    have hnot : o.node.isDefinition = false := NodeKind.isDefinition_of_construct? hkind
    rw [hnot] at hdef
    cases hdef
  | definition _ hsymbol hwaiting hkept hos =>
    refine ⟨hos, ⟨?_, trivial⟩, ⟨hkept.names, hkept.indexed, trivial⟩, ⟨fun _ id hid => ?_, hkept.realized, trivial⟩⟩
    · have hpos : o.toTree.node.isDefinition = true := hdef
      rw [if_pos hpos]
      exact ⟨hsymbol, hwaiting⟩
    · rw [show o.toTree.node.symbol? = none from hsymbol] at hid
      cases hid

/-- A data entry inside another one is closed with the record. -/
theorem Tracked.close_definition (h : Tracked t (o :: o' :: os) cs)
    (hdef : o.node.isDefinition = true) (hdef' : o'.node.isDefinition = true) :
    Tracked t ({ o' with children := o'.children.push o.toTree } :: os) cs := by
  obtain ⟨hos, hwaiting, hindexed, hrealized⟩ := h.top_definition hdef
  refine hos.attach ⟨index?_eq_none_of_isDefinition hdef, hindexed, hrealized, fun _ => hwaiting, ?_⟩
  intro hnot
  rw [hdef'] at hnot
  cases hnot

theorem Tracked.enter_construct (h : Tracked t os cs) {node : Node} (hkind : node.kind.construct? = some c) :
    Tracked t ({ node } :: os) (c :: cs) := by
  refine .construct hkind trivial ⟨?_, trivial, trivial⟩ h
  rw [NodeKind.indexNames_of_construct? hkind]
  rfl

/-- Open nodes that differ only in their flags. -/
structure OpenNode.Same (o o' : OpenNode) : Prop where
  kind : o'.node.kind = o.node.kind
  symbol : o'.node.symbol? = o.node.symbol?
  children : o'.children = o.children

theorem OpenNode.Same.refl (o : OpenNode) : o.Same o := ⟨rfl, rfl, rfl⟩

theorem OpenNode.Same.kept (hsame : o.Same o') (h : o.Kept t) : o'.Kept t := by
  obtain ⟨hnames, hindexed, hrealized⟩ := h
  rw [← hsame.children] at hnames hindexed hrealized
  exact ⟨hsame.kind ▸ hnames, hindexed, hrealized⟩

theorem OpenNode.Same.symbols {o : OpenNode} (h : o.Same o') :
    o'.nodes.filterMap Node.symbol? = o.nodes.filterMap Node.symbol? := by
  unfold OpenNode.nodes
  rw [List.filterMap_cons, List.filterMap_cons, h.symbol, h.children]

/-- Flags do not count. -/
theorem Tracked.same {os' : List OpenNode} (h : Tracked t os cs) (hsame : List.Forall₂ OpenNode.Same os os') :
    Tracked t os' cs := by
  induction h generalizing os' with
  | root hkind hsettled hkept =>
    cases hsame with
    | cons hnode hrest =>
      cases hrest
      exact .root (hnode.kind.trans hkind) (hnode.children ▸ hsettled) (hnode.kept hkept)
  | definition hdef hsymbol hwaiting hkept _ ih =>
    cases hsame with
    | cons hnode hrest =>
      exact .definition ((isDefinition_congr hnode.kind).trans hdef) (hnode.symbol.trans hsymbol)
        (hnode.children ▸ hwaiting) (hnode.kept hkept) (ih hrest)
  | construct hkind hsettled hkept _ ih =>
    cases hsame with
    | cons hnode hrest =>
      exact .construct ((congrArg NodeKind.construct? hnode.kind).trans hkind) (hnode.children ▸ hsettled)
        (hnode.kept hkept) (ih hrest)

/-- A construct can be given a meaning and other children. -/
theorem Tracked.set_construct (h : Tracked t (o :: os) (c :: cs)) (hkind : o.node.kind.construct? = some c)
    (hnode : o'.node.kind = o.node.kind) (hsettled : o'.children.Settled (insideProgram (c :: cs)) .outside)
    (hkept : o'.Kept t) : Tracked t (o' :: os) (c :: cs) := by
  cases h with
  | definition hdef =>
    rw [show o.node.isDefinition = false from NodeKind.isDefinition_of_construct? hkind] at hdef
    cases hdef
  | construct _ _ _ hos => exact .construct ((congrArg NodeKind.construct? hnode).trans hkind) hsettled hkept hos

end Tracked

end CobolSymbols
