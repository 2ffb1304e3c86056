import CobolSymbols.Proofs.Build.Openings

/-!
# The tree and the table while well-nested events are read

Every event keeps the open nodes tracked, no two nodes with the same symbol, and the open programs and procedures those of
the open constructs. So when everything is closed, the whole tree is settled.
-/

set_option autoImplicit false

namespace CobolSymbols

open Declarations Forest List OpenNode Path

namespace Path

variable {n : Node} {p : Path} {o : OpenNode} {os : List OpenNode}

/-- The symbols that the nodes of the tree under construction mean. -/
def symbols (p : Path) : List SymbolId := p.nodes.filterMap Node.symbol?

theorem symbols_enter (p : Path) (h : n.symbol? = none) : (p.enter n).symbols = p.symbols := by
  simp [symbols, h]

theorem symbols_leaf (p : Path) (h : n.symbol? = none) : (p.leaf n).symbols = p.symbols := by
  simp [symbols, h]

theorem symbols_attach (p : Path) (tree : Tree) : (p.attach tree).symbols = p.symbols ++ (Forest.ofTree tree).symbols := by
  simp [symbols, Forest.symbols, Tree.nodes]

theorem symbols_close (p : Path) : (p.close?.getD p).symbols = p.symbols := by
  unfold symbols
  rw [close?_nodes]

/-- The symbols of the nodes around the current one come first. -/
theorem symbols_eq (p : Path) :
    p.symbols = (p.above.reverse.flatMap OpenNode.nodes).filterMap Node.symbol? ++
      (p.current.node.symbol?.toList ++ p.current.children.symbols) := by
  unfold symbols nodes OpenNode.nodes Forest.symbols
  rw [filterMap_append, filterMap_cons]
  cases p.current.node.symbol? <;> rfl

/-- Changing the current node without what it means. -/
theorem symbols_mapCurrent (p : Path) {f : Node → Node} (h : ∀ n, (f n).symbol? = n.symbol?) :
    (p.mapCurrent f).symbols = p.symbols := by
  simp [symbols, nodes, mapCurrent, OpenNode.nodes, filterMap_cons, h]

end Path

/-- The open constructs are those of the open nodes. -/
theorem Tracked.constructs {t : Table} {os : List OpenNode} {cs : List Construct} (h : Tracked t os cs) :
    (os.filterMap fun o => o.node.opening?).map Opening.construct = cs := by
  induction h with
  | @root o hkind =>
    have hnone : o.node.opening? = none := by
      unfold Node.opening?
      rw [hkind]
      rfl
    rw [filterMap_cons, hnone]
    rfl
  | definition hdef _ _ _ _ ih => rw [filterMap_cons, Node.opening?_of_definition hdef, ih]
  | construct hkind _ _ _ ih => rw [filterMap_cons, Node.opening?_of_construct hkind, map_cons, ih]

namespace Build

open Declarations (Step Steps SameStack)

/-- The open nodes are tracked, and every symbol that a node means exists and is meant by no other node. -/
structure Shaped (b : Build) (cs : List Construct) : Prop where
  tracked : Tracked b.declarations.table (b.path.current :: b.path.above) cs
  nodup : b.path.symbols.Nodup
  lt : ∀ id ∈ b.path.symbols, id < b.declarations.table.size

/-- What holds between two events that are well nested. -/
structure Tracks (b : Build) (cs : List Construct) : Prop extends Shaped b cs where
  stacked : b.Stacked
  ready : ∃ base, b.declarations.Ready base

section Primitives

variable {b b' : Build} {cs cs' : List Construct} {c : Construct} {d : Declarations} {o : OpenNode} {os : List OpenNode}
  {kind : NodeKind} {entered : Build}

/-- The open nodes change, and no node means another symbol. -/
theorem Shaped.of_symbols (h : b.Shaped cs) (hsymbols : b'.path.symbols = b.path.symbols)
    (hsize : b.declarations.table.size ≤ b'.declarations.table.size)
    (htracked : Tracked b'.declarations.table (b'.path.current :: b'.path.above) cs') : b'.Shaped cs' := by
  refine ⟨htracked, ?_, ?_⟩
  · rw [hsymbols]
    exact h.nodup
  · rw [hsymbols]
    exact fun id hid => (h.lt id hid).trans_le hsize

theorem Shaped.congr (h : b.Shaped cs) (hpath : b'.path = b.path)
    (htable : b'.declarations.table = b.declarations.table) : b'.Shaped cs := by
  refine h.of_symbols (by rw [hpath]) (by rw [htable]) ?_
  rw [hpath, htable]
  exact h.tracked

/-- Steps of the declarations keep the tree as it is. -/
theorem Shaped.step (h : b.Shaped cs) (hready : ∃ base, b.declarations.Ready base)
    (hstep : Step b.declarations d) : (b.mapDeclarations fun _ => d).Shaped cs := by
  obtain ⟨base, hready⟩ := hready
  have hpres := hstep.preserves hready
  exact h.of_symbols rfl hpres.size_le (h.tracked.preserves hpres)

/-- Below a construct there is always a node. -/
theorem Shaped.above_of_construct (h : b.Shaped (c :: cs)) :
    ∃ o os, b.path.above = o :: os ∧ Tracked b.declarations.table (b.path.current :: o :: os) (c :: cs) := by
  have htracked := h.tracked
  cases habove : b.path.above with
  | nil =>
    rw [habove] at htracked
    cases htracked with
    | definition _ _ _ _ hos => cases hos
    | construct _ _ _ hos => cases hos
  | cons o os => exact ⟨o, os, rfl, habove ▸ htracked⟩

/-- A construct is closed. -/
theorem Shaped.exit (h : b.Shaped (c :: cs)) (hcurrent : b.current.isDefinition = false) : b.exit.Shaped cs := by
  obtain ⟨o, os, habove, htracked⟩ := h.above_of_construct
  have hpath : b.exit.path = _ := close?_of_above habove
  refine h.of_symbols (symbols_close b.path) le_rfl ?_
  rw [hpath]
  exact htracked.close_construct hcurrent

/-- A path is its innermost open node on top of the rest. -/
theorem symbols_of_above {p : Path} (h : p.above = o :: os) :
    p.symbols = ({ current := o, above := os } : Path).symbols ++ (Forest.ofTree p.current.toTree).symbols := by
  unfold Path.symbols
  rw [pop?_nodes (pop?_of_above h), filterMap_append]
  rfl

/-- Below a data entry there is always a node. -/
theorem Shaped.above_of_definition (h : b.Shaped cs) (hdef : b.current.isDefinition = true) :
    ∃ o os, b.path.above = o :: os := by
  obtain ⟨hos, -⟩ := h.tracked.top_definition hdef
  cases habove : b.path.above with
  | nil =>
    rw [habove] at hos
    cases hos
  | cons o os => exact ⟨o, os, rfl⟩

section

variable (h : b.Tracks cs)
include h

/-- Inside of a program there is a scope for new symbols. -/
theorem Tracks.currentScope (hinside : insideProgram cs = true) : b.declarations.currentScope ≠ none := by
  intro hnone
  have hscopes : b.declarations.scopes = [] := head?_eq_none_iff.mp hnone
  have hconstructs : b.path.openings.map Opening.construct = cs := h.tracked.constructs
  rw [h.stacked.scopes, h.stacked.anchored.scopeSymbols_eq_nil, hconstructs, hinside] at hscopes
  cases hscopes

/-- A record is made into symbols when it is closed. -/
theorem Tracks.closeRecord (hdef : b.current.isDefinition = true)
    (habove : b.path.above = o :: os) (hparent : o.node.isDefinition = false)
    (hpath : b'.path = ({ current := o, above := os } : Path).attach
      (b.declarations.declareRecord b.path.current.toTree).1)
    (hdecls : b'.declarations = (b.declarations.declareRecord b.path.current.toTree).2) : b'.Shaped cs := by
  have htracked := h.tracked
  rw [habove] at htracked
  obtain ⟨hos, hwaiting, hindexed, hrealized⟩ := htracked.top_definition hdef
  obtain ⟨base, hready⟩ := h.ready
  have hsymbols := symbols_of_above habove
  have hcomplete : b.declarations.Complete (insideProgram cs) (.ofTree b.path.current.toTree) := by
    refine ⟨hwaiting, hindexed, hrealized, fun id hid => h.lt id ?_⟩
    rw [hsymbols]
    exact mem_append_right _ hid
  have hconverted := declareRecord_converted hready h.currentScope b.path.current.toTree hdef hcomplete
  have hstep : Step b.declarations (b.declarations.declareRecord b.path.current.toTree).2 := .declareRecord _ _
  have hpres := hstep.preserves hready
  have hshape := declareRecord_shape b.declarations b.path.current.toTree
  generalize b.declarations.declareRecord b.path.current.toTree = made at hpath hdecls hconverted hstep hpres hshape
  obtain ⟨tree, d⟩ := made
  have hkind : tree.node.kind = b.path.current.node.kind := congrArg (fun t : Tree => t.node.kind) hshape
  have hgains := hconverted.gains.append_left ({ current := o, above := os } : Path).symbols
  rw [← hsymbols] at hgains
  have hfits : Fitting d.table (insideProgram cs) o.node.isDefinition tree := by
    refine ⟨?_, ?_, hconverted.realized, ?_, fun _ => hconverted.settled⟩
    · rw [hkind]
      exact index?_eq_none_of_isDefinition hdef
    · refine (indexed_congr ?_).mpr hindexed
      exact congrArg Forest.ofTree hshape
    · intro h
      rw [hparent] at h
      cases h
  refine ⟨?_, ?_, ?_⟩
  · rw [hpath, hdecls]
    exact (hos.preserves hpres).attach hfits
  · rw [hpath, symbols_attach]
    exact hgains.nodup h.nodup h.lt
  · rw [hpath, hdecls, symbols_attach]
    intro id hid
    rcases hgains.mem hid with hold | hnew
    · exact (h.lt id hold).trans_le hpres.size_le
    · exact hnew.2

theorem Tracks.exitDefinition_same (hdef : b.current.isDefinition = true) : SameOpen b b.exitDefinition := by
  obtain ⟨o, os, habove⟩ := h.above_of_definition hdef
  obtain ⟨base, hready⟩ := h.ready
  exact Build.exitDefinition_same hready hdef habove

theorem Tracks.exitDefinition (hdef : b.current.isDefinition = true) : b.exitDefinition.Tracks cs := by
  obtain ⟨o, os, habove⟩ := h.above_of_definition hdef
  have hready := (Act.exitDefinition b).steps.keep Step.ready h.ready
  refine { toShaped := ?_, stacked := h.stacked.same (h.exitDefinition_same hdef), ready := hready }
  rw [exitDefinition_of_above habove]
  by_cases hparent : o.node.isDefinition = true
  · rw [if_pos hparent]
    have htracked := h.tracked
    rw [habove] at htracked
    refine h.of_symbols ?_ le_rfl (htracked.close_definition hdef hparent)
    rw [symbols_attach, ← symbols_of_above habove]
  · rw [if_neg hparent]
    exact h.closeRecord hdef habove (by simpa using hparent) rfl rfl

end

theorem length_above_exitDefinition (b : Build) : b.exitDefinition.path.above.length = b.path.above.length - 1 := by
  cases habove : b.path.above with
  | nil =>
    unfold Build.exitDefinition Path.pop?
    simp [habove]
  | cons o os =>
    rw [exitDefinition_of_above habove]
    split <;> simp [Path.attach]

/-- Without a bound every open data entry is closed. -/
theorem closeWithin_current (steps : Nat) (b : Build) (h : b.Tracks cs) (hsteps : b.path.above.length ≤ steps) :
    (closeWithin none steps b).current.isDefinition = false := by
  induction steps generalizing b with
  | zero =>
    cases hdef : b.current.isDefinition with
    | false => exact hdef
    | true =>
      obtain ⟨o, os, habove⟩ := h.above_of_definition hdef
      rw [habove] at hsteps
      cases hsteps
  | succ steps ih =>
    unfold closeWithin
    split
    · rename_i hnone
      simp [Node.isDefinition, hnone]
    · rename_i definition hsome
      have hnone : ¬ (none : Option Level).any (definition.level < ·) = true := by simp
      rw [if_neg hnone]
      refine ih _ (h.exitDefinition (by simp [Node.isDefinition, hsome])) ?_
      rw [length_above_exitDefinition]
      omega

theorem symbol?_newNode (b : Build) (kind : NodeKind) : (b.newNode kind).symbol? = none := rfl

/-- A construct is opened. -/
theorem Shaped.enter (h : b.Shaped cs) (hkind : kind.construct? = some c) : (b.enter kind).Shaped (c :: cs) :=
  h.of_symbols (symbols_enter b.path (b.symbol?_newNode kind)) le_rfl (h.tracked.enter_construct hkind)

theorem symbols_same {os' : List OpenNode} (h : Forall₂ Same os os') (current : OpenNode) :
    ({ current, above := os' } : Path).symbols = ({ current, above := os } : Path).symbols := by
  have hlists : (os'.reverse.flatMap OpenNode.nodes).filterMap Node.symbol? =
      (os.reverse.flatMap OpenNode.nodes).filterMap Node.symbol? := by
    induction h with
    | nil => rfl
    | cons hnode _ ih => simp [ih, hnode.symbols]
  simp [Path.symbols, Path.nodes, hlists]

section

variable (h : b.Tracks cs)
include h

theorem Tracks.closeDefinitions (bound : Option Level) : (b.closeDefinitions bound).Tracks cs :=
  closeDefinitions_keep (P := (·.Tracks cs)) (fun hdef h => h.exitDefinition hdef) h bound

theorem Tracks.closeDefinitions_same (bound : Option Level) : SameOpen b (b.closeDefinitions bound) :=
  (closeDefinitions_keep (P := fun b' => b'.Tracks cs ∧ SameOpen b b')
    (fun hdef h => ⟨h.1.exitDefinition hdef, h.2.trans (h.1.exitDefinition_same hdef)⟩)
    ⟨h, SameOpen.refl b⟩ bound).2

theorem Tracks.closeDefinitions_current : (b.closeDefinitions none).current.isDefinition = false :=
  closeWithin_current _ b h le_rfl

end

section

variable (h : b.Shaped cs)
include h

/-- A node that declares no data and opens nothing is added. -/
theorem Shaped.leaf (hdef : kind.isDefinition = false)
    (hindex : kind.index? = none) (hnames : kind.indexNames = []) : (b.leaf kind).Shaped cs := by
  have hnot : ¬ (b.newNode kind).isDefinition = true := by
    have heq : (b.newNode kind).isDefinition = false := hdef
    simp [heq]
  have hfits : Fitting b.declarations.table (insideProgram cs) b.path.current.node.isDefinition ⟨b.newNode kind, .nil⟩ := by
    refine ⟨hindex, ⟨hnames.symm, trivial, trivial⟩, ⟨fun h => absurd h hnot, trivial, trivial⟩, fun _ => ⟨?_, trivial⟩,
      fun _ => ⟨?_, trivial⟩⟩
    · rw [if_neg hnot]
      exact ⟨fun _ => rfl, trivial⟩
    · rw [if_neg hnot]
      trivial
  exact h.of_symbols (symbols_leaf b.path (b.symbol?_newNode kind)) le_rfl (h.tracked.attach hfits)

theorem Shaped.markCurrent (flag : NodeFlag) : (b.markCurrent flag).Shaped cs := by
  refine h.of_symbols (symbols_mapCurrent b.path fun _ => rfl) le_rfl (h.tracked.same (.cons ⟨rfl, rfl, rfl⟩ ?_))
  exact forall₂_same.mpr fun o _ => Same.refl o

/-- A program around the current node is marked. -/
theorem Shaped.markProgram : b.markProgram.Shaped cs := by
  have hsame := mapFirst_same (·.kind.isProgram) .containsProcedure b.path.above
  exact h.of_symbols (symbols_same hsame b.path.current) le_rfl (h.tracked.same (.cons (Same.refl _) hsame))

end

/-- An open node that declares no data is the innermost construct. -/
theorem Shaped.current_construct (h : b.Shaped (c :: cs)) (hcurrent : b.current.isDefinition = false) :
    b.current.kind.construct? = some c ∧ ¬ b.path.atRoot = true := by
  obtain ⟨o, os, habove, htracked⟩ := h.above_of_construct
  cases htracked with
  | definition hdef =>
    have hnot : b.path.current.node.isDefinition = false := hcurrent
    rw [hnot] at hdef
    cases hdef
  | construct hkind => exact ⟨hkind, by simp [Path.atRoot, habove]⟩

/-- The test by which the end of a construct finds its node. -/
def Construct.wanted : Construct → NodeKind → Bool
  | .program => NodeKind.isProgram
  | .dataDivision => isDataDivision
  | .storage kept => isStorage kept
  | .file => isFile
  | .procedureDivision => isProcedureDivision
  | .declaratives => isDeclaratives
  | .procedure => isProcedure
  | .heading => isHeading
  | .paragraph => isParagraph

theorem wanted_of_construct? {k : NodeKind} (h : k.construct? = some c) : Construct.wanted c k = true := by
  cases k <;> simp [NodeKind.construct?] at h <;> subst h
  case storage kept _ => exact beq_self_eq_true kept
  all_goals rfl

/-- An end closes the data entries that are open and then the innermost construct. -/
theorem Tracks.exitThrough (h : b.Tracks (c :: cs)) :
    b.exitThrough (Construct.wanted c) = (true, (b.closeDefinitions none).exit) ∧
      (b.closeDefinitions none).exit.Shaped cs := by
  have hclosed := h.closeDefinitions none
  have hcurrent := h.closeDefinitions_current
  refine ⟨?_, hclosed.toShaped.exit hcurrent⟩
  unfold Build.exitThrough
  simp only
  generalize b.closeDefinitions none = closed at hclosed hcurrent ⊢
  obtain ⟨hkind, hroot⟩ := hclosed.toShaped.current_construct hcurrent
  cases habove : closed.path.above with
  | nil => exact absurd (by simp [Path.atRoot, habove]) hroot
  | cons o os => rw [length_cons, exitWithin, if_neg hroot, if_pos (wanted_of_construct? hkind)]

/-- A builder with some index names added under the current node of another. -/
structure Indexing (b b' : Build) (names : List IndexName) : Prop where
  above : b'.path.above = b.path.above
  node : b'.path.current.node = b.path.current.node
  declarations : b'.declarations = b.declarations
  indexNames : b'.path.current.children.indexNames = b.path.current.children.indexNames ++ names
  waiting : ∀ inside, b.path.current.children.Waiting inside → b'.path.current.children.Waiting inside
  indexed : b.path.current.children.Indexed → b'.path.current.children.Indexed
  realized : ∀ t, b.path.current.children.Realized t → b'.path.current.children.Realized t
  symbols : b'.path.symbols = b.path.symbols

theorem Indexing.trans {b'' : Build} {names names' : List IndexName} (h : Indexing b b' names)
    (h' : Indexing b' b'' names') : Indexing b b'' (names ++ names') where
  above := h'.above.trans h.above
  node := h'.node.trans h.node
  declarations := h'.declarations.trans h.declarations
  indexNames := by rw [h'.indexNames, h.indexNames, append_assoc]
  waiting inside hb := h'.waiting inside (h.waiting inside hb)
  indexed hb := h'.indexed (h.indexed hb)
  realized t hb := h'.realized t (h.realized t hb)
  symbols := h'.symbols.trans h.symbols

theorem indexing_leaf (b : Build) (name : IndexName) : Indexing b (b.leaf (.index name)) [name] where
  above := rfl
  node := rfl
  declarations := rfl
  indexNames := indexNames_append
  waiting _ hb := waiting_append.mpr ⟨hb, ⟨fun _ => rfl, trivial⟩, trivial⟩
  indexed hb := indexed_append.mpr ⟨hb, rfl, trivial, trivial⟩
  realized _ hb := realized_append.mpr ⟨hb, nofun, trivial, trivial⟩
  symbols := symbols_leaf b.path rfl

theorem indexing_leaves (names : List IndexName) (b : Build) :
    Indexing b (names.foldl (fun b name => b.leaf (.index name)) b) names := by
  induction names generalizing b with
  | nil => exact ⟨rfl, rfl, rfl, by simp, fun _ h => h, fun h => h, fun _ h => h, rfl⟩
  | cons name rest ih => exact (indexing_leaf b name).trans (ih _)

theorem Shaped.openEntry (h : b.Shaped cs) (hdef : kind.isDefinition = true)
    (hpath : entered.path = (b.enter kind).path) (hdecls : entered.declarations = b.declarations)
    (hindexing : Indexing entered b' kind.indexNames) : b'.Shaped cs := by
  have hcurrent : entered.path.current = { node := b.newNode kind } := by rw [hpath]; rfl
  have habove : b'.path.above = b.path.current :: b.path.above := by rw [hindexing.above, hpath]; rfl
  have hnode : b'.path.current.node = b.newNode kind := by rw [hindexing.node, hcurrent]
  have hsymbols : b'.path.symbols = b.path.symbols := by
    rw [hindexing.symbols, hpath]
    exact symbols_enter b.path (b.symbol?_newNode kind)
  have hdecls' : b'.declarations = b.declarations := hindexing.declarations.trans hdecls
  have hempty : entered.path.current.children = .nil := by rw [hcurrent]
  have hnames := hindexing.indexNames
  have hwaiting := hindexing.waiting (insideProgram cs)
  have hindexed := hindexing.indexed
  have hrealized := hindexing.realized b'.declarations.table
  rw [hempty] at hnames hwaiting hindexed hrealized
  refine h.of_symbols hsymbols (by rw [hdecls']) ?_
  rw [habove]
  refine .definition ?_ ?_ (hwaiting trivial) ⟨?_, hindexed trivial, hrealized trivial⟩ ?_
  · rw [hnode]
    exact hdef
  · rw [hnode]
    rfl
  · rw [hnames, hnode]
    rfl
  · rw [hdecls']
    exact h.tracked

theorem Shaped.addIndexes (h : b.Shaped cs) (hdef : kind.isDefinition = true)
    (hpath : entered.path = (b.enter kind).path) (hdecls : entered.declarations = b.declarations)
    {entry : DataEntry} (hnames : kind.indexNames = entry.indexNames) : (entered.addIndexes entry).Shaped cs := by
  have hopened := h.openEntry hdef hpath hdecls (indexing_leaves kind.indexNames entered)
  rw [hnames] at hopened
  unfold Build.addIndexes
  split
  · rename_i hnone
    rw [hnone] at hopened
    exact hopened
  · exact hopened.markCurrent .containsIndex

variable (h : b.Shaped (c :: cs)) (hkind : b.current.kind.construct? = some c)
include h hkind

/-- A construct gets its symbol, and its children change with it. -/
theorem Shaped.setCurrent
    (hpres : b.declarations.table.Preserves b'.declarations.table) (hnode : o.node.kind = b.current.kind)
    (hsettled : o.children.Settled (insideProgram (c :: cs)) .outside) (hkept : o.Kept b'.declarations.table)
    (hgains : Gains b.declarations.table.size b'.declarations.table.size
      (b.path.current.node.symbol?.toList ++ b.path.current.children.symbols)
      (o.node.symbol?.toList ++ o.children.symbols))
    (hpath : b'.path = { b.path with current := o }) : b'.Shaped (c :: cs) := by
  have hall := hgains.append_left ((b.path.above.reverse.flatMap OpenNode.nodes).filterMap Node.symbol?)
  have hsymbols : b'.path.symbols = (b.path.above.reverse.flatMap OpenNode.nodes).filterMap Node.symbol? ++
      (o.node.symbol?.toList ++ o.children.symbols) := by
    rw [hpath, symbols_eq]
  rw [← symbols_eq] at hall
  refine ⟨?_, ?_, ?_⟩
  · rw [hpath]
    exact (h.tracked.preserves hpres).set_construct hkind hnode hsettled hkept
  · rw [hsymbols]
    exact hall.nodup h.nodup h.lt
  · rw [hsymbols]
    intro id hid
    rcases hall.mem hid with hold | hnew
    · exact (h.lt id hold).trans_le hpres.size_le
    · exact hnew.2

theorem Shaped.construct :
    b.path.current.children.Settled (insideProgram (c :: cs)) .outside ∧ b.path.current.Kept b.declarations.table := by
  have htracked := h.tracked
  generalize hos : b.path.current :: b.path.above = os at htracked
  cases htracked with
  | definition hdef =>
    cases hos
    rw [show b.path.current.node.isDefinition = false from NodeKind.isDefinition_of_construct? hkind] at hdef
    cases hdef
  | construct _ hsettled hkept =>
    cases hos
    exact ⟨hsettled, hkept⟩

/-- A new construct gets its symbol. -/
theorem Shaped.declareCurrent
    (hsymbol : b.current.symbol? = none) {declare : Declarations → Option SymbolId × Declarations}
    (hpres : b.declarations.table.Preserves (declare b.declarations).2.table)
    (hgains : Gains b.declarations.table.size (declare b.declarations).2.table.size [] (declare b.declarations).1.toList) :
    (b.declareCurrent declare).Shaped (c :: cs) := by
  obtain ⟨hsettled, hkept⟩ := h.construct hkind
  have hsymbol' : b.path.current.node.symbol? = none := hsymbol
  unfold Build.declareCurrent
  generalize declare b.declarations = made at hpres hgains
  obtain ⟨id, d⟩ := made
  cases id with
  | none => exact ⟨h.tracked.preserves hpres, h.nodup, fun id hid => (h.lt id hid).trans_le hpres.size_le⟩
  | some id =>
    refine h.setCurrent hkind (o := { b.path.current with node := b.path.current.node.bindSymbol id }) hpres rfl hsettled
      ?_ ?_ rfl
    · have hkept' := hkept.preserves hpres
      exact ⟨hkept'.names, hkept'.indexed, hkept'.realized⟩
    · rw [hsymbol']
      exact hgains.append_right b.path.current.children.symbols

end Primitives

end Build

end CobolSymbols
