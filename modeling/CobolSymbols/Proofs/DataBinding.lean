import CobolSymbols.Proofs.Build.TrackedEvents
import CobolSymbols.Proofs.Session

/-!
# Data definitions and their symbols

When the events of a unit are well nested, every data definition inside a program has a symbol of its own, except where
nothing is made: below level-66 and level-88 entries, and from a TYPEDEF header inside an ordinary record downwards. The
symbol of a definition holds the symbols of the definitions below it in their order, each followed by its indexes.
-/

set_option autoImplicit false

namespace CobolSymbols

/-- The nodes of a tree with their children and with what the nodes above them were made from. -/
def Tree.occurrences (t : Tree) : List Occurrence := (Forest.ofTree t).occurrences []

instance (o : Occurrence) : Decidable o.InProgram := inferInstanceAs (Decidable (∃ k ∈ o.above, k.isProgram = true))

theorem Forest.Realized.holds {f : Forest} {t : Table} {above : List NodeKind} (h : f.Realized t) {o : Occurrence}
    (ho : o ∈ f.occurrences above) (hdef : o.node.isDefinition = true) {id : SymbolId}
    (hid : o.node.symbol? = some id) : t.Holds id o.children := by
  induction f generalizing above with
  | nil => cases ho
  | cons node children siblings ihChildren ihSiblings =>
    obtain ⟨hnode, hchildren, hsiblings⟩ := h
    rcases List.mem_cons.mp ho with heq | ho
    · subst heq
      exact hnode hdef id hid
    · rcases List.mem_append.mp ho with ho | ho
      · exact ihChildren hchildren ho
      · exact ihSiblings hsiblings ho

namespace Build

variable {b : Build}

/-- A unit of which nothing has been read. -/
theorem tracks_start {c : Context} (h : c.table.Sound c.table.size) : (start c).Tracks [] where
  tracked := .root rfl trivial ⟨rfl, trivial, trivial⟩
  nodup := List.nodup_nil
  lt _ hid := absurd hid List.not_mem_nil
  stacked := (inStep_start c).toStacked
  ready := ⟨_, Declarations.ready_closed (d := { context := c }) h rfl rfl rfl rfl rfl rfl⟩

/-- When nothing is open the current node is the root. -/
theorem Shaped.at_root (h : b.Shaped []) (hcurrent : b.current.isDefinition = false) : b.path.above = [] ∧
    b.path.current.node.kind = .sourceFile ∧ b.path.current.children.Settled false .outside ∧
    b.path.current.Kept b.declarations.table := by
  have htracked := h.tracked
  generalize b.path.above = os at htracked ⊢
  cases htracked with
  | root hkind hsettled hkept => exact ⟨rfl, hkind, hsettled, hkept⟩
  | definition hdef => exact absurd (hcurrent.symm.trans hdef) Bool.false_ne_true

/-- When nothing is open the whole tree hangs under the root. -/
theorem Shaped.toTree (h : b.Shaped []) (hcurrent : b.current.isDefinition = false) :
    (Forest.ofTree b.path.toTree).Settled false .outside ∧ (Forest.ofTree b.path.toTree).Realized b.declarations.table := by
  obtain ⟨habove, hkind, hsettled, hkept⟩ := h.at_root hcurrent
  have htree : b.path.toTree = b.path.current.toTree := by
    unfold Path.toTree
    rw [habove]
    rfl
  have hnot : ¬ b.path.current.toTree.node.isDefinition = true := fun hdef =>
    absurd (hcurrent.symm.trans hdef) Bool.false_ne_true
  have hprog : b.path.current.toTree.node.kind.isProgram = false := by
    rw [show b.path.current.toTree.node.kind = .sourceFile from hkind]
    rfl
  rw [htree]
  refine ⟨⟨?_, trivial⟩, ⟨fun hdef => absurd hdef hnot, hkept.realized, trivial⟩⟩
  rw [if_neg hnot, hprog]
  exact hsettled

end Build

/-- For well-nested events, no symbol is meant by two nodes, a definition inside a program has a symbol exactly when it is
not exempt, and the symbol of a definition holds what its children were made into. -/
theorem Session.definitions_made_into_symbols (options : Options) (requests : List Request) (file : FileId)
    {events : List Event} (hnested : WellNested events) :
    (((after options requests).compile file events).1.tree.nodes.filterMap Node.symbol?).Nodup ∧
      ∀ o ∈ ((after options requests).compile file events).1.tree.occurrences, o.node.isDefinition = true →
        (o.InProgram → (o.node.symbol?.isSome = true ↔ ¬ o.IsExempt)) ∧
        ∀ id, o.node.symbol? = some id →
          ((after options requests).compile file events).2.table.Holds id o.children := by
  have hsound := sound_after options requests
  generalize after options requests = s at hsound ⊢
  have hstart : (Build.start { s.context with file }).Tracks [] := Build.tracks_start hsound
  have hread := hstart.events hnested
  have hclosed := hread.closeDefinitions none
  obtain ⟨hsettled, hrealized⟩ := hclosed.toShaped.toTree hread.closeDefinitions_current
  have hsettled' : (Forest.ofTree _).Settled (List.any [] NodeKind.isProgram) (.ofAbove []) := hsettled
  refine ⟨?_, fun o ho hdefinition => ⟨fun hinside => ?_, fun id hid => ?_⟩⟩
  · show ((Path.toTree _).nodes.filterMap Node.symbol?).Nodup
    rw [Path.toTree_nodes]
    exact hclosed.nodup
  · exact hsettled'.isSome_iff ho hdefinition hinside
  · exact hrealized.holds ho hdefinition hid

/-- A program with a table, a type and a field that is a type inside of an ordinary record. -/
def tableProgram : List Event :=
  [.startProgram { name := "P", position := ⟨1, 8⟩ }, .startDataDivision ⟨2, 8⟩, .startStorage .workingStorage {},
    .dataEntry (.named 1 "A" ⟨3, 8⟩),
    .dataEntry (((DataEntry.named 5 "B" ⟨4, 8⟩).withOccurs 1 9).indexedBy "I" ⟨4, 30⟩),
    .dataEntry ((DataEntry.named 10 "C" ⟨5, 8⟩).withPicture "X"),
    .typedefEntry ((DataEntry.named 5 "T" ⟨6, 8⟩).withPicture "X"),
    .endStorage .workingStorage, .endDataDivision, .endProgram none]

theorem definitions_made_into_symbols_table :
    WellNested tableProgram ∧ (((Session.start {}).compile 0 tableProgram).2.table.get 11).fieldList = [12, 14] := by
  have hnested : WellNested tableProgram := by decide
  have hoccurs : ∃ o ∈ ((Session.start {}).compile 0 tableProgram).1.tree.occurrences,
      o.node.isDefinition = true ∧ o.node.symbol? = some 11 ∧ o.children.fieldSymbols = [12, 14] := by
    decide +kernel
  obtain ⟨o, ho, hdefinition, hid, hfields⟩ := hoccurs
  have hmade := (Session.definitions_made_into_symbols {} [] 0 hnested).2 o ho hdefinition
  refine ⟨hnested, ?_⟩
  rw [← hfields]
  exact (hmade.2 11 hid).fields

/-- A program with a definition below a level-88 entry. -/
def conditionProgram : List Event :=
  [.startProgram { name := "P", position := ⟨1, 8⟩ }, .startDataDivision ⟨2, 8⟩,
    .startStorage .workingStorage ⟨⟨3, 8⟩⟩,
    .dataEntry ((DataEntry.named 1 "A" ⟨4, 8⟩).withPicture "X"),
    .conditionEntry { name := "C", position := ⟨5, 8⟩, values := [] },
    .dataEntry ((DataEntry.named 89 "B" ⟨6, 8⟩).withPicture "X"),
    .endStorage .workingStorage, .endDataDivision, .endProgram none]

/-- Whether the node is a level-66 entry. -/
def NodeKind.isRenames : NodeKind → Bool
  | .renames _ => true
  | _ => false

/-- A definition below a level-88 entry has no symbol, though no TYPEDEF header and no level-66 entry lies above it. -/
theorem definition_below_condition_unbound :
    WellNested conditionProgram ∧ ∃ o ∈ ((Session.start {}).compile 0 conditionProgram).1.tree.occurrences,
      o.node.isDefinition = true ∧ o.InProgram ∧ o.node.symbol? = none ∧
        ∀ k ∈ o.node.kind :: o.above, k.isTypeDefinition = false ∧ k.isRenames = false := by
  decide +kernel

end CobolSymbols
