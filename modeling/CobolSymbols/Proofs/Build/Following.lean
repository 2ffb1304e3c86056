import CobolSymbols.Proofs.Build.Recording

/-!
# The builder follows the boundaries of its tree

Every well-nested event adds boundaries at the end: the ends of the records that it closes, and then the start or the end
of a construct. What the builder keeps and what it puts into the table goes with them.
-/

set_option autoImplicit false

namespace CobolSymbols

open Declarations List Node Path Symbol

namespace Build

open Declarations (Retains Step Steps)

variable {b b' : Build} {cs : List Construct} {base : Nat}

/-- What is known of the builder between two well-nested events. -/
structure Steady (b : Build) (cs : List Construct) : Prop where
  tracks : b.Tracks cs
  bound : b.Bound
  inStep : b.InStep

theorem Steady.closeDefinitions (h : b.Steady cs) (bound : Option Level) : (b.closeDefinitions bound).Steady cs :=
  ⟨h.tracks.closeDefinitions bound, h.bound.reads (h.bound.acts (b.closeDefinitions_acts bound)),
    h.inStep.same (h.tracks.closeDefinitions_same bound)⟩

theorem Steady.event (h : b.Steady cs) {event : Event} {cs' : List Construct} (hnest : nest cs event = some cs') :
    (b.step event).Steady cs' :=
  ⟨h.tracks.event hnest, h.bound.reads (h.bound.acts (b.step_acts event)), h.inStep.event h.tracks hnest⟩

/-- The builder follows the boundaries of its tree: the same sections are kept, and the table holds what the boundaries have
left in it. From a base on, which no record comes before, all paragraphs have boundaries. -/
structure Follows (base : Nat) (b : Build) : Prop where
  base_le : base ≤ b.declarations.table.size
  storage : b.declarations.storage = storages.current b.path.boundaries
  heading : b.declarations.heading = headings.current b.path.boundaries
  holds : ∀ before e after, b.path.boundaries = before ++ e :: after → e.Holds b.declarations.table before
  covers : ∀ id, base ≤ id → (b.declarations.table.get id).kind = .paragraph →
    .start ⟨.paragraph, some id⟩ ∈ b.path.boundaries
  records : ∀ id, .record (some id) ∈ b.path.boundaries → base ≤ id

theorem Steady.scope (h : b.Steady cs) : scopeAfter b.path.boundaries = b.declarations.currentScope := by
  unfold scopeAfter Declarations.currentScope
  rw [openAfter_boundaries, h.inStep.scopes]

section Follows

variable {made : List SymbolId} {o : Opening}

theorem covers_retained
    (hcovers : ∀ id, base ≤ id → (b.declarations.table.get id).kind = .paragraph →
      .start ⟨.paragraph, some id⟩ ∈ b.path.boundaries) (hretains : Retains b.declarations b'.declarations made)
    {id : SymbolId} (hid : base ≤ id) (hkind : (b'.declarations.table.get id).kind = .paragraph) :
    .start ⟨.paragraph, some id⟩ ∈ b.path.boundaries ∨ id ∈ made := by
  have hlt := Table.lt_size_of_get (·.kind = .paragraph) hkind nofun
  by_cases hold : id < b.declarations.table.size
  · rw [(hretains.stamp id hold).kind] at hkind
    exact .inl (hcovers id hid hkind)
  · exact .inr (hretains.paragraphs id ⟨not_lt.mp hold, hlt⟩ hkind)

variable (h : b.Follows base)
include h

/-- The tree has no further boundary, and the same sections are kept. -/
theorem Follows.same (hbounds : b'.path.boundaries = b.path.boundaries)
    (hstorage : b'.declarations.storage = b.declarations.storage)
    (hheading : b'.declarations.heading = b.declarations.heading)
    (hretains : Retains b.declarations b'.declarations []) : b'.Follows base where
  base_le := h.base_le.trans hretains.size_le
  storage := by rw [hbounds, hstorage, h.storage]
  heading := by rw [hbounds, hheading, h.heading]
  holds before e after hsplit := (h.holds before e after (hbounds.symm.trans hsplit)).keep hretains
  covers id hid hkind := by
    rw [hbounds]
    exact (covers_retained h.covers hretains hid hkind).resolve_right not_mem_nil
  records := hbounds ▸ h.records

/-- The tree has one more boundary, and the builder does what goes with it. -/
theorem Follows.boundary (e : Boundary) (hbounds : b'.path.boundaries = b.path.boundaries ++ [e])
    (hstorage : b'.declarations.storage = storages.next b.path.openings b.declarations.storage e)
    (hheading : b'.declarations.heading = headings.next b.path.openings b.declarations.heading e)
    (hretains : Retains b.declarations b'.declarations made) (hmade : ∀ id ∈ made, e = .start ⟨.paragraph, some id⟩)
    (hrecent : ∀ id, e = .record (some id) → b.declarations.table.size ≤ id)
    (hholds : e.Holds b'.declarations.table b.path.boundaries) : b'.Follows base where
  base_le := h.base_le.trans hretains.size_le
  storage := by rw [hbounds, Sectioning.current_append, openAfter_boundaries, hstorage, h.storage]
  heading := by rw [hbounds, Sectioning.current_append, openAfter_boundaries, hheading, h.heading]
  holds before other after hsplit := by
    rw [hbounds] at hsplit
    -- the boundary is the last one or an earlier one
    rcases eq_nil_or_concat after with rfl | ⟨after, last, rfl⟩
    · obtain ⟨hbefore, hlast⟩ := append_inj' hsplit rfl
      cases hlast
      rw [← hbefore]
      exact hholds
    · rw [concat_eq_append, ← cons_append, ← append_assoc] at hsplit
      exact (h.holds before other after (append_inj' hsplit rfl).1).keep hretains
  covers id hid hkind := by
    rw [hbounds]
    rcases covers_retained h.covers hretains hid hkind with hold | hnew
    · exact mem_append_left _ hold
    · rw [hmade id hnew]
      exact mem_append_right _ (mem_singleton_self _)
  records id hid := by
    rw [hbounds] at hid
    rcases mem_append.mp hid with hold | hnew
    · exact h.records id hold
    · exact h.base_le.trans (hrecent id (mem_singleton.mp hnew).symm)

/-- A construct is opened, and the sections change with it. -/
theorem Follows.opens (hopens : Opens b b' o)
    (hstorage : b'.declarations.storage = (storages.opened o).getD b.declarations.storage)
    (hheading : b'.declarations.heading = (headings.opened o).getD b.declarations.heading)
    (hretains : Retains b.declarations b'.declarations made) (hmade : ∀ id ∈ made, o = ⟨.paragraph, some id⟩)
    (hholds : (Boundary.start o).Holds b'.declarations.table b.path.boundaries) : b'.Follows base :=
  h.boundary (.start o) hopens.boundaries hstorage hheading hretains (fun id hid => congrArg _ (hmade id hid)) nofun hholds

/-- The innermost construct is closed, and the sections change with it. -/
theorem Follows.closes (hcloses : Closes b b' o)
    (hstorage : b'.declarations.storage = if storages.ended o.construct then none else b.declarations.storage)
    (hheading : b'.declarations.heading = if headings.ended o.construct then none else b.declarations.heading)
    (hretains : Retains b.declarations b'.declarations []) : b'.Follows base := by
  refine h.boundary .finish hcloses.boundaries ?_ ?_ hretains (forall_mem_nil _) (by simp) trivial
  · rw [hstorage, Sectioning.next, hcloses.openings]
    rfl
  · rw [hheading, Sectioning.next, hcloses.openings]
    rfl

/-- The tree grows by nodes without boundaries, or some nodes are marked. -/
theorem Follows.unmarked (hsame : Unmarked b b') : b'.Follows base :=
  h.same hsame.boundaries (by rw [hsame.declarations]) (by rw [hsame.declarations])
    (by rw [hsame.declarations]; exact Retains.refl _)

end Follows

section Definitions

/-- A data definition is closed; the end of a record is a boundary. -/
theorem Follows.exitDefinition (h : b.Follows base) (hsteady : b.Steady cs)
    (hdef : b.current.isDefinition = true) : b.exitDefinition.Follows base := by
  obtain ⟨o, os, habove⟩ := hsteady.tracks.above_of_definition hdef
  obtain ⟨_, hready⟩ := hsteady.tracks.ready
  have hnode : b.path.current.node.isDefinition = true := hdef
  have hstart : b.path.current.node.starts = [] := starts_of_definition hnode
  have hread : b.path.boundaries = ({ current := o, above := os } : Path).boundaries ++
      b.path.current.children.boundaries true := by
    rw [boundaries_eq habove, hstart, hnode]
    rfl
  have heq := exitDefinition_of_above (b := b) habove
  cases hparent : o.node.isDefinition with
  | true =>
    rw [hparent, if_pos rfl] at heq
    have hbounds : b.exitDefinition.path.boundaries = b.path.boundaries := by
      have hends : b.path.current.node.ends true = [] := by
        rw [ends_of_definition hnode, Bool.or_true]
        rfl
      rw [heq, hread, boundaries_attach, hparent, Forest.boundaries_ofTree, OpenNode.toTree, hstart, hends, hnode,
        append_nil]
      rfl
    have hsame : b.exitDefinition.declarations = b.declarations := by rw [heq]
    exact h.same hbounds (by rw [hsame]) (by rw [hsame]) (by rw [hsame]; exact Retains.refl _)
  | false =>
    rw [hparent, if_neg Bool.false_ne_true] at heq
    have hsame : b.exitDefinition.declarations = (b.declarations.declareRecord b.path.current.toTree).2 := by rw [heq]
    have hmode := hready.declareRecord_mode hsteady.bound.place b.path.current.toTree
    have hstorage : b.exitDefinition.declarations.storage = b.declarations.storage := by
      rw [hsame]
      exact congrArg Mode.storage hmode
    have hheading : b.exitDefinition.declarations.heading = b.declarations.heading := by
      rw [hsame]
      exact congrArg Mode.heading hmode
    have hretains : Retains b.declarations b.exitDefinition.declarations [] := by
      rw [hsame]
      exact hready.declareRecord_retains hsteady.bound.place _
    have hbounds : b.exitDefinition.path.boundaries =
        b.path.boundaries ++ (b.declarations.declareRecord b.path.current.toTree).1.node.ends false := by
      rw [heq, hread, boundaries_attach, hparent, boundaries_declareRecord _ hdef, append_assoc]
      rfl
    have hkind : (b.declarations.declareRecord b.path.current.toTree).1.node.kind = b.path.current.node.kind :=
      congrArg (fun t => t.node.kind) (declareRecord_shape b.declarations b.path.current.toTree :
        (b.declarations.declareRecord b.path.current.toTree).1.shape = b.path.current.toTree.shape)
    rw [ends_of_definition ((Forest.isDefinition_congr hkind).trans hdef), Bool.or_false] at hbounds
    split at hbounds
    · exact h.same (hbounds.trans (append_nil _)) hstorage hheading hretains
    · have hnone := (hsteady.bound.idle b.path.current (mem_cons_self ..) hdef).1
      refine h.boundary _ hbounds hstorage hheading hretains (forall_mem_nil _) (fun id hid => ?_) ?_
      · exact (declareRecord_symbol hnone (Boundary.record.inj hid)).1.symm.le
      cases hsymbol : (b.declarations.declareRecord b.path.current.toTree).1.node.symbol? with
      | none => trivial
      | some id =>
        have hlt : id < (b.declarations.declareRecord b.path.current.toTree).2.table.size := by
          have hlts := (hsteady.tracks.exitDefinition hdef).lt
          rw [hsame] at hlts
          refine hlts id ?_
          rw [heq, symbols_attach]
          refine mem_append_right _ ?_
          unfold Forest.ofTree
          rw [Forest.symbols_cons, hsymbol]
          simp
        obtain ⟨hitem, hplaced⟩ := hready.declareRecord_placed hsteady.bound.place hnone hsymbol hlt
        rw [hsame]
        refine ⟨hitem, fun htype => ?_⟩
        obtain ⟨scope, hscope, hprog, hown, hflags⟩ := hplaced htype
        refine ⟨scope, hsteady.scope.trans hscope, hprog, hown, fun kept => ?_⟩
        rw [← h.storage]
        exact hflags kept

theorem Steady.exitDefinition (h : b.Steady cs) (hdef : b.current.isDefinition = true) :
    b.exitDefinition.Steady cs :=
  ⟨h.tracks.exitDefinition hdef, h.bound.reads h.bound.exitDefinition,
    h.inStep.same (h.tracks.exitDefinition_same hdef)⟩

theorem Follows.closeDefinitions (h : b.Follows base) (hsteady : b.Steady cs) (bound : Option Level) :
    (b.closeDefinitions bound).Follows base :=
  (closeDefinitions_keep (P := fun b => b.Steady cs ∧ b.Follows base)
    (fun hdef h => ⟨h.1.exitDefinition hdef, h.2.exitDefinition h.1 hdef⟩) ⟨hsteady, h⟩ bound).2

theorem Follows.entry (h : b.Follows base) (hsteady : b.Steady cs) {event : Event} (hopens : event.opens = none)
    (hcloses : event.closes = none) : (b.step event).Follows base :=
  entry_keep (fun hdef h => h.unmarked (openEntry_unmarked _ hdef))
    (fun hdef hkind h => h.unmarked (leaf_unmarked _ hdef hkind)) (fun h => h.unmarked (markCurrent_unmarked _ _)) h
    (h.closeDefinitions hsteady) hopens hcloses

end Definitions

section Openings

variable {c : Construct}

variable (h : b.Follows base)
include h

/-- A construct is opened that has no symbol and leaves the sections as they are. -/
theorem Follows.enter (kind : NodeKind) (hkind : kind.construct? = some c) (hnamed : c.isNamed = false)
    (hstorage : storages.opened ⟨c, none⟩ = none) (hheading : headings.opened ⟨c, none⟩ = none) :
    (b.enter kind).Follows base := by
  refine h.opens (opens_enter b hkind hnamed hstorage) ?_ ?_ (Retains.refl _) (forall_mem_nil _) ?_
  · rw [hstorage]
    rfl
  · rw [hheading]
    rfl
  · cases c <;> trivial

variable (hsteady : b.Steady cs)
include hsteady

theorem Follows.startProgram (header : ProgramHeader) : (b.startProgram header).Follows base := by
  obtain ⟨_, hready⟩ := (hsteady.closeDefinitions none).tracks.ready
  exact (h.closeDefinitions hsteady none).opens (startProgram_opens hready header) rfl rfl
    (startProgram_retains _ header) (forall_mem_nil _) trivial

theorem Follows.startStorage (storage : StorageSection)
    (header : StorageHeader) : (b.startStorage storage header).Follows base := by
  have hclosed := h.closeDefinitions hsteady none
  have hopens := startStorage_opens b storage header
  unfold Build.startStorage at hopens ⊢
  simp only at hopens ⊢
  generalize b.closeDefinitions none = closed at hclosed hopens ⊢
  have hdecls : (((closed.setStorage (some storage)).enter (.storage storage header)).bindStorage
      storage).declarations = closed.declarations := bindCurrent_declarations _ _
  have htable := congrArg Declarations.table hdecls
  have hheading := congrArg Declarations.heading hdecls
  exact hclosed.opens hopens rfl hheading ((Retains.refl closed.declarations).of_table htable) (forall_mem_nil _) trivial

theorem Follows.startProcedureDivision (header : ProcedureHeader) : (b.startProcedureDivision header).Follows base := by
  have hquiet := startProcedureDivision_quiet (d := (b.closeDefinitions none).declarations) header
  have hretains : Retains (b.closeDefinitions none).declarations { (b.closeDefinitions none).declarations with storage := none }
      [] := (Retains.refl _).of_table rfl
  obtain ⟨_, hready⟩ := (hsteady.closeDefinitions none).tracks.ready
  exact (h.closeDefinitions hsteady none).opens (startProcedureDivision_opens hready header)
    (congrArg Mode.storage hquiet.mode) (congrArg Mode.heading hquiet.mode) (hretains.trans hquiet.retains)
    (forall_mem_nil _) trivial

theorem Follows.startSection (heading : SectionHeading) : (b.startSection heading).Follows base := by
  obtain ⟨_, hready⟩ := hsteady.tracks.ready
  have hopens := startSection_opens hready heading
  have hdecls : (b.startSection heading).declarations = (b.declarations.startHeading heading).2 :=
    declareCurrent_declarations _ _
  cases hcurrent : b.declarations.currentScope with
  | none =>
    -- outside of programs no section is kept
    have hscopes : b.declarations.scopes = [] := head?_eq_none_iff.mp hcurrent
    have hprogs : b.declarations.openPrograms = [] :=
      hsteady.inStep.programs.trans (programSymbols_eq_nil (hsteady.inStep.scopes.symm.trans hscopes))
    have hnone : b.declarations.heading = none := (hready.closed hprogs).2.1
    rw [startHeading_of_none hcurrent] at hopens hdecls
    refine h.opens hopens ?_ ?_ ?_ (forall_mem_nil _) trivial <;> rw [hdecls]
    · rfl
    · exact hnone
    · exact Retains.refl _
  | some scope =>
    have hmade : b.declarations.startHeading heading = (some b.declarations.table.size,
        { (b.declarations.alloc (Declarations.headingSymbol heading scope)).2.enterIn b.declarations.table.size
          (some (.slot scope .sections)) with heading := some b.declarations.table.size }) := by
      unfold Declarations.startHeading
      rw [hcurrent]
      rfl
    have hmode := enterIn_mode (d := (b.declarations.alloc (Declarations.headingSymbol heading scope)).2)
      b.declarations.table.size (some (.slot scope .sections))
    have hretains : Retains b.declarations (b.declarations.startHeading heading).2 [] := by
      rw [hmade]
      exact (retains_made (Declarations.headingSymbol heading scope)
        (some (.slot scope .sections))).of_table rfl
    rw [hmade] at hopens hdecls hretains
    refine h.opens hopens ?_ ?_ ?_ (forall_mem_nil _) ?_ <;> rw [hdecls]
    · exact congrArg Mode.storage hmode
    · rfl
    · exact hretains
    · have hstamp := stamp_made (d := b.declarations) (Declarations.headingSymbol heading scope)
        (some (.slot scope .sections))
      exact ⟨congrArg Stamp.kind hstamp, scope, hsteady.scope.trans hcurrent,
        hretains.program (hready.scoped hcurrent).kind, congrArg Stamp.owner hstamp⟩

theorem Follows.startParagraph (heading : ParagraphHeading) : (b.startParagraph heading).Follows base := by
  obtain ⟨_, hready⟩ := hsteady.tracks.ready
  have hopens := startParagraph_opens hready heading
  have hdecls : (b.startParagraph heading).declarations = (b.declarations.startParagraph heading).2 :=
    declareCurrent_declarations _ _
  cases hcurrent : b.declarations.currentScope with
  | none =>
    rw [startParagraph_of_none hcurrent] at hopens hdecls
    refine h.opens hopens ?_ ?_ ?_ (forall_mem_nil _) trivial <;> rw [hdecls]
    · rfl
    · rfl
    · exact Retains.refl _
  | some scope =>
    have hprog := (hready.scoped hcurrent).kind
    have hmade : b.declarations.startParagraph heading = (some b.declarations.table.size,
        (b.declarations.alloc (b.declarations.paragraphSymbol heading scope)).2.enterIn b.declarations.table.size
          (some (.slot scope .paragraphs))) := by
      unfold Declarations.startParagraph
      rw [hcurrent]
      rfl
    have hmode := enterIn_mode (d := (b.declarations.alloc (b.declarations.paragraphSymbol heading scope)).2)
      b.declarations.table.size (some (.slot scope .paragraphs))
    have hretains : Retains b.declarations _ [b.declarations.table.size] :=
      retains_made (b.declarations.paragraphSymbol heading scope) (some (.slot scope .paragraphs))
    rw [hmade] at hopens hdecls
    refine h.opens hopens ?_ ?_ (by rw [hdecls]; exact hretains) (fun id hid => ?_) ?_
    · rw [hdecls]
      exact congrArg Mode.storage hmode
    · rw [hdecls]
      exact congrArg Mode.heading hmode
    · rw [mem_singleton.mp hid]
    · have hstamp := stamp_made (d := b.declarations) (b.declarations.paragraphSymbol heading scope)
        (some (.slot scope .paragraphs))
      have hslot : ScopeSlot.paragraphs ≠ .namespaces := nofun
      have hlisted := listed_made (b.declarations.paragraphSymbol heading scope) hprog hslot
      rw [hdecls]
      refine ⟨congrArg Stamp.kind hstamp, ?_, scope, hsteady.scope.trans hcurrent, hretains.program hprog, ?_, hlisted⟩
      · rw [← h.heading]
        exact congrArg Stamp.heading hstamp
      · rw [← h.heading]
        exact congrArg Stamp.owner hstamp

theorem Follows.startProcedure (header : DeclaredProcedure) : (b.startProcedure header).Follows base := by
  have hclosed := hsteady.closeDefinitions none
  obtain ⟨_, hready⟩ := hclosed.tracks.ready
  obtain ⟨f, hopens, hdecls⟩ := startProcedure_opens hready header
  obtain ⟨hretains, hstorage, hheading⟩ := hready.startProcedure_retains hclosed.bound.place header f
  rw [← hdecls] at hretains hstorage hheading
  exact (h.closeDefinitions hsteady none).opens hopens hstorage hheading hretains (forall_mem_nil _) trivial

end Openings

section Closings

variable {c : Construct}

variable (h : b.Follows base)
include h

theorem Follows.endProgram (hsteady : b.Steady (.program :: cs)) (marker : Option ProgramEnd) :
    (b.endProgram marker).Follows base := by
  obtain ⟨id, hcloses⟩ := hsteady.tracks.endProgram_closes marker
  obtain ⟨marked, hmarked, -, -, heq⟩ := hsteady.tracks.endProgram_eq marker
  have hsame : marked.declarations = (b.closeDefinitions none).declarations :=
    hmarked ▸ (addMarker_unmarked (b.closeDefinitions none) marker).declarations
  have hdecls : (b.endProgram marker).declarations = (b.closeDefinitions none).declarations.endProgram := by
    rw [heq, popFrame_declarations, ← hsame]
    rfl
  have hmode := endProgram_mode (b.closeDefinitions none).declarations
  have hretains := endProgram_retains (b.closeDefinitions none).declarations
  rw [← hdecls] at hmode hretains
  exact (h.closeDefinitions hsteady none).closes hcloses hmode.1 hmode.2 hretains

theorem Follows.endProcedure (hsteady : b.Steady (.procedure :: cs)) : b.endProcedure.Follows base := by
  obtain ⟨id, hcloses⟩ := hsteady.tracks.endProcedure_closes
  have hdecls : b.endProcedure.declarations = (b.closeDefinitions none).declarations.endProcedure := by
    rw [hsteady.tracks.endProcedure_eq, popFrame_declarations]
    rfl
  refine (h.closeDefinitions hsteady none).closes hcloses ?_ ?_ ?_ <;> rw [hdecls]
  · rfl
  · rfl
  · exact (Retains.refl _).of_table rfl

/-- The end of a construct other than a program or procedure. -/
theorem Follows.exitThrough (hsteady : b.Steady (c :: cs)) (hcloses : ∃ id, Closes (b.closeDefinitions none) b' ⟨c, id⟩)
    {ended : Build} (hended : (b.exitThrough (Construct.wanted c)).2 = ended)
    (hstorage : b'.declarations.storage = if storages.ended c then none else ended.declarations.storage)
    (hheading : b'.declarations.heading = if headings.ended c then none else ended.declarations.heading)
    (htable : b'.declarations.table = ended.declarations.table) : b'.Follows base := by
  obtain ⟨id, hcloses⟩ := hcloses
  rw [hsteady.tracks.exitThrough.1] at hended
  subst hended
  exact (h.closeDefinitions hsteady none).closes hcloses hstorage hheading ((Retains.refl _).of_table htable)

end Closings

section Runs

variable {cs' : List Construct}

theorem Follows.event (h : b.Follows base) (hsteady : b.Steady cs) {event : Event}
    (hnest : nest cs event = some cs') : (b.step event).Follows base := by
  have hcloses : ∀ c, event.opens = none → event.closes = some c → cs = c :: cs' := fun c => nest_of_closes hnest
  cases event with
  | startProgram header => exact h.startProgram hsteady header
  | endProgram marker =>
    obtain rfl := hcloses _ rfl rfl
    exact h.endProgram hsteady marker
  | startDataDivision position => exact h.enter (.dataDivision position) rfl rfl rfl rfl
  | startStorage storage header => exact h.startStorage hsteady storage header
  | endStorage storage | endDataDivision | endFile | endProcedureDivision | endDeclaratives | endParagraph =>
    obtain rfl := hcloses _ rfl rfl
    exact h.exitThrough hsteady (hsteady.tracks.closes rfl) rfl rfl rfl rfl
  | startFile entry => exact (h.closeDefinitions hsteady none).enter (.file entry) rfl rfl rfl rfl
  | startProcedureDivision header => exact h.startProcedureDivision hsteady header
  | startDeclaratives position => exact h.enter (.declaratives position) rfl rfl rfl rfl
  | startProcedure header => exact h.startProcedure hsteady header
  | endProcedure =>
    obtain rfl := hcloses _ rfl rfl
    exact h.endProcedure hsteady
  | startSection heading => exact h.startSection hsteady heading
  | startParagraph heading => exact h.startParagraph hsteady heading
  | endSection =>
    obtain rfl := hcloses _ rfl rfl
    exact h.exitThrough hsteady (hsteady.tracks.closes rfl) rfl rfl rfl rfl
  | dataEntry | redefinesEntry | renamesEntry | conditionEntry | typedefEntry | statement =>
    exact h.entry hsteady rfl rfl

theorem Follows.events {events : List Event} (h : b.Follows base) (hsteady : b.Steady cs)
    (hnest : events.foldlM nest cs = some cs') : (b.steps events).Follows base :=
  (steps_keep (P := fun b cs => b.Steady cs ∧ b.Follows base)
    (fun hevent h => ⟨h.1.event hevent, h.2.event h.1 hevent⟩) ⟨hsteady, h⟩ hnest).2

theorem Steady.events {events : List Event} (h : b.Steady cs)
    (hnest : events.foldlM nest cs = some cs') : (b.steps events).Steady cs' :=
  steps_keep (fun hevent h => h.event hevent) h hnest

/-- Where nothing has been read there is nothing to follow. -/
theorem follows_start (c : Context) : (start c).Follows c.table.size where
  base_le := le_rfl
  records _ hid := absurd hid not_mem_nil
  storage := rfl
  heading := rfl
  holds _ _ _ hsplit := absurd (eq_nil_of_append_eq_nil hsplit.symm).2 nofun
  covers _ hid hkind := absurd (Table.lt_size_of_get (·.kind = .paragraph) hkind nofun) hid.not_gt

end Runs

end Build

end CobolSymbols
