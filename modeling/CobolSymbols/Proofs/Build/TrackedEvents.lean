import CobolSymbols.Proofs.Build.Tracking

/-!
# Every well-nested event is tracked

One lemma for each event, and from them one for whole runs.
-/

set_option autoImplicit false

namespace CobolSymbols

open Declarations Forest List

namespace Build

open Declarations (Step Steps SameStack)

section Events

variable {b b' : Build} {cs : List Construct} {kind : NodeKind} {c : Construct} {f : Forest} {node : Node}

theorem Tracks.startProgram (h : b.Tracks cs) (header : ProgramHeader) :
    (b.startProgram header).Shaped (.program :: cs) := by
  have hclosed := h.closeDefinitions none
  unfold Build.startProgram
  generalize b.closeDefinitions none = closed at hclosed
  obtain ⟨base, hready⟩ := hclosed.ready
  have hframed : (closed.pushFrame ∅).Shaped cs := hclosed.toShaped.congr rfl rfl
  have hentered : ((closed.pushFrame ∅).enter (.program header)).Shaped (.program :: cs) := hframed.enter rfl
  exact hentered.declareCurrent rfl rfl (preserves_startProgram hready header) (startProgram_gains hready header)

/-- A program is its own nearest program. -/
theorem exitToProgram_of_program (steps : Nat) (h : b.current.kind.isProgram = true) : exitToProgram steps b = b := by
  cases steps with
  | zero => rfl
  | succ steps =>
    unfold exitToProgram
    rw [h, Bool.or_true, if_pos rfl]

theorem Shaped.addMarker (h : b.Shaped cs) (marker : Option ProgramEnd) : (b.addMarker marker).Shaped cs := by
  cases marker with
  | none => exact h.markCurrent .missingEnd
  | some marker => exact h.leaf rfl rfl rfl

/-- An open program ends: the definitions in it are closed, and then the program itself, with its marker. -/
theorem Tracks.endProgram_eq (h : b.Tracks (.program :: cs)) (marker : Option ProgramEnd) :
    ∃ marked, marked = (b.closeDefinitions none).addMarker marker ∧ marked.Shaped (.program :: cs) ∧
      marked.current.isDefinition = false ∧
      b.endProgram marker = (marked.exit.mapDeclarations Declarations.endProgram).popFrame := by
  have hclosed := h.closeDefinitions none
  have hcurrent := h.closeDefinitions_current
  unfold Build.endProgram
  simp only
  generalize b.closeDefinitions none = closed at hclosed hcurrent ⊢
  obtain ⟨hkind, -⟩ := hclosed.toShaped.current_construct hcurrent
  have hprog : closed.current.kind.isProgram = true := by rw [NodeKind.isProgram_of_construct? hkind]; rfl
  have hkept : (closed.addMarker marker).current.kind = closed.current.kind := by cases marker <;> rfl
  have hmarked := hclosed.toShaped.addMarker marker
  have hcurrent' := (isDefinition_congr hkept).trans hcurrent
  obtain ⟨-, hroot⟩ := hmarked.current_construct hcurrent'
  refine ⟨_, rfl, hmarked, hcurrent', ?_⟩
  rw [exitToProgram_of_program _ hprog]
  exact if_neg hroot

theorem Tracks.endProgram (h : b.Tracks (.program :: cs)) (marker : Option ProgramEnd) :
    (b.endProgram marker).Shaped cs := by
  obtain ⟨marked, rfl, hmarked, hcurrent, heq⟩ := h.endProgram_eq marker
  have hready := (h.closeDefinitions none).ready
  rw [← (addMarker_unmarked (b.closeDefinitions none) marker).declarations] at hready
  have hstep : Step ((b.closeDefinitions none).addMarker marker).exit.declarations _ := .endProgram _
  rw [heq]
  exact ((hmarked.exit hcurrent).step hready hstep).congr (popFrame_path _) (by rw [popFrame_declarations]; rfl)

/-- A node that means a scope means no symbol. -/
theorem Shaped.bindScope (h : b.Shaped cs) (hsymbol : b.current.symbol? = none) (owner : SymbolId) (slot : ScopeSlot) :
    (b.bindCurrent (some (.scope owner slot))).Shaped cs := by
  have hsymbol' : b.path.current.node.symbol? = none := hsymbol
  refine h.of_symbols ?_ le_rfl (h.tracked.same (.cons ⟨rfl, hsymbol'.symm, rfl⟩ ?_))
  · rw [Path.symbols_eq, Path.symbols_eq b.path, hsymbol']
    rfl
  · exact forall₂_same.mpr fun o _ => OpenNode.Same.refl o

/-- A section of the data division is opened and means its scope. -/
theorem Tracks.startStorage (h : b.Tracks cs) (storage : StorageSection) (header : StorageHeader) :
    (b.startStorage storage header).Shaped (.storage storage :: cs) := by
  have hclosed := (h.closeDefinitions none).toShaped
  unfold Build.startStorage
  generalize b.closeDefinitions none = closed at hclosed
  have hset : (closed.setStorage (some storage)).Shaped cs := hclosed.congr rfl rfl
  have hentered : ((closed.setStorage (some storage)).enter (.storage storage header)).Shaped (.storage storage :: cs) :=
    hset.enter rfl
  have hbound : (((closed.setStorage (some storage)).enter (.storage storage header)).bindStorage storage).Shaped
      (.storage storage :: cs) := by
    unfold bindStorage
    cases ((closed.setStorage (some storage)).enter (.storage storage header)).declarations.currentScope with
    | none => exact hentered
    | some scope => exact hentered.bindScope rfl scope storage.slot
  exact hbound.congr rfl rfl

section

variable (h : b.Tracks cs)
include h

theorem Tracks.startProcedureDivision (header : ProcedureHeader) :
    (b.startProcedureDivision header).Shaped (.procedureDivision :: cs) := by
  have hclosed := h.closeDefinitions none
  have hset : ((b.closeDefinitions none).setStorage none).Shaped cs := hclosed.toShaped.congr rfl rfl
  exact (hset.step hclosed.ready (.startProcedureDivision _ header)).enter rfl

/-- A section or paragraph of the procedure division gets its symbol. -/
theorem Tracks.declareHeading (hkind : kind.construct? = some c) (declare : Declarations → Option SymbolId × Declarations)
    (hstep : Step b.declarations (declare b.declarations).2)
    (hgains : Gains b.declarations.table.size (declare b.declarations).2.table.size [] (declare b.declarations).1.toList) :
    ((b.enter kind).declareCurrent declare).Shaped (c :: cs) := by
  obtain ⟨base, hready⟩ := h.ready
  exact (h.toShaped.enter hkind).declareCurrent hkind rfl (hstep.preserves hready) hgains

end

theorem insideProgram_procedure (cs : List Construct) : insideProgram (.procedure :: cs) = insideProgram cs := by
  rw [insideProgram_cons]
  exact Bool.or_false _

theorem symbol?_bindIfMade (h : node.symbol? = none) (made : Option SymbolId) :
    (Declarations.bindIfMade node made).symbol? = made := by
  cases made with
  | none => exact h
  | some id => rfl

/-- A procedure starts: its node and the nodes of its parameters get their symbols. -/
theorem Tracks.startProcedure (h : b.Tracks cs) (header : DeclaredProcedure) :
    (b.startProcedure header).Shaped (.procedure :: cs) := by
  have hclosed := h.closeDefinitions none
  have hcurrent : insideProgram cs = true → (b.closeDefinitions none).declarations.currentScope ≠ none :=
    hclosed.currentScope
  obtain ⟨base, hready⟩ := hclosed.ready
  have hframed : ((b.closeDefinitions none).markProgram.pushFrame (.single .insideProcedure)).Shaped cs :=
    hclosed.toShaped.markProgram.congr rfl rfl
  unfold Build.startProcedure
  simp only
  have hdecls : ((b.closeDefinitions none).markProgram.pushFrame (.single .insideProcedure)).declarations =
    (b.closeDefinitions none).declarations := rfl
  rw [← hdecls] at hcurrent hready
  generalize (b.closeDefinitions none).markProgram.pushFrame (.single .insideProcedure) = framed at hframed hcurrent hready ⊢
  have hentered : (framed.enter (.procedure header)).Shaped (.procedure :: cs) := hframed.enter rfl
  -- the node is new: it has no symbol, and its children are the parameters alone
  obtain ⟨f, hf, -, hpath, hdecls⟩ := enterProcedure_eq framed header
  have hscope : insideProgram (.procedure :: cs) = true → framed.declarations.currentScope ≠ none := by
    rw [insideProgram_procedure]
    exact hcurrent
  have hcomplete : framed.declarations.Complete (insideProgram (.procedure :: cs)) f :=
    ⟨hf.waiting _, hf.indexed, hf.realized _, by simp [hf.symbols]⟩
  obtain ⟨hsettled, hrealized, hgains⟩ := startProcedure_converted hready hscope header hf.roots hcomplete
  have hstep : Step framed.declarations (framed.declarations.startProcedure header f).2.2 := .startProcedure _ header f
  have hpres := hstep.preserves hready
  have hshape := startProcedure_shape framed.declarations header f
  rw [hf.symbols] at hgains
  generalize ((framed.enter (.procedure header)).addParameters header.parameters).declareProcedure header = started
    at hpath hdecls ⊢
  generalize framed.declarations.startProcedure header f = made
    at hsettled hrealized hgains hstep hpres hshape hpath hdecls
  obtain ⟨id, parameters, d⟩ := made
  have hsymbol := symbol?_bindIfMade (symbol?_newNode framed (.procedure header)) id
  refine hentered.setCurrent (o := ⟨Declarations.bindIfMade (framed.newNode (.procedure header)) id, parameters⟩) rfl
    ?_ ?_ hsettled ⟨?_, ?_, ?_⟩ ?_ ?_
  · rw [hdecls]
    exact hpres
  · cases id <;> rfl
  · rw [indexNames_congr hshape, hf.indexNames]
    cases id <;> rfl
  · exact (indexed_congr hshape).mpr hf.indexed
  · rw [hdecls]
    exact hrealized
  · rw [hdecls, hsymbol]
    exact hgains
  · rw [hpath]
    rfl

theorem Tracks.endProcedure_eq (h : b.Tracks (.procedure :: cs)) :
    b.endProcedure = ((b.closeDefinitions none).exit.mapDeclarations Declarations.endProcedure).popFrame := by
  have heq : b.exitThrough isProcedure = (true, (b.closeDefinitions none).exit) := h.exitThrough.1
  unfold Build.endProcedure
  rw [heq]

theorem Tracks.endProcedure (h : b.Tracks (.procedure :: cs)) : b.endProcedure.Shaped cs := by
  have hstep : Step (b.closeDefinitions none).exit.declarations _ := .endProcedure _
  rw [h.endProcedure_eq]
  exact (h.exitThrough.2.step (h.closeDefinitions none).ready hstep).congr (popFrame_path _)
    (by rw [popFrame_declarations]; rfl)

theorem Tracks.opening (h : b.Tracks cs) {event : Event} (hopens : event.opens = some c) :
    (b.step event).Shaped (c :: cs) := by
  cases event <;> cases hopens
  case startProgram header => exact h.startProgram header
  case startStorage storage header => exact h.startStorage storage header
  case startFile entry => exact (h.closeDefinitions none).toShaped.enter rfl
  case startProcedureDivision header => exact h.startProcedureDivision header
  case startProcedure header => exact h.startProcedure header
  case startSection heading =>
    exact h.declareHeading rfl (·.startHeading heading) (.startHeading _ heading) (startHeading_gains heading)
  case startParagraph heading =>
    exact h.declareHeading rfl (·.startParagraph heading) (.startParagraph _ heading) (startParagraph_gains heading)
  all_goals exact h.toShaped.enter rfl

theorem Tracks.closing {event : Event} (h : b.Tracks (c :: cs)) (hcloses : event.closes = some c) :
    (b.step event).Shaped cs := by
  obtain ⟨heq, hshaped⟩ := h.exitThrough
  have hended : (b.exitThrough (Construct.wanted c)).2.Shaped cs := by
    rw [heq]
    exact hshaped
  cases event <;> cases hcloses
  case endProgram marker => exact h.endProgram marker
  case endStorage storage => exact hended.congr rfl rfl
  case endProcedure => exact h.endProcedure
  case endSection => exact hended.congr rfl rfl
  all_goals exact hended

theorem Tracks.entry (h : b.Tracks cs) {event : Event} (hopens : event.opens = none) (hcloses : event.closes = none) :
    (b.step event).Shaped cs := by
  rcases entry_cases hopens hcloses with ⟨body, rfl⟩ | ⟨level, hlevel⟩
  · exact h.toShaped.leaf rfl rfl rfl
  · obtain ⟨kind, entry, -, hkind, hnames, heq⟩ := b.step_entry hlevel
    rw [heq]
    refine (h.closeDefinitions (bound level)).toShaped.addIndexes (isDefinition_of_level hkind) ?_ ?_ hnames <;> rfl

section

variable (h : b.Tracks cs)
include h

theorem Tracks.entry_same {event : Event} (hopens : event.opens = none) (hcloses : event.closes = none) :
    SameOpen b (b.step event) :=
  entry_keep (fun hdef hsame => hsame.trans (openEntry_unmarked _ hdef).same)
    (fun hdef hkind hsame => hsame.trans (leaf_unmarked _ hdef hkind).same)
    (fun hsame => hsame.trans (markCurrent_unmarked _ _).same) (SameOpen.refl b) h.closeDefinitions_same hopens hcloses

theorem Tracks.same_of_closed {closed : Build} (hclosed : closed = b ∨ closed = b.closeDefinitions none) :
    SameOpen b closed := by
  rcases hclosed with rfl | rfl
  · exact .refl _
  · exact h.closeDefinitions_same none

/-- An event that opens a construct may close data entries first. -/
theorem Tracks.opens {event : Event} (hopens : event.opens = some c) :
    ∃ closed id, (closed = b ∨ closed = b.closeDefinitions none) ∧ Opens closed (b.step event) ⟨c, id⟩ := by
  have hsame : b.closeDefinitions none = b ∨ b.closeDefinitions none = b.closeDefinitions none := .inr rfl
  obtain ⟨base, hready⟩ := h.ready
  obtain ⟨base', hready'⟩ := (h.closeDefinitions none).ready
  cases event <;> cases hopens
  case startProgram header => exact ⟨_, _, hsame, startProgram_opens hready' header⟩
  case startStorage storage header => exact ⟨_, _, hsame, startStorage_opens b storage header⟩
  case startFile entry => exact ⟨_, _, hsame, opens_enter _ rfl rfl rfl⟩
  case startProcedureDivision header => exact ⟨_, _, hsame, startProcedureDivision_opens hready' header⟩
  case startProcedure header =>
    obtain ⟨f, hf, -⟩ := startProcedure_opens hready' header
    exact ⟨_, _, hsame, hf⟩
  case startSection heading => exact ⟨_, _, .inl rfl, startSection_opens hready heading⟩
  case startParagraph heading => exact ⟨_, _, .inl rfl, startParagraph_opens hready heading⟩
  all_goals exact ⟨_, _, .inl rfl, opens_enter b rfl rfl rfl⟩

end

theorem Tracks.exit_boundaries (h : b.Tracks (c :: cs)) : ∃ id,
    (b.closeDefinitions none).exit.path.boundaries = (b.closeDefinitions none).path.boundaries ++ [.finish] ∧
      (b.closeDefinitions none).path.openings = ⟨c, id⟩ :: (b.closeDefinitions none).exit.path.openings := by
  obtain ⟨hkind, hroot⟩ := (h.closeDefinitions none).toShaped.current_construct h.closeDefinitions_current
  exact Build.exit_boundaries hkind hroot

theorem Tracks.endProgram_closes (h : b.Tracks (.program :: cs)) (marker : Option ProgramEnd) :
    ∃ id, Closes (b.closeDefinitions none) (b.endProgram marker) ⟨.program, id⟩ := by
  obtain ⟨marked, rfl, hmarked, hcurrent, heq⟩ := h.endProgram_eq marker
  obtain ⟨hkind, hroot⟩ := hmarked.current_construct hcurrent
  obtain ⟨id, hbounds, hopenings⟩ := Build.exit_boundaries hkind hroot
  have hstack := endProgram_stack ((b.closeDefinitions none).addMarker marker).declarations
  rw [heq]
  refine ⟨id, (addMarker_unmarked _ marker).closes ⟨?_, ?_, (popFrame_frames _).1, (popFrame_frames _).2, ?_, ?_⟩⟩
  · rw [popFrame_path]
    exact hbounds
  · rw [popFrame_path]
    exact hopenings
  · rw [popFrame_declarations]
    exact hstack.1
  · rw [popFrame_declarations]
    exact hstack.2

theorem Tracks.endProcedure_closes (h : b.Tracks (.procedure :: cs)) :
    ∃ id, Closes (b.closeDefinitions none) b.endProcedure ⟨.procedure, id⟩ := by
  obtain ⟨id, hbounds, hopenings⟩ := h.exit_boundaries
  rw [h.endProcedure_eq]
  refine ⟨id, ?_, ?_, (popFrame_frames _).1, (popFrame_frames _).2, ?_, ?_⟩
  · rw [popFrame_path]
    exact hbounds
  · rw [popFrame_path]
    exact hopenings
  · rw [popFrame_declarations]
    rfl
  · rw [popFrame_declarations]
    rfl

/-- The end of a construct that is no program and no procedure. -/
theorem Tracks.exitThrough_closes (h : b.Tracks (c :: cs)) (hscope : c.isScope = false) {ended : Build}
    (hended : (b.exitThrough (Construct.wanted c)).2 = ended) (hpath : b'.path = ended.path)
    (hframes : b'.frames = ended.frames) (hkept : b'.storage = if storages.ended c then none else ended.storage)
    (hstack : SameStack ended.declarations b'.declarations) : ∃ id, Closes (b.closeDefinitions none) b' ⟨c, id⟩ := by
  obtain ⟨id, hbounds, hopenings⟩ := h.exit_boundaries
  rw [h.exitThrough.1] at hended
  subst hended
  rw [← hpath] at hbounds hopenings
  refine ⟨id, hbounds, hopenings, ?_, ?_, ?_, ?_⟩
  · rw [hframes, hscope]
    rfl
  · rw [hkept, hscope]
    rfl
  · rw [hstack.1]
    cases c <;> first | rfl | cases hscope
  · rw [hstack.2]
    cases c <;> first | rfl | cases hscope

/-- An event that closes the innermost construct. -/
theorem Tracks.closes {event : Event} (h : b.Tracks (c :: cs)) (hcloses : event.closes = some c) :
    ∃ id, Closes (b.closeDefinitions none) (b.step event) ⟨c, id⟩ := by
  cases event <;> cases hcloses
  case endProgram marker => exact h.endProgram_closes marker
  case endProcedure => exact h.endProcedure_closes
  all_goals exact h.exitThrough_closes rfl rfl rfl rfl rfl ⟨rfl, rfl⟩

end Events

section Runs

variable {b : Build} {cs cs' : List Construct}

/-- What reading an event leaves open. -/
theorem nest_of_opens {event : Event} {c : Construct} (h : nest cs event = some cs') (hopens : event.opens = some c) :
    cs' = c :: cs := by
  unfold nest at h
  rw [hopens] at h
  exact (Option.some.inj h).symm

theorem nest_of_closes {event : Event} {c : Construct} (h : nest cs event = some cs') (hopens : event.opens = none)
    (hcloses : event.closes = some c) : cs = c :: cs' := by
  unfold nest at h
  rw [hopens, hcloses] at h
  cases cs with
  | nil => simp at h
  | cons top rest =>
    by_cases htop : top = c
    · simp [htop] at h
      rw [htop, h]
    · simp [htop] at h

theorem nest_of_neither {event : Event} (h : nest cs event = some cs') (hopens : event.opens = none)
    (hcloses : event.closes = none) : cs' = cs := by
  unfold nest at h
  rw [hopens, hcloses] at h
  exact (Option.some.inj h).symm

/-- Every well-nested event is tracked: it opens the construct of its node, closes the innermost one or leaves all open. -/
theorem Tracks.event (h : b.Tracks cs) {event : Event} (hnest : nest cs event = some cs') :
    (b.step event).Tracks cs' := by
  have hready := (b.step_acts event).steps.keep Step.ready h.ready
  cases hopens : event.opens with
  | some c =>
    obtain rfl := nest_of_opens hnest hopens
    obtain ⟨closed, id, hclosed, hid⟩ := h.opens hopens
    exact { h.opening hopens with stacked := (h.stacked.same (h.same_of_closed hclosed)).opens hid, ready := hready }
  | none =>
    cases hcloses : event.closes with
    | some c =>
      obtain rfl := nest_of_closes hnest hopens hcloses
      obtain ⟨id, hid⟩ := h.closes hcloses
      exact { h.closing hcloses with stacked := (h.closeDefinitions none).stacked.closes hid, ready := hready }
    | none =>
      obtain rfl := nest_of_neither hnest hopens hcloses
      exact { h.entry hopens hcloses with stacked := h.stacked.same (h.entry_same hopens hcloses), ready := hready }

/-- What every event keeps that follows the open constructs is kept by well-nested events. -/
theorem steps_keep {P : Build → List Construct → Prop} {events : List Event}
    (hevent : ∀ {b : Build} {cs next : List Construct} {event : Event}, nest cs event = some next → P b cs →
      P (b.step event) next) (h : P b cs) (hnest : events.foldlM nest cs = some cs') : P (b.steps events) cs' := by
  induction events generalizing b cs with
  | nil =>
    cases hnest
    exact h
  | cons event rest ih =>
    rw [foldlM_cons] at hnest
    obtain ⟨next, hnext, hrest⟩ := Option.bind_eq_some_iff.mp hnest
    exact ih (hevent hnext h) hrest

theorem Tracks.events {events : List Event} (h : b.Tracks cs) (hnest : events.foldlM nest cs = some cs') :
    (b.steps events).Tracks cs' := steps_keep (fun hevent h => h.event hevent) h hnest

/-- Every well-nested event keeps the two stacks in step. -/
theorem InStep.event (h : b.InStep) (htracks : b.Tracks cs) {event : Event}
    (hnest : nest cs event = some cs') : (b.step event).InStep := by
  cases hopens : event.opens with
  | some c =>
    obtain ⟨closed, id, hclosed, hid⟩ := htracks.opens hopens
    exact (h.same (htracks.same_of_closed hclosed)).opens hid
  | none =>
    cases hcloses : event.closes with
    | some c =>
      obtain rfl := nest_of_closes hnest hopens hcloses
      obtain ⟨id, hid⟩ := htracks.closes hcloses
      exact (h.same (htracks.closeDefinitions_same none)).closes hid
    | none => exact h.same (htracks.entry_same hopens hcloses)

theorem InStep.events {events : List Event} (h : b.InStep) (htracks : b.Tracks cs)
    (hnest : events.foldlM nest cs = some cs') : (b.steps events).InStep :=
  (steps_keep (P := fun b cs => b.Tracks cs ∧ b.InStep)
    (fun hevent h => ⟨h.1.event hevent, h.2.event h.1 hevent⟩) ⟨htracks, h⟩ hnest).2

end Runs

end Build

end CobolSymbols
