import CobolSymbols.Proofs.OpenScopes
import CobolSymbols.Proofs.ProcedureMarks

/-!
# Nodes in the bodies of types

A node records the type in whose body it is made, and a flag tells whether there is one. The builder keeps that type in
one place: a type definition is kept when none is, it is given up when its node is closed, and programs and procedures put
it aside. For well-nested events it is the outermost type definition around the current node in the same program or
procedure.
-/

set_option autoImplicit false

namespace CobolSymbols

open Build List

/-- The type whose body is open below some nodes, nearest first, and those whose bodies are open around the programs and
procedures among them. The outermost type definition up to the nearest program or procedure counts. -/
def openTypes : List (NodeId × NodeKind) → Option NodeId × List (Option NodeId)
  | [] => (none, [])
  | (id, kind) :: above =>
    if kind.isScope then (none, (openTypes above).1 :: (openTypes above).2)
    else ((openTypes above).1.or (if kind.isTypeDefinition then some id else none), (openTypes above).2)

section OpenTypes

variable {id : NodeId} {kind : NodeKind} {above : List (NodeId × NodeKind)}

theorem openTypes_scope (hscope : kind.isScope = true) :
    openTypes ((id, kind) :: above) = (none, (openTypes above).1 :: (openTypes above).2) := if_pos hscope

theorem openTypes_node (hscope : kind.isScope = false) : openTypes ((id, kind) :: above) =
    ((openTypes above).1.or (if kind.isTypeDefinition then some id else none), (openTypes above).2) :=
  if_neg (ne_true_of_eq_false hscope)

theorem openTypes_plain (hscope : kind.isScope = false) (hplain : kind.isTypeDefinition = false) :
    openTypes ((id, kind) :: above) = openTypes above := by
  rw [openTypes_node hscope, hplain, if_neg Bool.false_ne_true, Option.or_none]

theorem mem_of_openTypes (h : (openTypes above).1 = some id) : id ∈ above.map Prod.fst := by
  induction above with
  | nil => cases h
  | cons label above ih =>
    unfold openTypes at h
    split at h
    · cases h
    · rcases Option.or_eq_some_iff.mp h with houter | ⟨-, hself⟩
      · exact mem_cons_of_mem _ (ih houter)
      · cases (Option.ite_none_right_eq_some.mp hself).2
        exact mem_cons_self

end OpenTypes

/-- What a node shows of the type in whose body it lies. -/
structure Node.Typing where
  label : NodeId × NodeKind
  typeNode : Option NodeId
  inside : Bool

def Node.typing (n : Node) : Node.Typing := ⟨n.label, n.typeNode, n.flags.has .insideType⟩

/-- A node at a site records the type whose body is open there. -/
structure Node.Typing.Fits (site : Node.Typing × List Node.Typing) : Prop where
  type : site.1.typeNode = if site.1.label.2.isScope then none else (openTypes (site.2.map label)).1
  inside : site.1.inside = site.1.typeNode.isSome

theorem Node.typing_shape (n : Node) : n.shape.typing = n.typing := rfl

theorem Node.typing_mark (n : Node) (flag : NodeFlag) (h : (FlagSet.single flag).has NodeFlag.insideType = false) :
    (n.mark flag).typing = n.typing := by
  unfold typing Node.mark
  rw [FlagSet.has_insert, h, Bool.or_false]
  rfl

theorem NodeKind.isScope_of_isDefinition {k : NodeKind} (h : k.isDefinition = true) : k.isScope = false := by
  cases k <;> first | rfl | cases h

/-- Closing the current node leaves the line of nodes above it. -/
theorem Path.line_close {α : Type} (view : Node → α) (p : Path) (hroot : ¬ p.atRoot = true) :
    p.line view = view p.current.node :: (p.close?.getD p).line view := by
  cases habove : p.above with
  | nil => exact absurd (by simp [Path.atRoot, habove]) hroot
  | cons o os =>
    rw [close?_of_above habove, Path.line, habove]
    rfl

namespace Build

variable {b b' : Build} {cs cs' : List Construct} {c : Construct} {kind : NodeKind} {e : Event} {n : Node}
  {context : Context} {kinds : List NodeKind}

/-- The types that the builder keeps are those whose bodies are open, and all nodes record theirs. -/
structure Typed (b : Build) : Prop where
  types : (b.typeNode, b.frames.map Frame.typeNode) = openTypes (b.path.line Node.label)
  flags : ∀ flags ∈ b.scopeFlagSets, flags.has .insideType = false
  sites : ∀ site ∈ b.path.sites Node.typing, Node.Typing.Fits site

theorem inside_newNode (h : b.scopeFlags.has .insideType = false) (kind : NodeKind) :
    (b.newNode kind).flags.has .insideType = b.typeNode.isSome := by
  show b.flags.has .insideType = _
  unfold Build.flags
  simp only [FlagSet.has_insertIf, FlagSet.has_union, FlagSet.has_ofList, h]
  cases b.typeNode.isSome <;> rcases b.storage with _ | ⟨⟨⟩⟩ <;> decide

/-- No open node has the number of the current one. -/
theorem Acts.id_ne_current (hmade : Acts (start context) kinds b) {o : OpenNode} (ho : o ∈ b.path.above) :
    o.node.id ≠ b.current.id := by
  have hlabels : b.path.labels = numbered 0 (.sourceFile :: kinds) := hmade.adds.labels
  have hids := congrArg (map Prod.fst) hlabels
  rw [Path.labels, map_map, numbered_map_fst] at hids
  have hnodup : (b.path.nodes.map Node.id).Nodup := hids ▸ nodup_range'
  rw [Path.nodes, map_append] at hnodup
  exact (nodup_append.mp hnodup).2.2 _ (mem_map_of_mem (mem_flatMap_of_mem (mem_reverse.mpr ho) mem_cons_self)) _
    (mem_map_of_mem mem_cons_self)

section

variable (h : b.Typed)
include h

/-- Nodes are marked, closed or given symbols. -/
theorem Typed.keep (htypes : (b'.typeNode, b'.frames.map Frame.typeNode) = openTypes (b'.path.line Node.label))
    (hflags : ∀ flags ∈ b'.scopeFlagSets, flags ∈ b.scopeFlagSets)
    (hsites : b'.path.sites Node.typing = b.path.sites Node.typing) : b'.Typed :=
  ⟨htypes, fun flags hmem => h.flags flags (hflags flags hmem), hsites ▸ h.sites⟩

/-- A node that fits is added. -/
theorem Typed.adds (hsites : b'.path.sites Node.typing = b.path.sites Node.typing ++ [(n.typing, b.path.line Node.typing)])
    (hfits : Node.Typing.Fits (n.typing, b.path.line Node.typing))
    (hflags : ∀ flags ∈ b'.scopeFlagSets, flags.has .insideType = false)
    (htypes : (b'.typeNode, b'.frames.map Frame.typeNode) = openTypes (b'.path.line Node.label)) : b'.Typed := by
  refine ⟨htypes, hflags, ?_⟩
  rw [hsites]
  exact forall_mem_append.mpr ⟨h.sites, forall_mem_singleton.mpr hfits⟩

theorem Typed.fits (hkind : kind.isScope = false) (hn : n.typing = (b.newNode kind).typing) :
    Node.Typing.Fits (n.typing, b.path.line Node.typing) := by
  have hline : (b.path.line Node.typing).map Node.Typing.label = b.path.line Node.label := map_map
  have hinside := inside_newNode (h.flags _ mem_cons_self) kind
  rw [hn]
  refine ⟨?_, hinside⟩
  rw [hline, ← h.types]
  exact (if_neg (ne_true_of_eq_false hkind)).symm

theorem Typed.leaf (hkind : kind.isScope = false) : (b.leaf kind).Typed :=
  h.adds (Path.leaf_sites _ _ _) (h.fits hkind rfl) h.flags h.types

theorem Typed.addParameters (parameters : List (Option Direction × DataEntry)) : (b.addParameters parameters).Typed := by
  induction parameters generalizing b with
  | nil => exact h
  | cons parameter rest ih =>
    have hmark := (b.newNode (.parameter parameter.2 parameter.1)).typing_mark .linkage (by decide)
    exact ih (h.adds (Path.leaf_sites _ _ _) (h.fits rfl hmark) h.flags h.types)

theorem Typed.markCurrent {flag : NodeFlag} (hflag : (FlagSet.single flag).has NodeFlag.insideType = false) :
    (b.markCurrent flag).Typed :=
  h.keep h.types (fun _ => id) (b.path.mapCurrent_sites fun n => n.typing_mark flag hflag)

theorem Typed.bindCurrent (meaning : Option Meaning) : (b.bindCurrent meaning).Typed := by
  have hsites := bindCurrent_sites Node.typing_shape b meaning
  cases meaning with
  | none => exact h
  | some meaning => exact h.keep h.types (fun _ => id) hsites

theorem Typed.aside (storage : Option StorageSection) (declarations : Declarations) :
    Typed { b with storage, declarations } := h.keep h.types (fun _ => id) rfl

theorem Typed.declareCurrent (declare : Declarations → Option SymbolId × Declarations) :
    (b.declareCurrent declare).Typed := (h.aside b.storage (declare b.declarations).2).bindCurrent _

theorem Typed.openEntry (hkind : kind.isScope = false) : (b.openEntry kind).Typed := by
  refine h.adds (Path.enter_sites _ _ (b.newNode kind)) (h.fits hkind rfl) h.flags ?_
  have hline : (b.openEntry kind).path.line Node.label = (b.nodeCount, kind) :: b.path.line Node.label := rfl
  rw [hline, openTypes_node hkind, ← h.types]
  unfold Build.openEntry
  cases kind.isTypeDefinition with
  | true => rfl
  | false => exact congrArg (·, _) Option.or_none.symm

theorem Typed.enter (hkind : kind.isScope = false) (hplain : kind.isTypeDefinition = false) : (b.enter kind).Typed := by
  have hentry := h.openEntry hkind
  unfold Build.openEntry at hentry
  rw [hplain] at hentry
  exact hentry

/-- A program or procedure is opened. -/
theorem Typed.enterScope (flags : NodeFlags) (hflags : flags.has .insideType = false) (hkind : kind.isScope = true) :
    ((b.pushFrame flags).enter kind).Typed := by
  have hinside := inside_newNode (b := b.pushFrame flags) hflags kind
  refine h.adds (n := (b.pushFrame flags).newNode kind) (Path.enter_sites _ _ _) ⟨(if_pos hkind).symm, hinside⟩
    (forall_mem_cons.mpr ⟨hflags, h.flags⟩) ?_
  have hline : ((b.pushFrame flags).enter kind).path.line Node.label = (b.nodeCount, kind) :: b.path.line Node.label := rfl
  rw [hline, openTypes_scope hkind, ← h.types]
  rfl

/-- A construct that is no program and no procedure is closed. -/
theorem Typed.exit (hkind : b.current.kind.isScope = false) (hplain : b.current.kind.isTypeDefinition = false)
    (hroot : ¬ b.path.atRoot = true) : b.exit.Typed := by
  have htypes := h.types.trans (congrArg openTypes (b.path.line_close Node.label hroot))
  exact h.keep (htypes.trans (openTypes_plain hkind hplain)) (fun _ => id) (Path.close?_sites _ _)

/-- A program or procedure is closed, and what it put aside is taken back. -/
theorem Typed.exitScope (hkind : b.current.kind.isScope = true) (hroot : ¬ b.path.atRoot = true)
    (f : Declarations → Declarations) : (b.exit.mapDeclarations f).popFrame.Typed := by
  have htypes := h.types.trans (congrArg openTypes (b.path.line_close Node.label hroot))
  have haside := congrArg Prod.snd (htypes.trans (openTypes_scope hkind))
  unfold popFrame
  split
  · rename_i hnone
    have hframes : b.frames = [] := hnone
    rw [hframes] at haside
    cases haside
  · rename_i frame rest hsome
    have hframes : b.frames = frame :: rest := hsome
    rw [hframes] at haside
    obtain ⟨htype, hrest⟩ := List.cons.inj haside
    refine h.keep (Prod.ext htype hrest) (fun flags hflags => ?_) (Path.close?_sites _ _)
    unfold scopeFlagSets
    rw [hframes]
    exact mem_cons_of_mem _ hflags

/-- A definition is closed. -/
theorem Typed.exitDefinition (hmade : Acts (start context) kinds b) (hdef : b.current.isDefinition = true) :
    b.exitDefinition.Typed := by
  have hkind : b.current.kind.isScope = false := NodeKind.isScope_of_isDefinition hdef
  cases habove : b.path.above with
  | nil =>
    unfold Build.exitDefinition Path.pop?
    rw [habove]
    exact h
  | cons o os =>
    have hother : (openTypes (Path.line Node.label ⟨o, os⟩)).1 ≠ some b.current.id := by
      intro hself
      obtain ⟨label, hlabel, hid⟩ := mem_map.mp (mem_of_openTypes hself)
      obtain ⟨outer, houter, rfl⟩ := mem_map.mp hlabel
      exact hmade.id_ne_current (habove ▸ houter) hid
    -- the type that stays is the one whose body is open above the definition
    have htypes : (b.typeAfter, b.frames.map Frame.typeNode) = openTypes (Path.line Node.label ⟨o, os⟩) := by
      have hline : b.path.line Node.label = (b.current.id, b.current.kind) :: Path.line Node.label ⟨o, os⟩ := by
        rw [Path.line, habove]
        rfl
      have htypes := h.types
      rw [hline, openTypes_node hkind] at htypes
      obtain ⟨htype, haside⟩ := Prod.mk.inj htypes
      refine Prod.ext ?_ haside
      unfold typeAfter
      rw [htype]
      cases hopen : (openTypes (Path.line Node.label ⟨o, os⟩)).1 with
      | none => split <;> simp
      | some type =>
        rw [hopen] at hother
        exact if_neg hother
    refine h.keep ?_ ?_ (exitDefinition_sites Node.typing_shape b) <;> rw [exitDefinition_of_above habove]
    · split <;> exact htypes
    · split <;> exact fun _ => id

theorem Typed.closeDefinitions (hmade : Acts (start context) kinds b) (bound : Option Level) :
    (b.closeDefinitions bound).Typed := by
  refine (closeDefinitions_keep (P := fun b => b.Typed ∧ ∃ kinds, Acts (start context) kinds b) (fun hdef h => ?_)
    ⟨h, kinds, hmade⟩ bound).1
  obtain ⟨h, kinds, hmade⟩ := h
  exact ⟨h.exitDefinition hmade hdef, kinds, hmade.followed (Act.exitDefinition _).acts⟩

/-- A procedure is opened, with its parameters. -/
theorem Typed.enterProcedure (header : DeclaredProcedure) :
    ((((b.markProgram.pushFrame (.single .insideProcedure)).enter (.procedure header)).addParameters
      header.parameters).declareProcedure header).Typed := by
  have hmarked : b.markProgram.Typed := by
    have hlabel : ∀ n : Node, (n.mark .containsProcedure).label = n.label := fun _ => rfl
    have hline : b.markProgram.path.line Node.label = b.path.line Node.label :=
      congrArg (b.current.label :: ·) (Path.mapFirst_line _ hlabel b.path.above)
    exact h.keep (h.types.trans (congrArg openTypes hline.symm)) (fun _ => id)
      (Path.mapFirstAbove_sites _ _ fun n => n.typing_mark _ (by decide))
  have hlisted := (hmarked.enterScope (.single .insideProcedure) (by decide) (rfl :
    (NodeKind.procedure header).isScope = true)).addParameters header.parameters
  generalize Build.addParameters _ header.parameters = listed at hlisted ⊢
  have hsites := declareProcedure_sites Node.typing_shape listed header
  unfold Build.declareProcedure at hsites ⊢
  rw [bindCurrent_sites Node.typing_shape] at hsites
  generalize listed.declarations.startProcedure header listed.path.current.children = made at hsites ⊢
  have hset : Typed { listed with path := listed.path.setChildren made.2.1, declarations := made.2.2 } :=
    hlisted.keep hlisted.types (fun _ => id) hsites
  exact hset.bindCurrent _

theorem Typed.opening (hmade : Acts (start context) kinds b) (hopens : e.opens = some c) : (b.step e).Typed := by
  have hclosed := h.closeDefinitions hmade none
  cases e <;> cases hopens
  case startProgram header =>
    exact (hclosed.enterScope ∅ (FlagSet.has_empty _) rfl).declareCurrent fun d =>
      (some (d.startProgram header).1, (d.startProgram header).2)
  case startStorage storage header =>
    exact (((hclosed.aside (some storage) _).enter rfl rfl).bindCurrent _).aside _ _
  case startFile entry => exact hclosed.enter rfl rfl
  case startProcedureDivision header => exact (hclosed.aside none _).enter rfl rfl
  case startProcedure header => exact hclosed.enterProcedure header
  case startSection heading => exact (h.enter rfl rfl).declareCurrent (·.startHeading heading)
  case startParagraph heading => exact (h.enter rfl rfl).declareCurrent (·.startParagraph heading)
  all_goals exact h.enter rfl rfl

theorem Typed.closing (hmade : Acts (start context) kinds b) (htracks : b.Tracks (c :: cs)) (hcloses : e.closes = some c) :
    (b.step e).Typed := by
  have hclosed := h.closeDefinitions hmade none
  obtain ⟨hkind, hroot⟩ := (htracks.closeDefinitions none).toShaped.current_construct htracks.closeDefinitions_current
  have hscope : (b.closeDefinitions none).current.kind.isScope = c.isScope := by rw [NodeKind.isScope_eq, hkind]; rfl
  have hended : c.isScope = false → (b.exitThrough (Construct.wanted c)).2.Typed := by
    intro hplain
    rw [htracks.exitThrough.1]
    refine hclosed.exit (hscope.trans hplain) ?_ hroot
    cases hnode : (b.closeDefinitions none).current.kind <;> first | rfl | (rw [hnode] at hkind; cases hkind)
  cases e <;> cases hcloses
  case endProgram marker =>
    obtain ⟨marked, rfl, hshaped, hcurrent, heq⟩ := htracks.endProgram_eq marker
    have hmarked : ((b.closeDefinitions none).addMarker marker).Typed := by
      cases marker with
      | none => exact hclosed.markCurrent (by decide)
      | some marker => exact hclosed.leaf rfl
    obtain ⟨hkind', hroot'⟩ := hshaped.current_construct hcurrent
    show (b.endProgram marker).Typed
    rw [heq]
    exact hmarked.exitScope (by rw [NodeKind.isScope_eq, hkind']; rfl) hroot' _
  case endStorage storage => exact (hended rfl).aside none _
  case endProcedure =>
    show b.endProcedure.Typed
    rw [htracks.endProcedure_eq]
    exact hclosed.exitScope hscope hroot _
  case endSection => exact (hended rfl).aside _ _
  all_goals exact hended rfl

theorem Typed.event (hmade : Acts (start context) kinds b) (htracks : b.Tracks cs) (hnest : nest cs e = some cs') :
    (b.step e).Typed := by
  cases hopens : e.opens with
  | some c => exact h.opening hmade hopens
  | none =>
    cases hcloses : e.closes with
    | some c =>
      obtain rfl := nest_of_closes hnest hopens hcloses
      exact h.closing hmade htracks hcloses
    | none =>
      have hleaf : ∀ {kind : NodeKind}, kind.construct? = none → kind.isScope = false := by
        intro kind hkind
        rw [NodeKind.isScope_eq, hkind]
        rfl
      exact entry_keep (P := Typed) (fun hdef h => h.openEntry (NodeKind.isScope_of_isDefinition hdef))
        (fun _ hkind h => h.leaf (hleaf hkind)) (fun h => h.markCurrent (by decide)) h (h.closeDefinitions hmade) hopens hcloses

end

theorem typed_start (c : Context) : (start c).Typed := by
  refine ⟨rfl, forall_mem_singleton.mpr (FlagSet.has_empty _), forall_mem_singleton.mpr ⟨rfl, ?_⟩⟩
  simp [start, Path.start, Node.typing]

/-- All nodes of a unit record the types whose bodies are open where they are made. -/
theorem typed_unit {events : List Event} (h : (start context).Tracks []) (hnested : WellNested events) :
    ((start context).steps events).close.Typed := by
  have hread := steps_keep (P := fun b cs => b.Tracks cs ∧ b.Typed ∧ ∃ kinds, Acts (start context) kinds b)
    (fun hevent h => by
      obtain ⟨htracks, htyped, kinds, hmade⟩ := h
      exact ⟨htracks.event hevent, htyped.event hmade htracks hevent, _, hmade.trans (step_acts _ _)⟩)
    ⟨h, typed_start context, _, .refl _⟩ hnested
  obtain ⟨-, htyped, kinds, hmade⟩ := hread
  exact htyped.closeDefinitions hmade none

end Build

/-- What is seen of a view is seen at each site. -/
theorem Forest.sites_map {α β : Type} (g : α → β) (view : Node → α) (f : Forest) (above : List α) :
    (f.sites view above).map (Prod.map g (List.map g)) = f.sites (g ∘ view) (above.map g) := by
  induction f generalizing above with
  | nil => rfl
  | cons node children siblings ihChildren ihSiblings => simp [sites, ihChildren, ihSiblings]

theorem openTypes_eq (line : List Node) : (openTypes (line.map Node.label)).1 =
    (((line.takeWhile fun m => !m.kind.isScope).filter fun m => m.kind.isTypeDefinition).getLast?).map Node.id := by
  induction line with
  | nil => rfl
  | cons n line ih =>
    rw [map_cons, Node.label, takeWhile_cons]
    cases hscope : n.kind.isScope with
    | true => rw [openTypes_scope hscope]; rfl
    | false =>
      rw [openTypes_node hscope, ih]
      cases htype : n.kind.isTypeDefinition <;> simp [htype, getLast?_cons]

/-- For well-nested events, the type that a node records is the outermost type definition around it in the same program or
procedure, and the node is marked as one in the body of a type exactly when there is one. Programs and procedures record
none. -/
theorem Session.type_bodies_recorded (options : Options) (actions : List Action) (file : FileId) {events : List Event}
    (hnested : WellNested events) {n : Node} {above : List Node}
    (hsite : (n, above) ∈ (Forest.ofTree ((reached options actions).compile file events).1.tree).sites id []) :
    n.typeNode = (((((n :: above).takeWhile fun m => !m.kind.isScope).tail).filter fun m =>
        m.kind.isTypeDefinition).getLast?).map Node.id ∧
      (n.flags.has .insideType = true ↔ n.typeNode ≠ none) := by
  have hsound := (regular_reached options actions).sound
  generalize reached options actions = s at hsound hsite
  have htracks : (Build.start { s.context with file }).Tracks [] := Build.tracks_start hsound
  have hsites := (typed_unit htracks hnested).sites
  rw [← Path.toTree_sites, ← Function.comp_id Node.typing, ← map_nil, ← Forest.sites_map] at hsites
  obtain ⟨htype, hinside⟩ := hsites _ (mem_map_of_mem hsite)
  refine ⟨htype.trans ?_, ?_⟩
  · show (if n.kind.isScope then none else (openTypes ((above.map Node.typing).map Node.Typing.label)).1) = _
    rw [takeWhile_cons]
    cases n.kind.isScope with
    | true => rfl
    | false =>
      rw [map_map]
      exact openTypes_eq above
  · rw [show n.flags.has .insideType = n.typeNode.isSome from hinside, Option.isSome_iff_ne_none]

/-- A type with a field. -/
def typeWithField : List Event :=
  [.startProgram { name := "P", position := ⟨1, 8⟩ }, .startStorage .workingStorage {},
    .dataEntry ((DataEntry.named 1 "T" ⟨2, 8⟩).asTypeDefinition {}), .dataEntry (.named 5 "F" ⟨3, 8⟩),
    .endStorage .workingStorage, .endProgram none]

theorem type_bodies_recorded_field : ∃ n above,
    (n, above) ∈ (Forest.ofTree ((Session.reached {} []).compile 0 typeWithField).1.tree).sites id [] ∧
      n.typeNode = some 3 ∧ n.flags.has .insideType = true := by
  have hsite : ∃ site ∈ (Forest.ofTree ((Session.reached {} []).compile 0 typeWithField).1.tree).sites id [],
      site.1.typeNode = some 3 := by decide +kernel
  obtain ⟨⟨n, above⟩, hsite, htype⟩ := hsite
  have hmarked := (Session.type_bodies_recorded {} [] 0 (by decide) hsite).2
  exact ⟨n, above, hsite, htype, hmarked.mpr (by rw [htype]; exact Option.some_ne_none _)⟩

end CobolSymbols
