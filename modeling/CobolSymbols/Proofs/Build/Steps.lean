import CobolSymbols.Build.Step
import CobolSymbols.Proofs.Tree.Standing
import Mathlib.Logic.Relation

/-!
# What reading an event does

Every event stands for a list of nodes. Reading it is a sequence of acts: nodes are added or closed, marked or bound, and
the declarations take one of ten steps. So what each act keeps is kept while a unit is read, and what each step keeps is
kept by its declarations.
-/

set_option autoImplicit false

namespace CobolSymbols

/-- The nodes of the index names of an entry. -/
def DataEntry.indexKinds (entry : DataEntry) : List NodeKind := entry.indexNames.map .index

/-- What the nodes that an event stands for are made from, in source order. -/
def Event.nodeKinds : Event → List NodeKind
  | .startProgram header => [.program header]
  | .endProgram marker => marker.toList.map .programEnd
  | .startDataDivision position => [.dataDivision position]
  | .startStorage storage header => [.storage storage header]
  | .startFile entry => [.file entry]
  | .dataEntry entry =>
    (if entry.isTypeDefinition then .typeDefinition entry else .data entry) :: entry.indexKinds
  | .redefinesEntry entry => .redefines entry :: entry.entry.indexKinds
  | .renamesEntry entry => [.renames entry]
  | .conditionEntry entry => [.condition entry]
  | .typedefEntry entry => .typeDefinition entry :: entry.indexKinds
  | .startProcedureDivision header => [.procedureDivision header]
  | .startDeclaratives position => [.declaratives position]
  | .startProcedure header =>
    .procedure header :: header.parameters.map fun (direction, entry) => .parameter entry direction
  | .startSection heading => [.heading heading]
  | .startParagraph heading => [.paragraph heading]
  | .statement body => [.statement body]
  | .endDataDivision | .endStorage _ | .endFile | .endProcedureDivision | .endDeclaratives | .endProcedure
  | .endSection | .endParagraph => []

/-- The level of a data entry. -/
def Event.level? : Event → Option Level
  | .dataEntry entry | .typedefEntry entry => some entry.level
  | .redefinesEntry entry => some entry.entry.level
  | .renamesEntry _ => some renamesLevel
  | .conditionEntry _ => some conditionLevel
  | _ => none

/-- The ways in which reading a unit changes its declarations. -/
inductive Declarations.Step : Declarations → Declarations → Prop
  | startProgram (d : Declarations) (header : ProgramHeader) : Step d (d.startProgram header).2
  | endProgram (d : Declarations) : Step d d.endProgram
  | setStorage (d : Declarations) (storage : Option StorageSection) : Step d { d with storage }
  | declareRecord (d : Declarations) (tree : Tree) : Step d (d.declareRecord tree).2
  | startProcedureDivision (d : Declarations) (header : ProcedureHeader) : Step d (d.startProcedureDivision header)
  | startProcedure (d : Declarations) (header : DeclaredProcedure) (parameters : Forest) :
      Step d (d.startProcedure header parameters).2.2
  | endProcedure (d : Declarations) : Step d d.endProcedure
  | startHeading (d : Declarations) (heading : SectionHeading) : Step d (d.startHeading heading).2
  | endHeading (d : Declarations) : Step d { d with heading := none }
  | startParagraph (d : Declarations) (heading : ParagraphHeading) : Step d (d.startParagraph heading).2

/-- The steps that make no items. -/
inductive Declarations.PlainStep : Declarations → Declarations → Prop
  | startProgram (d : Declarations) (header : ProgramHeader) : PlainStep d (d.startProgram header).2
  | endProgram (d : Declarations) : PlainStep d d.endProgram
  | setStorage (d : Declarations) (storage : Option StorageSection) : PlainStep d { d with storage }
  | startProcedureDivision (d : Declarations) (header : ProcedureHeader) : PlainStep d (d.startProcedureDivision header)
  | endProcedure (d : Declarations) : PlainStep d d.endProcedure
  | startHeading (d : Declarations) (heading : SectionHeading) : PlainStep d (d.startHeading heading).2
  | endHeading (d : Declarations) : PlainStep d { d with heading := none }
  | startParagraph (d : Declarations) (heading : ParagraphHeading) : PlainStep d (d.startParagraph heading).2

theorem Declarations.PlainStep.step {d d' : Declarations} (h : PlainStep d d') : Step d d' := by
  cases h with
  | startProgram header => exact .startProgram d header
  | endProgram => exact .endProgram d
  | setStorage storage => exact .setStorage d storage
  | startProcedureDivision header => exact .startProcedureDivision d header
  | endProcedure => exact .endProcedure d
  | startHeading heading => exact .startHeading d heading
  | endHeading => exact .endHeading d
  | startParagraph heading => exact .startParagraph d heading

/-- Any number of steps. -/
def Declarations.Steps : Declarations → Declarations → Prop := Relation.ReflTransGen Declarations.Step

/-- What all steps keep holds after any number of them. -/
theorem Declarations.Steps.keep {P : Declarations → Prop} {d d' : Declarations} (h : Steps d d')
    (hstep : ∀ {d d'}, Step d d' → P d → P d') (hd : P d) : P d' := by
  induction h with
  | refl => exact hd
  | tail _ hlast ih => exact hstep hlast ih

namespace Build

open Declarations (Step Steps PlainStep)

variable (b : Build) (entry : DataEntry) (marker : Option ProgramEnd) (wanted : NodeKind → Bool)

theorem bindCurrent_declarations (meaning : Option Meaning) : (b.bindCurrent meaning).declarations = b.declarations := by
  cases meaning <;> rfl

theorem popFrame_declarations : b.popFrame.declarations = b.declarations := by
  unfold popFrame
  split <;> rfl

section Keep

variable {b}
variable {P : Build → Prop}

/-- What closing a definition keeps holds after any number of them is closed. -/
theorem closeDefinitions_keep (hexit : ∀ {b : Build}, b.current.isDefinition = true → P b → P b.exitDefinition) (h : P b)
    (bound : Option Level) : P (b.closeDefinitions bound) := by
  unfold closeDefinitions
  generalize b.path.above.length = steps
  induction steps generalizing b with
  | zero => exact h
  | succ steps ih =>
    unfold closeWithin
    split
    · exact h
    · rename_i definition hsome
      split
      · exact h
      · exact ih (hexit (by simp [Node.isDefinition, hsome]) h)

/-- What index names and marks keep holds after the index names of an entry are added. -/
theorem addIndexes_keep (hleaf : ∀ {b : Build} (name : IndexName), P b → P (b.leaf (.index name)))
    (hmark : ∀ {b : Build}, P b → P (b.markCurrent .containsIndex)) (h : P b) (entry : DataEntry) :
    P (b.addIndexes entry) := by
  have hleaves : ∀ (names : List IndexName) {b : Build}, P b →
      P (names.foldl (fun b name => b.leaf (.index name)) b) := by
    intro names
    induction names with
    | nil => exact id
    | cons name rest ih => exact fun h => ih (hleaf name h)
  unfold addIndexes
  split
  · exact h
  · exact hmark (hleaves _ h)

end Keep

/-- The node of a data entry is opened, and the body of a type with it unless one is open. -/
def openEntry (b : Build) (kind : NodeKind) : Build :=
  { b.enter kind with
    typeNode := if kind.isTypeDefinition then b.typeNode.or (some b.nodeCount) else b.typeNode }

theorem openType_enter : (b.enter (.typeDefinition entry)).openType = b.openEntry (.typeDefinition entry) := by
  obtain ⟨path, count, d, typeNode, storage, flags, frames⟩ := b
  cases typeNode <;> rfl

/-- A data entry closes open entries, opens its own node, and adds its index names below it. -/
theorem step_entry {event : Event} {level : Level} (h : event.level? = some level) : ∃ kind entry,
    event.nodeKinds = kind :: DataEntry.indexKinds entry ∧ kind.definition?.map (·.level) = some level ∧
      kind.indexNames = entry.indexNames ∧
      b.step event = ((b.closeDefinitions (bound level)).openEntry kind).addIndexes entry := by
  have htype : ∀ entry : DataEntry, b.typedefEntry entry =
      ((b.closeDefinitions (bound entry.level)).openEntry (.typeDefinition entry)).addIndexes entry := fun entry =>
    congrArg (·.addIndexes entry) (openType_enter _ entry)
  cases event with
  | dataEntry entry =>
    cases h
    cases hclause : entry.isTypeDefinition with
    | true =>
      exact ⟨.typeDefinition entry, entry, by simp [Event.nodeKinds, hclause], rfl, rfl, (if_pos hclause).trans (htype entry)⟩
    | false => exact ⟨.data entry, entry, by simp [Event.nodeKinds, hclause], rfl, rfl, if_neg (by simp [hclause])⟩
  | typedefEntry entry =>
    cases h
    exact ⟨.typeDefinition entry, entry, rfl, rfl, rfl, htype entry⟩
  | redefinesEntry entry =>
    cases h
    exact ⟨.redefines entry, entry.entry, rfl, rfl, rfl, rfl⟩
  | renamesEntry entry =>
    cases h
    exact ⟨.renames entry, {}, rfl, rfl, rfl, rfl⟩
  | conditionEntry entry =>
    cases h
    exact ⟨.condition entry, {}, rfl, rfl, rfl, rfl⟩
  | _ => cases h

section Acts

/-- The flags of new nodes in the program or procedure that is open and in those around it. -/
def scopeFlagSets (b : Build) : List NodeFlags := b.scopeFlags :: b.frames.map Frame.flags

/-- What building does at a time, with the nodes that it adds to the tree. -/
inductive Act : Build → List NodeKind → Build → Prop
  /-- The tree and the declarations stay. -/
  | aside {b b' : Build} (hpath : b'.path = b.path) (hcount : b'.nodeCount = b.nodeCount)
      (hsame : b'.declarations = b.declarations)
      (hflags : ∀ flags ∈ b'.scopeFlagSets, flags ∈ b.scopeFlagSets ∨ flags = ∅) : Act b [] b'
  | leaf (b : Build) {kind : NodeKind} (hkind : isProcedure kind = false) : Act b [kind] (b.leaf kind)
  | addParameter (b : Build) (parameter : Option Direction × DataEntry) :
      Act b [.parameter parameter.2 parameter.1] (b.addParameter parameter)
  | enter (b : Build) {k : NodeKind} (hkind : isProcedure k = false) : Act b [k] (b.enter k)
  /-- A procedure marks a program when its node is added. -/
  | enterProcedure (b : Build) (header : DeclaredProcedure) :
      Act b [.procedure header] ((b.markProgram.pushFrame (.single .insideProcedure)).enter (.procedure header))
  | exit (b : Build) : Act b [] b.exit
  | exitDefinition (b : Build) : Act b [] b.exitDefinition
  | markCurrent (b : Build) {flag : NodeFlag} (hflag : flag = .containsIndex ∨ flag = .missingEnd) :
      Act b [] (b.markCurrent flag)
  /-- Definitions get their symbols when they are closed. -/
  | bindCurrent (b : Build) (hnot : b.current.isDefinition = false) (meaning : Option Meaning) :
      Act b [] (b.bindCurrent meaning)
  | plain {b : Build} {d : Declarations} (hplain : PlainStep b.declarations d) : Act b [] { b with declarations := d }
  | declareProcedure (b : Build) (header : DeclaredProcedure) :
      Act ((b.enter (.procedure header)).addParameters header.parameters) []
        (((b.enter (.procedure header)).addParameters header.parameters).declareProcedure header)

/-- Acts one after the other. -/
inductive Acts : Build → List NodeKind → Build → Prop
  | refl (b : Build) : Acts b [] b
  | tail {b b' b'' : Build} {kinds more : List NodeKind} (h : Acts b kinds b') (hlast : Act b' more b'') :
      Acts b (kinds ++ more) b''

variable {b}
variable {b' b'' : Build} {kinds more : List NodeKind}

theorem Act.acts (h : Act b kinds b') : Acts b kinds b' := (Acts.refl b).tail h

theorem Acts.trans (h : Acts b kinds b') (h' : Acts b' more b'') : Acts b (kinds ++ more) b'' := by
  induction h' with
  | refl => simpa using h
  | tail _ hlast ih => simpa using ih.tail hlast

/-- What adds nothing may come after. -/
theorem Acts.followed (h : Acts b kinds b') (h' : Acts b' [] b'') : Acts b kinds b'' := by
  simpa using h.trans h'

end Acts

theorem closeDefinitions_acts (bound : Option Level) : Acts b [] (b.closeDefinitions bound) :=
  closeDefinitions_keep (fun _ h => h.followed (Act.exitDefinition _).acts) (.refl b) bound

theorem exitWithin_acts (steps : Nat) (b : Build) : Acts b [] (exitWithin wanted steps b).2 := by
  induction steps generalizing b with
  | zero => exact .refl b
  | succ steps ih =>
    rw [exitWithin]
    split
    · exact .refl b
    · split
      · exact (Act.exit b).acts
      · exact (Act.exit b).acts.trans (ih b.exit)

/-- Ends add nothing, whether or not there is a node that they close. -/
theorem exitThrough_acts : Acts b [] (b.exitThrough wanted).2 :=
  (b.closeDefinitions_acts none).trans (exitWithin_acts wanted _ _)

theorem exitToProgram_acts (steps : Nat) (b : Build) : Acts b [] (exitToProgram steps b) := by
  induction steps generalizing b with
  | zero => exact .refl b
  | succ steps ih =>
    rw [exitToProgram]
    split
    · exact .refl b
    · exact (Act.exit b).acts.trans (ih b.exit)

theorem foldl_leaf_acts (names : List IndexName) (b : Build) :
    Acts b (names.map .index) (names.foldl (fun b name => b.leaf (.index name)) b) := by
  induction names generalizing b with
  | nil => exact .refl b
  | cons name rest ih => exact (Act.leaf b rfl).acts.trans (ih _)

/-- Index names become nodes in the order in which they are written. -/
theorem addIndexes_acts : Acts b entry.indexKinds (b.addIndexes entry) := by
  unfold addIndexes DataEntry.indexKinds
  split
  · rename_i hnames
    rw [hnames]
    exact .refl b
  · exact (foldl_leaf_acts entry.indexNames b).followed (Act.markCurrent _ (.inl rfl)).acts

/-- Parameters become nodes in the order in which they are written. -/
theorem addParameters_acts (parameters : List (Option Direction × DataEntry)) (b : Build) :
    Acts b (parameters.map fun (direction, entry) => .parameter entry direction) (b.addParameters parameters) := by
  induction parameters generalizing b with
  | nil => exact .refl b
  | cons parameter rest ih => exact (Act.addParameter b parameter).acts.trans (ih _)

theorem popFrame_act : Act b [] b.popFrame := by
  unfold popFrame
  split
  · exact .aside rfl rfl rfl fun _ => .inl
  · rename_i frame rest hframes
    refine .aside rfl rfl rfl fun flags hflags => .inl ?_
    unfold scopeFlagSets
    rw [hframes]
    exact .tail _ hflags

/-- A node that is no definition gets a symbol. -/
theorem declareCurrent_acts (declare : Declarations → Option SymbolId × Declarations)
    (hnot : b.current.isDefinition = false) (hplain : PlainStep b.declarations (declare b.declarations).2) :
    Acts b [] (b.declareCurrent declare) :=
  (Act.plain hplain).acts.tail (.bindCurrent { b with declarations := (declare b.declarations).2 } hnot _)

theorem startProgram_acts (header : ProgramHeader) : Acts b [.program header] (b.startProgram header) := by
  have hframe : Acts b [] ((b.closeDefinitions none).pushFrame ∅) :=
    (b.closeDefinitions_acts none).tail (.aside rfl rfl rfl fun _ hflags => (List.mem_cons.mp hflags).symm)
  exact (hframe.tail (.enter _ rfl)).trans (declareCurrent_acts _ _ rfl (.startProgram _ header))

theorem addMarker_act : Act b (marker.toList.map .programEnd) (b.addMarker marker) := by
  cases marker with
  | none => exact .markCurrent b (.inr rfl)
  | some marker => exact .leaf b rfl

theorem closeProgram_acts : Acts b [] b.closeProgram := by
  unfold closeProgram
  split
  · exact .refl b
  · exact ((Act.exit b).acts.tail (.plain (.endProgram _))).tail (popFrame_act _)

theorem endProgram_acts : Acts b (marker.toList.map .programEnd) (b.endProgram marker) := by
  have hclosed := (b.closeDefinitions_acts none).trans
    (exitToProgram_acts (b.closeDefinitions none).path.above.length (b.closeDefinitions none))
  exact (hclosed.tail (addMarker_act _ marker)).followed (closeProgram_acts _)

theorem startStorage_acts (storage : StorageSection) (header : StorageHeader) :
    Acts b [.storage storage header] (b.startStorage storage header) := by
  have hopened : Acts b [] ((b.closeDefinitions none).setStorage (some storage)) :=
    (b.closeDefinitions_acts none).tail (.aside rfl rfl rfl fun _ => .inl)
  have hentered := hopened.tail (.enter (k := .storage storage header) _ rfl)
  exact (hentered.followed (Act.bindCurrent _ rfl _).acts).followed (Act.plain (.setStorage _ (some storage))).acts

theorem entry_acts {event : Event} {level : Level} (h : event.level? = some level) :
    Acts b event.nodeKinds (b.step event) := by
  obtain ⟨kind, entry, hkinds, hlevel, -, heq⟩ := b.step_entry h
  have hkind : isProcedure kind = false := by cases kind <;> first | rfl | cases hlevel
  have hentered := (b.closeDefinitions_acts (bound level)).tail (.enter _ hkind)
  have hopened : Act ((b.closeDefinitions (bound level)).enter kind) []
      ((b.closeDefinitions (bound level)).openEntry kind) := .aside rfl rfl rfl fun _ => .inl
  rw [hkinds, heq]
  exact (hentered.followed hopened.acts).trans (addIndexes_acts _ entry)

theorem startProcedureDivision_acts (header : ProcedureHeader) :
    Acts b [.procedureDivision header] (b.startProcedureDivision header) := by
  have hstored : Acts b [] ((b.closeDefinitions none).setStorage none) :=
    (b.closeDefinitions_acts none).tail (.aside rfl rfl rfl fun _ => .inl)
  exact (hstored.tail (.plain (.startProcedureDivision _ header))).tail (.enter _ rfl)

theorem startProcedure_acts (header : DeclaredProcedure) :
    Acts b (Event.nodeKinds (.startProcedure header)) (b.startProcedure header) := by
  have hentered := (b.closeDefinitions_acts none).tail (.enterProcedure _ header)
  exact (hentered.trans (addParameters_acts header.parameters _)).followed (Act.declareProcedure _ header).acts

theorem endProcedure_acts : Acts b [] b.endProcedure := by
  have hclosed := b.exitThrough_acts isProcedure
  unfold endProcedure
  rcases h : b.exitThrough isProcedure with ⟨found, b'⟩
  rw [h] at hclosed
  cases found with
  | false => exact hclosed
  | true => exact (hclosed.tail (.plain (.endProcedure _))).tail (popFrame_act _)

/-- An event adds the nodes that it stands for. -/
theorem step_acts (event : Event) : Acts b event.nodeKinds (b.step event) := by
  cases event with
  | startProgram header => exact b.startProgram_acts header
  | endProgram marker => exact b.endProgram_acts marker
  | startDataDivision position | startDeclaratives position => exact (Act.enter b rfl).acts
  | endDataDivision | endFile | endProcedureDivision | endDeclaratives | endParagraph => exact b.exitThrough_acts _
  | startStorage storage header => exact b.startStorage_acts storage header
  | endStorage storage =>
    exact ((b.exitThrough_acts _).tail (.plain (.setStorage _ none))).tail (.aside rfl rfl rfl fun _ => .inl)
  | startFile entry => exact (b.closeDefinitions_acts none).tail (.enter _ rfl)
  | dataEntry | redefinesEntry | renamesEntry | conditionEntry | typedefEntry => exact b.entry_acts rfl
  | startProcedureDivision header => exact b.startProcedureDivision_acts header
  | startProcedure header => exact b.startProcedure_acts header
  | endProcedure => exact b.endProcedure_acts
  | startSection heading =>
    exact (Act.enter b rfl).acts.trans
      (declareCurrent_acts _ (·.startHeading heading) rfl (.startHeading _ heading))
  | endSection => exact (b.exitThrough_acts isHeading).tail (.plain (.endHeading _))
  | startParagraph heading =>
    exact (Act.enter b rfl).acts.trans
      (declareCurrent_acts _ (·.startParagraph heading) rfl (.startParagraph _ heading))
  | statement body => exact (Act.leaf b rfl).acts

theorem steps_acts (events : List Event) (b : Build) : Acts b (events.flatMap Event.nodeKinds) (b.steps events) := by
  induction events generalizing b with
  | nil => exact .refl b
  | cons event rest ih => exact (b.step_acts event).trans (ih (b.step event))

/-- A whole unit is built by acts. -/
theorem unit_acts (c : Context) (events : List Event) :
    Acts (Build.start c) (events.flatMap Event.nodeKinds) ((Build.start c).steps events).close :=
  (steps_acts events (Build.start c)).followed (closeDefinitions_acts _ none)

/-- What acts do to the declarations is some of their steps. -/
theorem Act.steps {b b' : Build} {kinds : List NodeKind} (h : Act b kinds b') : Steps b.declarations b'.declarations := by
  cases h with
  | aside _ _ hsame => exact hsame ▸ .refl
  | leaf | addParameter | enter | enterProcedure | exit | markCurrent => exact .refl
  | exitDefinition =>
    unfold Build.exitDefinition
    split
    · exact .refl
    · simp only
      split
      · exact .refl
      · exact .single (.declareRecord _ _)
  | bindCurrent =>
    rw [bindCurrent_declarations]
    exact .refl
  | plain hplain => exact .single hplain.step
  | declareProcedure =>
    unfold Build.declareProcedure
    rw [bindCurrent_declarations]
    exact .single (.startProcedure ..)

theorem Acts.steps {b b' : Build} {kinds : List NodeKind} (h : Acts b kinds b') :
    Steps b.declarations b'.declarations := by
  induction h with
  | refl => exact .refl
  | tail _ hlast ih => exact ih.trans hlast.steps

/-- A whole unit takes steps of the declarations. -/
theorem unit_steps (c : Context) (events : List Event) :
    Steps { context := c } ((Build.start c).steps events).close.declarations := (unit_acts c events).steps

end Build

end CobolSymbols
