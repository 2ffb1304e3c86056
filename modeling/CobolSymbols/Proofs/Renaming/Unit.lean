import CobolSymbols.Proofs.Renaming.Programs
import CobolSymbols.Session

/-!
# Units under other numbers

Each event does the same to units under construction that are alike, so the events of a whole unit do: the tree comes out
under the other numbers, and the same is reported.
-/

set_option autoImplicit false

namespace CobolSymbols.Build

open Declarations

variable {ρ : SymbolId → SymbolId} {b b' : Build}

/-- A unit under construction is found in another one under other numbers; the first one is in order. -/
structure Alike (ρ : SymbolId → SymbolId) (b b' : Build) : Prop where
  path : b'.path = b.path.rename ρ
  nodeCount : b'.nodeCount = b.nodeCount
  declarations : b.declarations.Alike ρ b'.declarations
  typeNode : b'.typeNode = b.typeNode
  storage : b'.storage = b.storage
  scopeFlags : b'.scopeFlags = b.scopeFlags
  frames : b'.frames = b.frames
  ready : ∃ base, b.declarations.Ready base

namespace Alike

section Nodes

variable (h : b.Alike ρ b')
include h

theorem currentKind : b'.current.kind = b.current.kind := by
  unfold Build.current
  rw [h.path]
  rfl

theorem atRoot : b'.path.atRoot = b.path.atRoot := by
  rw [h.path]
  exact List.isEmpty_map

theorem length_above : b'.path.above.length = b.path.above.length := by
  rw [h.path]
  exact List.length_map _

theorem newNode (kind : NodeKind) : b'.newNode kind = (b.newNode kind).rename ρ := by
  simp only [Build.newNode, Build.flags, Node.rename, h.nodeCount, h.scopeFlags, h.storage, h.typeNode, Option.map_none]

theorem leaf (kind : NodeKind) : (b.leaf kind).Alike ρ (b'.leaf kind) := by
  refine { h with path := ?_, nodeCount := congrArg (· + 1) h.nodeCount }
  simp only [Build.leaf, h.path, h.newNode, Path.rename_leaf]

theorem enter (kind : NodeKind) : (b.enter kind).Alike ρ (b'.enter kind) := by
  refine { h with path := ?_, nodeCount := congrArg (· + 1) h.nodeCount }
  simp only [Build.enter, h.path, h.newNode]
  rfl

/-- A change of the current node that renames what it says. -/
theorem mapCurrent {f f' : Node → Node} (hf : ∀ n, f' (n.rename ρ) = (f n).rename ρ) :
    ({ b with path := b.path.mapCurrent f } : Build).Alike ρ { b' with path := b'.path.mapCurrent f' } := by
  have hpath : b'.path.mapCurrent f' = (b.path.mapCurrent f).rename ρ := by
    rw [h.path, Path.rename_mapCurrent ρ b.path hf]
  exact { h with path := hpath }

theorem markCurrent (flag : NodeFlag) : (b.markCurrent flag).Alike ρ (b'.markCurrent flag) := by
  apply h.mapCurrent
  intro n
  rfl

theorem bindCurrent (meaning : Option Meaning) :
    (b.bindCurrent meaning).Alike ρ (b'.bindCurrent (meaning.map (Meaning.rename ρ))) := by
  cases meaning with
  | none => exact h
  | some meaning =>
    apply h.mapCurrent
    intro n
    rfl

/-- The current node means symbols that go with each other. -/
theorem bindSymbol {id id' : Option SymbolId} (hid : id' = id.map ρ) :
    (b.bindCurrent (id.map .symbol)).Alike ρ (b'.bindCurrent (id'.map .symbol)) := by
  have hbound := h.bindCurrent (id.map .symbol)
  rw [Option.map_map] at hbound
  rw [hid, Option.map_map]
  exact hbound

theorem exit : b.exit.Alike ρ b'.exit := by
  refine { h with path := ?_ }
  simp only [Build.exit, h.path, Path.close?_rename]
  cases b.path.close? <;> rfl

theorem setStorage (storage : Option StorageSection) :
    (b.setStorage storage).Alike ρ (b'.setStorage storage) := { h with storage := rfl }

theorem pushFrame (flags : NodeFlags) : (b.pushFrame flags).Alike ρ (b'.pushFrame flags) := by
  refine { h with frames := ?_, storage := rfl, typeNode := rfl, scopeFlags := rfl }
  simp only [Build.pushFrame, h.scopeFlags, h.storage, h.typeNode, h.frames]

theorem popFrame : b.popFrame.Alike ρ b'.popFrame := by
  unfold Build.popFrame
  rw [h.frames]
  cases b.frames with
  | nil => exact h
  | cons frame rest => exact { h with scopeFlags := rfl, storage := rfl, typeNode := rfl, frames := rfl }

theorem setDeclarations {d d' : Declarations} (hd : d.Alike ρ d') (hstep : Step b.declarations d) :
    ({ b with declarations := d } : Build).Alike ρ { b' with declarations := d' } :=
  { h with declarations := hd, ready := hstep.ready h.ready }

theorem addMarker (marker : Option ProgramEnd) : (b.addMarker marker).Alike ρ (b'.addMarker marker) := by
  cases marker with
  | some marker => exact h.leaf _
  | none => exact h.markCurrent _

theorem openType : b.openType.Alike ρ b'.openType := by
  have hid : b'.current.id = b.current.id := by
    unfold Build.current
    rw [h.path]
    rfl
  unfold Build.openType
  rw [h.typeNode, hid]
  split
  · exact { h with typeNode := rfl }
  · exact h

theorem addIndexes (entry : DataEntry) : (b.addIndexes entry).Alike ρ (b'.addIndexes entry) := by
  have hleaves : ∀ (names : List IndexName) {b b' : Build}, b.Alike ρ b' →
      (names.foldl (fun b name => b.leaf (.index name)) b).Alike ρ
        (names.foldl (fun b name => b.leaf (.index name)) b') := by
    intro names
    induction names with
    | nil => exact fun h => h
    | cons name rest ih => exact fun h => ih (h.leaf _)
  unfold Build.addIndexes
  split
  · exact h
  · exact (hleaves _ h).markCurrent _

end Nodes

section Closing

theorem exitDefinition (h : b.Alike ρ b') : b.exitDefinition.Alike ρ b'.exitDefinition := by
  obtain ⟨base, hready⟩ := h.ready
  unfold Build.exitDefinition
  rw [h.path, Path.pop?_rename]
  cases b.path.pop? with
  | none => exact h
  | some found =>
    obtain ⟨tree, rest⟩ := found
    have hdef : (rest.rename ρ).current.node.isDefinition = rest.current.node.isDefinition := rfl
    have hid : (tree.rename ρ).node.id = tree.node.id := rfl
    simp only [Option.map_some, hdef, hid, h.typeNode]
    split
    · exact { h with path := (Path.rename_attach ρ rest tree).symm, typeNode := rfl }
    · obtain ⟨htree, hnext⟩ := h.declarations.declareRecord hready tree
      refine { h.setDeclarations hnext (.declareRecord _ tree) with path := ?_, typeNode := rfl }
      simp only [htree, Path.rename_attach]

theorem closeWithin (bound : Option Level) (steps : Nat) (h : b.Alike ρ b') :
    (Build.closeWithin bound steps b).Alike ρ (Build.closeWithin bound steps b') := by
  induction steps generalizing b b' with
  | zero => exact h
  | succ steps ih =>
    have hdef : b'.current.definition? = b.current.definition? := by
      unfold Node.definition?
      rw [h.currentKind]
    unfold Build.closeWithin
    rw [hdef]
    cases b.current.definition? with
    | none => exact h
    | some definition =>
      simp only
      split
      · exact h
      · exact ih h.exitDefinition

theorem closeDefinitions (h : b.Alike ρ b') (bound : Option Level) :
    (b.closeDefinitions bound).Alike ρ (b'.closeDefinitions bound) := by
  unfold Build.closeDefinitions
  rw [h.length_above]
  exact closeWithin bound _ h

theorem exitWithin (wanted : NodeKind → Bool) (steps : Nat) (h : b.Alike ρ b') :
    (Build.exitWithin wanted steps b').1 = (Build.exitWithin wanted steps b).1 ∧
      (Build.exitWithin wanted steps b).2.Alike ρ (Build.exitWithin wanted steps b').2 := by
  induction steps generalizing b b' with
  | zero => exact ⟨rfl, h⟩
  | succ steps ih =>
    unfold Build.exitWithin
    rw [h.atRoot, h.currentKind]
    split
    · exact ⟨rfl, h⟩
    · split
      · exact ⟨rfl, h.exit⟩
      · exact ih h.exit

theorem exitThrough (h : b.Alike ρ b') (wanted : NodeKind → Bool) :
    (b'.exitThrough wanted).1 = (b.exitThrough wanted).1 ∧
      (b.exitThrough wanted).2.Alike ρ (b'.exitThrough wanted).2 := by
  have hclosed := h.closeDefinitions none
  unfold Build.exitThrough
  simp only [hclosed.length_above]
  exact exitWithin wanted _ hclosed

theorem exitToProgram (steps : Nat) (h : b.Alike ρ b') :
    (Build.exitToProgram steps b).Alike ρ (Build.exitToProgram steps b') := by
  induction steps generalizing b b' with
  | zero => exact h
  | succ steps ih =>
    unfold Build.exitToProgram
    rw [h.atRoot, h.currentKind]
    split
    · exact h
    · exact ih h.exit

theorem enterDefinition (h : b.Alike ρ b') (level : Level) (kind : NodeKind) :
    (b.enterDefinition level kind).Alike ρ (b'.enterDefinition level kind) :=
  (h.closeDefinitions (bound level)).enter kind

end Closing

section Events

section

variable (h : b.Alike ρ b')
include h

theorem declareCurrent {declare : Declarations → Option SymbolId × Declarations}
    (hid : (declare b'.declarations).1 = (declare b.declarations).1.map ρ)
    (hdeclare : (declare b.declarations).2.Alike ρ (declare b'.declarations).2)
    (hstep : Step b.declarations (declare b.declarations).2) :
    (b.declareCurrent declare).Alike ρ (b'.declareCurrent declare) :=
  (h.setDeclarations hdeclare hstep).bindSymbol hid

theorem startProgram (header : ProgramHeader) : (b.startProgram header).Alike ρ (b'.startProgram header) := by
  have hentered := ((h.closeDefinitions none).pushFrame ∅).enter (.program header)
  obtain ⟨base, hready⟩ := hentered.ready
  obtain ⟨hid, hnext⟩ := hentered.declarations.startProgram hready header
  exact hentered.declareCurrent (congrArg some hid) hnext (.startProgram _ header)

theorem closeProgram : b.closeProgram.Alike ρ b'.closeProgram := by
  obtain ⟨base, hready⟩ := h.exit.ready
  unfold Build.closeProgram
  rw [h.atRoot]
  split
  · exact h
  · exact (h.exit.setDeclarations (h.exit.declarations.endProgram hready) (.endProgram _)).popFrame

theorem endProgram (marker : Option ProgramEnd) : (b.endProgram marker).Alike ρ (b'.endProgram marker) := by
  have hclosed := h.closeDefinitions none
  unfold Build.endProgram
  simp only [hclosed.length_above]
  exact ((exitToProgram _ hclosed).addMarker marker).closeProgram

theorem bindStorage (storage : StorageSection) : (b.bindStorage storage).Alike ρ (b'.bindStorage storage) := by
  have hbound := h.bindCurrent (b.declarations.currentScope.map fun scope => .scope scope storage.slot)
  rw [Option.map_map] at hbound
  unfold Build.bindStorage
  rw [h.declarations.currentScope, Option.map_map]
  exact hbound

theorem startStorage (storage : StorageSection) (header : StorageHeader) :
    (b.startStorage storage header).Alike ρ (b'.startStorage storage header) := by
  have hentered := (((h.closeDefinitions none).setStorage (some storage)).enter (.storage storage header))
  have hbound := hentered.bindStorage storage
  exact hbound.setDeclarations (hbound.declarations.setStorage (some storage)) (.setStorage _ (some storage))

theorem endStorage (storage : StorageSection) : (b.endStorage storage).Alike ρ (b'.endStorage storage) := by
  have hexit := (h.exitThrough (isStorage storage)).2
  exact (hexit.setDeclarations (hexit.declarations.setStorage none) (.setStorage _ none)).setStorage none

theorem typedefEntry (entry : DataEntry) : (b.typedefEntry entry).Alike ρ (b'.typedefEntry entry) :=
  (h.enterDefinition entry.level (.typeDefinition entry)).openType.addIndexes entry

theorem dataEntry (entry : DataEntry) : (b.dataEntry entry).Alike ρ (b'.dataEntry entry) := by
  unfold Build.dataEntry
  split
  · exact h.typedefEntry entry
  · exact (h.enterDefinition entry.level (.data entry)).addIndexes entry

theorem startProcedureDivision (header : ProcedureHeader) :
    (b.startProcedureDivision header).Alike ρ (b'.startProcedureDivision header) := by
  have hclosed := (h.closeDefinitions none).setStorage none
  exact (hclosed.setDeclarations (hclosed.declarations.startProcedureDivision header)
    (.startProcedureDivision _ header)).enter (.procedureDivision header)

theorem markProgram : b.markProgram.Alike ρ b'.markProgram := by
  refine { h with path := ?_ }
  have hmarked := Path.rename_mapFirstAbove ρ b.path (·.kind.isProgram) (fun n => n.mark .containsProcedure)
    (fun _ => rfl) fun _ => rfl
  simp only [Build.markProgram, h.path, hmarked]

end

theorem addParameters (parameters : List (Option Direction × DataEntry)) (h : b.Alike ρ b') :
    (b.addParameters parameters).Alike ρ (b'.addParameters parameters) := by
  induction parameters generalizing b b' with
  | nil => exact h
  | cons parameter rest ih =>
    refine ih { h with path := ?_, nodeCount := congrArg (· + 1) h.nodeCount }
    have hmarked : ((b.newNode (.parameter parameter.2 parameter.1)).rename ρ).mark .linkage =
        ((b.newNode (.parameter parameter.2 parameter.1)).mark .linkage).rename ρ := rfl
    simp only [Build.addParameter, h.path, h.newNode, hmarked, Path.rename_leaf]

section

variable (h : b.Alike ρ b')
include h

theorem declareProcedure (header : DeclaredProcedure) :
    (b.declareProcedure header).Alike ρ (b'.declareProcedure header) := by
  have hchildren : b'.path.current.children = b.path.current.children.rename ρ := by
    rw [h.path]
    rfl
  obtain ⟨hid, hforest, hnext⟩ := h.declarations.startProcedure header b.path.current.children
  rw [← hchildren] at hid hforest hnext
  have hset : ({ b with
        path := b.path.setChildren (b.declarations.startProcedure header b.path.current.children).2.1
        declarations := (b.declarations.startProcedure header b.path.current.children).2.2 } : Build).Alike ρ
      { b' with
        path := b'.path.setChildren (b'.declarations.startProcedure header b'.path.current.children).2.1
        declarations := (b'.declarations.startProcedure header b'.path.current.children).2.2 } := by
    refine { h.setDeclarations hnext (.startProcedure _ header _) with path := ?_ }
    simp only [hforest]
    rw [h.path]
    rfl
  exact hset.bindSymbol hid

theorem startProcedure (header : DeclaredProcedure) : (b.startProcedure header).Alike ρ (b'.startProcedure header) := by
  have hmarked := (h.closeDefinitions none).markProgram.pushFrame (.single .insideProcedure)
  exact (addParameters header.parameters (hmarked.enter (.procedure header))).declareProcedure header

theorem endProcedure : b.endProcedure.Alike ρ b'.endProcedure := by
  obtain ⟨hfound, hexit⟩ := h.exitThrough isProcedure
  unfold Build.endProcedure
  revert hfound hexit
  generalize b.exitThrough isProcedure = left
  generalize b'.exitThrough isProcedure = left'
  obtain ⟨found, b₁⟩ := left
  obtain ⟨found', b₁'⟩ := left'
  intro hfound hexit
  subst hfound
  cases found' with
  | true => exact (hexit.setDeclarations hexit.declarations.endProcedure (.endProcedure _)).popFrame
  | false => exact hexit

theorem startSection (heading : SectionHeading) : (b.startSection heading).Alike ρ (b'.startSection heading) := by
  have hentered := h.enter (.heading heading)
  obtain ⟨hid, hnext⟩ := hentered.declarations.startHeading heading
  exact hentered.declareCurrent hid hnext (.startHeading _ heading)

theorem endSection : b.endSection.Alike ρ b'.endSection := by
  have hexit := (h.exitThrough isHeading).2
  exact hexit.setDeclarations hexit.declarations.endHeading (.endHeading _)

theorem startParagraph (heading : ParagraphHeading) :
    (b.startParagraph heading).Alike ρ (b'.startParagraph heading) := by
  have hentered := h.enter (.paragraph heading)
  obtain ⟨hid, hnext⟩ := hentered.declarations.startParagraph heading
  exact hentered.declareCurrent hid hnext (.startParagraph _ heading)

/-- An event does the same under other numbers. -/
theorem step (event : Event) : (b.step event).Alike ρ (b'.step event) := by
  cases event with
  | startProgram header => exact h.startProgram header
  | endProgram marker => exact h.endProgram marker
  | startDataDivision position => exact h.enter _
  | endDataDivision => exact (h.exitThrough _).2
  | startStorage storage header => exact h.startStorage storage header
  | endStorage storage => exact h.endStorage storage
  | startFile entry => exact (h.closeDefinitions none).enter _
  | endFile => exact (h.exitThrough _).2
  | dataEntry entry => exact h.dataEntry entry
  | redefinesEntry entry => exact (h.enterDefinition _ _).addIndexes _
  | renamesEntry entry | conditionEntry entry => exact h.enterDefinition _ _
  | typedefEntry entry => exact h.typedefEntry entry
  | startProcedureDivision header => exact h.startProcedureDivision header
  | endProcedureDivision => exact (h.exitThrough _).2
  | startDeclaratives position => exact h.enter _
  | endDeclaratives => exact (h.exitThrough _).2
  | startProcedure header => exact h.startProcedure header
  | endProcedure => exact h.endProcedure
  | startSection heading => exact h.startSection heading
  | endSection => exact h.endSection
  | startParagraph heading => exact h.startParagraph heading
  | endParagraph => exact (h.exitThrough _).2
  | statement body => exact h.leaf _

end

/-- The events of a unit do the same under other numbers. -/
theorem steps (events : List Event) (h : b.Alike ρ b') : (b.steps events).Alike ρ (b'.steps events) := by
  induction events generalizing b b' with
  | nil => exact h
  | cons event rest ih => exact ih (h.step event)

end Events

end Alike

theorem alike_start {c c' : Context} (h : c.Alike ρ c') (hsound : c.table.Sound c.table.size) :
    (Build.start c).Alike ρ (Build.start c') where
  path := rfl
  nodeCount := rfl
  declarations := ⟨h, rfl, rfl, rfl, rfl, rfl, rfl, rfl, rfl, rfl⟩
  typeNode := rfl
  storage := rfl
  scopeFlags := rfl
  frames := rfl
  ready := ⟨_, ready_closed hsound rfl rfl rfl rfl rfl rfl⟩

end CobolSymbols.Build

namespace CobolSymbols

variable {ρ : SymbolId → SymbolId} {c c' : Context}

/-- What a unit gives in contexts that are alike. -/
theorem Context.Alike.compile (h : c.Alike ρ c') (hsound : c.table.Sound c.table.size) (file : FileId)
    (events : List Event) :
    (c'.compile file events).1.tree = (c.compile file events).1.tree.rename ρ ∧
      (c'.compile file events).1.programs = (c.compile file events).1.programs.map ρ ∧
      (c'.compile file events).1.diagnostics = (c.compile file events).1.diagnostics ∧
      (c.compile file events).2.table.Alike ρ (c'.compile file events).2.table := by
  have hstart : ({ c with file } : Context).Alike ρ { c' with file } := { h with file := rfl }
  have hclosed := (Build.Alike.steps events (Build.alike_start hstart hsound)).closeDefinitions none
  refine ⟨?_, hclosed.declarations.programs, hclosed.declarations.context.diagnostics, hclosed.declarations.table⟩
  exact (congrArg Path.toTree hclosed.path).trans (Path.toTree_rename ρ _)

end CobolSymbols
