import CobolSymbols.Proofs.Build.Boundaries

/-!
# The open constructs and their symbols

An open construct is told by its node: the node stands for the construct and may mean a symbol. Every event that opens a
construct puts one on top of those that are open, every end takes the innermost one away, and data entries change nothing.

The open programs and scopes of the declarations are the symbols of the open programs and procedures, innermost first,
and one frame is put aside for each of them. `Opens` and `Closes` say what becomes of the open constructs, the programs, the
scopes and the frames when data entries have been closed and a construct starts or ends.
-/

set_option autoImplicit false

namespace CobolSymbols

open Declarations Forest List Node Path
open OpenNode (Same)

/-- The symbols of the programs among the open constructs. -/
def programSymbols (os : List Opening) : List SymbolId := (os.filter (·.construct == .program)).filterMap Opening.symbol

/-- Programs have symbols, and so do procedures, sections and paragraphs in programs; nothing else has. -/
def Anchored : List Opening → Prop
  | [] => True
  | o :: os =>
    o.symbol.isSome = (o.construct.isNamed && (o.construct == .program || insideProgram (os.map Opening.construct))) ∧
      Anchored os

theorem scopeSymbols_cons (o : Opening) (os : List Opening) :
    scopeSymbols (o :: os) = (if o.construct.isScope then o.symbol.toList else []) ++ scopeSymbols os := by
  unfold scopeSymbols
  rw [filter_cons]
  split
  · rw [filterMap_cons]
    cases o.symbol <;> rfl
  · rfl

theorem programSymbols_cons (o : Opening) (os : List Opening) :
    programSymbols (o :: os) = (if o.construct == .program then o.symbol.toList else []) ++ programSymbols os := by
  unfold programSymbols
  rw [filter_cons]
  split
  · rw [filterMap_cons]
    cases o.symbol <;> rfl
  · rfl

/-- Without a scope no program is open. -/
theorem programSymbols_eq_nil {os : List Opening} (h : scopeSymbols os = []) : programSymbols os = [] := by
  unfold scopeSymbols at h
  refine filterMap_eq_nil_iff.mpr fun o ho => ?_
  obtain ⟨hmem, hconstruct⟩ := mem_filter.mp ho
  refine filterMap_eq_nil_iff.mp h o (mem_filter.mpr ⟨hmem, ?_⟩)
  rw [eq_of_beq hconstruct]
  rfl

/-- There is a scope inside of programs and nowhere else. -/
theorem Anchored.scopeSymbols_eq_nil {os : List Opening} (h : Anchored os) :
    scopeSymbols os = [] ↔ insideProgram (os.map Opening.construct) = false := by
  induction os with
  | nil => exact ⟨fun _ => rfl, fun _ => rfl⟩
  | cons o os ih =>
    obtain ⟨hsymbol, hos⟩ := h
    rw [scopeSymbols_cons, append_eq_nil_iff, ih hos, map_cons, insideProgram_cons]
    obtain ⟨c, symbol⟩ := o
    cases hinside : insideProgram (os.map Opening.construct) <;> cases c <;> cases symbol <;>
      simp [Construct.isScope, Construct.isNamed, hinside] at hsymbol ⊢

namespace Declarations

/-- Declarations with the same open programs and procedures. -/
def SameStack (d d' : Declarations) : Prop := d'.openPrograms = d.openPrograms ∧ d'.scopes = d.scopes

section Stack

variable {base old : Nat} {parent : Option ScopeRef} {d d' : Declarations}

theorem Moves.sameStack (h : Moves base old parent d d') : SameStack d d' := h.stack.symm

variable (h : d.Ready base)
include h

theorem sameStack_declareRecord (tree : Tree) : SameStack d (d.declareRecord tree).2 := by
  cases hscope : d.currentScope with
  | none =>
    rw [declareRecord_of_none hscope]
    exact ⟨rfl, rfl⟩
  | some scope => exact (declareRecord_moves (h.scoped hscope) tree).sameStack

theorem sameStack_startProcedureDivision (header : ProcedureHeader) :
    SameStack d (d.startProcedureDivision header) := by
  cases hscope : d.currentScope with
  | none =>
    rw [startProcedureDivision_of_none hscope]
    exact ⟨rfl, rfl⟩
  | some scope =>
    have hmoves : Moves base base none d (d.startProcedureDivision header) :=
      startProcedureDivision_moves (h.scoped hscope) header
    exact hmoves.sameStack

theorem sameStack_startHeading (heading : SectionHeading) : SameStack d (d.startHeading heading).2 := by
  cases hscope : d.currentScope with
  | none =>
    rw [startHeading_of_none hscope]
    exact ⟨rfl, rfl⟩
  | some scope => exact (startHeading_moves (h.scoped hscope) heading).sameStack

theorem sameStack_startParagraph (heading : ParagraphHeading) : SameStack d (d.startParagraph heading).2 := by
  cases hscope : d.currentScope with
  | none =>
    rw [startParagraph_of_none hscope]
    exact ⟨rfl, rfl⟩
  | some scope => exact (startParagraph_moves (h.scoped hscope) h.heading heading).sameStack

theorem startProgram_stack (header : ProgramHeader) :
    (d.startProgram header).2.openPrograms = (d.startProgram header).1 :: d.openPrograms ∧
      (d.startProgram header).2.scopes = (d.startProgram header).1 :: d.scopes := by
  obtain ⟨base', program, made, hmoves, _, _, hprogs, hscopes⟩ := h.startProgram_cases header
  have hstack := hmoves.sameStack
  exact ⟨by rw [hprogs, ← hstack.1], by rw [hscopes, ← hstack.2]⟩

omit h in
theorem endProgram_stack (d : Declarations) :
    d.endProgram.openPrograms = d.openPrograms.tail ∧
      d.endProgram.scopes = (d.scopes.dropWhile fun scope => some scope != d.openPrograms.head?).tail := by
  unfold endProgram
  simp only
  split <;> exact ⟨rfl, rfl⟩

/-- A procedure becomes the innermost scope when it lies in one; otherwise it has no symbol. -/
theorem startProcedure_made (header : DeclaredProcedure)
    (parameters : Forest) :
    (d.startProcedure header parameters).2.2.openPrograms = d.openPrograms ∧
      (d.startProcedure header parameters).2.2.scopes = (d.startProcedure header parameters).1.toList ++ d.scopes ∧
      (d.startProcedure header parameters).1.isSome = !d.scopes.isEmpty := by
  cases hscope : d.currentScope with
  | none =>
    have hnone : d.scopes = [] := head?_eq_none_iff.mp hscope
    rw [startProcedure_of_none hscope]
    exact ⟨rfl, rfl, by rw [hnone]; rfl⟩
  | some scope =>
    have hstack := (h.startProcedure_moves hscope header parameters).sameStack
    have hmade : (d.startProcedure header parameters).1 = some d.table.size := by
      unfold startProcedure
      rw [hscope]
      rfl
    have hsome : d.scopes.isEmpty = false := by
      cases hscopes : d.scopes with
      | nil => simp [currentScope, hscopes] at hscope
      | cons => rfl
    rw [hmade, hsome]
    exact ⟨hstack.1, hstack.2, rfl⟩

end Stack

end Declarations

namespace Build

open Declarations (Step Steps SameStack)

section Steps

variable {b b' b'' : Build} {cs : List Construct} {c : Construct} {kind : NodeKind} {o : Opening} {cs' : List Construct}
  {n : OpenNode} {ns : List OpenNode} {base : Nat} {f : Forest} {node : Node}

/-- Two builders with the same constructs, frames, programs and scopes open and the same section of the data division. -/
structure SameOpen (b b' : Build) : Prop where
  openings : b'.path.openings = b.path.openings
  frames : b'.frames = b.frames
  kept : b'.storage = b.storage
  stack : SameStack b.declarations b'.declarations

theorem SameOpen.refl (b : Build) : SameOpen b b := ⟨rfl, rfl, rfl, rfl, rfl⟩

theorem SameOpen.trans (h : SameOpen b b') (h' : SameOpen b' b'') : SameOpen b b'' where
  openings := h'.openings.trans h.openings
  frames := h'.frames.trans h.frames
  kept := h'.kept.trans h.kept
  stack := ⟨h'.stack.1.trans h.stack.1, h'.stack.2.trans h.stack.2⟩

/-- The type whose body stays open when the current node is closed. -/
def typeAfter (b : Build) : Option NodeId := if b.typeNode = some b.current.id then none else b.typeNode

theorem exitDefinition_of_above (habove : b.path.above = n :: ns) : b.exitDefinition =
      if n.node.isDefinition then
        { b with
          path := ({ current := n, above := ns } : Path).attach b.path.current.toTree, typeNode := b.typeAfter }
      else
        { b with
          path := ({ current := n, above := ns } : Path).attach (b.declarations.declareRecord b.path.current.toTree).1
          typeNode := b.typeAfter
          declarations := (b.declarations.declareRecord b.path.current.toTree).2 } := by
  unfold exitDefinition
  rw [pop?_of_above habove]
  rfl

/-- A data entry is closed. -/
theorem exitDefinition_same (hready : b.declarations.Ready base) (hdef : b.current.isDefinition = true)
    (habove : b.path.above = n :: ns) : SameOpen b b.exitDefinition := by
  have hopenings : ∀ tree, (({ current := n, above := ns } : Path).attach tree).openings = b.path.openings := by
    intro tree
    have hnone : b.path.current.node.opening? = none := opening?_of_definition hdef
    unfold openings
    rw [filterMap_cons (l := b.path.above), hnone, habove]
    rfl
  rw [exitDefinition_of_above habove]
  split
  · exact ⟨hopenings _, rfl, rfl, rfl, rfl⟩
  · exact ⟨hopenings _, rfl, rfl, sameStack_declareRecord hready _⟩

theorem bindCurrent_frames (b : Build) (meaning : Option Meaning) :
    (b.bindCurrent meaning).frames = b.frames ∧ (b.bindCurrent meaning).storage = b.storage := by
  cases meaning <;> exact ⟨rfl, rfl⟩

/-- The tree has grown by nodes without boundaries, or some nodes have been marked. -/
structure Unmarked (b b' : Build) : Prop where
  boundaries : b'.path.boundaries = b.path.boundaries
  frames : b'.frames = b.frames
  kept : b'.storage = b.storage
  declarations : b'.declarations = b.declarations

theorem Unmarked.same (h : Unmarked b b') : SameOpen b b' :=
  ⟨openings_congr h.boundaries, h.frames, h.kept, by rw [h.declarations], by rw [h.declarations]⟩

/-- The start of a data definition is no boundary. -/
theorem openEntry_unmarked (b : Build) (hdef : kind.isDefinition = true) : Unmarked b (b.openEntry kind) := by
  have hstarts := starts_of_definition (n := b.newNode kind) hdef
  refine ⟨?_, rfl, rfl, rfl⟩
  unfold openEntry Build.enter
  rw [boundaries_enter, hstarts, append_nil]

theorem leaf_unmarked (b : Build) (hdef : kind.isDefinition = false) (hkind : kind.construct? = none) :
    Unmarked b (b.leaf kind) := by
  have hopening : (b.newNode kind).opening? = none := congrArg (Option.map (Opening.mk · none)) hkind
  exact ⟨boundaries_leaf _ hopening (.inl hdef), rfl, rfl, rfl⟩

theorem mapFirst_same (condition : Node → Bool) (flag : NodeFlag) (os : List OpenNode) :
    Forall₂ Same os (Path.mapFirst condition (fun n => n.mark flag) os) := by
  induction os with
  | nil => exact .nil
  | cons o rest ih =>
    unfold Path.mapFirst
    split
    · exact .cons ⟨rfl, rfl, rfl⟩ (forall₂_same.mpr fun o _ => Same.refl o)
    · exact .cons (Same.refl o) ih

theorem markCurrent_unmarked (b : Build) (flag : NodeFlag) : Unmarked b (b.markCurrent flag) :=
  ⟨boundaries_mapCurrent _ rfl rfl, rfl, rfl, rfl⟩

theorem addMarker_unmarked (b : Build) (marker : Option ProgramEnd) : Unmarked b (b.addMarker marker) := by
  cases marker with
  | none => exact markCurrent_unmarked b _
  | some marker => exact leaf_unmarked b rfl rfl

/-- The second builder has one more construct open. Programs and procedures put a frame aside and become scopes. -/
structure Opens (b b' : Build) (o : Opening) : Prop where
  boundaries : b'.path.boundaries = b.path.boundaries ++ [.start o]
  frames : b'.frames = if o.construct.isScope then ⟨b.scopeFlags, b.storage, b.typeNode⟩ :: b.frames else b.frames
  kept : b'.storage = if o.construct.isScope then none else (storages.opened o).getD b.storage
  programs : b'.declarations.openPrograms =
    (if o.construct == .program then o.symbol.toList else []) ++ b.declarations.openPrograms
  scopes : b'.declarations.scopes = (if o.construct.isScope then o.symbol.toList else []) ++ b.declarations.scopes
  /-- What is named has a symbol, if it is a program or stands in a scope. -/
  named : o.symbol.isSome = (o.construct.isNamed && (o.construct == .program || !b.declarations.scopes.isEmpty))

theorem Opens.openings (h : Opens b b' o) : b'.path.openings = o :: b.path.openings := by
  rw [← openAfter_boundaries, h.boundaries, openAfter_append, openAfter_boundaries]
  rfl

/-- A construct that is no program and no procedure is opened. -/
theorem Opens.plain {id : Option SymbolId} (hbounds : b'.path.boundaries = b.path.boundaries ++ [.start ⟨c, id⟩])
    (hscope : c.isScope = false) (hframes : b'.frames = b.frames)
    (hkept : b'.storage = (storages.opened ⟨c, id⟩).getD b.storage) (hstack : SameStack b.declarations b'.declarations)
    (hnamed : id.isSome = (c.isNamed && !b.declarations.scopes.isEmpty)) : Opens b b' ⟨c, id⟩ := by
  have hprog : (c == .program) = false := by cases c <;> first | rfl | cases hscope
  refine ⟨hbounds, ?_, ?_, ?_, ?_, ?_⟩
  · rw [hframes, hscope]
    rfl
  · rw [hkept, hscope]
    rfl
  · rw [hstack.1, hprog]
    rfl
  · rw [hstack.2, hscope]
    rfl
  · rw [hnamed, hprog]
    rfl

theorem enter_boundaries (b : Build) (kind : NodeKind) (hkind : kind.construct? = some c) :
    (b.enter kind).path.boundaries = b.path.boundaries ++ [.start ⟨c, none⟩] := by
  have hopening : (b.newNode kind).opening? = some ⟨c, none⟩ := opening?_of_construct (n := b.newNode kind) hkind
  unfold Build.enter
  rw [boundaries_enter, starts_of_opening hopening]

/-- A construct is opened and gets its symbol. -/
theorem declareCurrent_boundaries (b : Build) (kind : NodeKind) (hkind : kind.construct? = some c)
    (declare : Declarations → Option SymbolId × Declarations) :
    ((b.enter kind).declareCurrent declare).path.boundaries =
      b.path.boundaries ++ [.start ⟨c, (declare b.declarations).1⟩] := by
  have hdecls : (b.enter kind).declarations = b.declarations := rfl
  unfold declareCurrent
  rw [hdecls]
  generalize declare b.declarations = made
  obtain ⟨id, d⟩ := made
  cases id with
  | none => exact enter_boundaries b kind hkind
  | some id =>
    have hopening : ((b.newNode kind).bindSymbol id).opening? = some ⟨c, some id⟩ :=
      opening?_of_construct (n := (b.newNode kind).bindSymbol id) hkind
    exact (boundaries_enter b.path ((b.newNode kind).bindSymbol id)).trans
      (by rw [starts_of_opening hopening])

theorem declareCurrent_declarations (b : Build) (declare : Declarations → Option SymbolId × Declarations) :
    (b.declareCurrent declare).declarations = (declare b.declarations).2 := by
  unfold declareCurrent
  rw [bindCurrent_declarations]
  rfl

theorem boundaries_declareParameters (linkage : ScopeRef) (f : Forest) (signature : Signature) (d : Declarations) :
    (Declarations.declareParameters linkage f signature d).1.boundaries false = f.boundaries false := by
  induction f generalizing signature d with
  | nil => rfl
  | cons node children siblings _ ih =>
    unfold Declarations.declareParameters
    split
    · rename_i entry direction hkind
      have hplain : ∀ n : Node, n.kind = .parameter entry direction →
          n.starts = [] ∧ n.ends false = [] ∧ n.isDefinition = true := by
        intro n hn
        have hdef : n.isDefinition = true := Node.isDefinition_of_kind hn
        refine ⟨starts_of_definition hdef, ?_, hdef⟩
        rw [ends_of_definition hdef, hn]
        rfl
      obtain ⟨hstarts, hends, hdef⟩ := hplain node hkind
      obtain ⟨hstarts', hends', hdef'⟩ := hplain (node.bindSymbol d.table.size) hkind
      have hchildren := declareItem_view d (Forest.boundaries true) (boundaries_declareFields children)
        boundaries_declareIndexes entry .plain ⟨some linkage, none⟩
      simp only [Forest.boundaries, ih, hstarts, hends, hdef]
      rw [declareItem_eq] at hchildren ⊢
      rw [hstarts', hends', hdef', hchildren]
    · simp only [Forest.boundaries, ih]

theorem boundaries_startProcedure (d : Declarations) (header : DeclaredProcedure) (parameters : Forest) :
    (d.startProcedure header parameters).2.1.boundaries false = parameters.boundaries false := by
  unfold Declarations.startProcedure
  split
  · rfl
  · exact boundaries_declareParameters _ _ _ _

theorem addParameters_boundaries (parameters : List (Option Direction × DataEntry)) (b : Build) :
    (b.addParameters parameters).path.boundaries = b.path.boundaries := by
  induction parameters generalizing b with
  | nil => rfl
  | cons parameter rest ih =>
    exact (ih (b.addParameter parameter)).trans (boundaries_leaf b.path rfl (.inr rfl))

/-- A construct that makes no symbol is opened. -/
theorem opens_enter (b : Build) (hkind : kind.construct? = some c) (hnamed : c.isNamed = false)
    (hopened : storages.opened ⟨c, none⟩ = none) : Opens b (b.enter kind) ⟨c, none⟩ := by
  refine .plain (enter_boundaries b kind hkind) (Construct.isScope_of_not_isNamed hnamed) rfl ?_ ⟨rfl, rfl⟩ ?_
  · rw [hopened]
    rfl
  · rw [hnamed]
    rfl

/-- A section or paragraph of the procedure division is opened. -/
theorem opens_declareHeading (b : Build) (hkind : kind.construct? = some c) (hnamed : c.isNamed = true)
    (hscope : c.isScope = false) (hopened : ∀ id, storages.opened ⟨c, id⟩ = none) {declare : Declarations → Option SymbolId × Declarations}
    (hstack : SameStack b.declarations (declare b.declarations).2)
    (hmade : (declare b.declarations).1.isSome = !b.declarations.scopes.isEmpty) :
    Opens b ((b.enter kind).declareCurrent declare) ⟨c, (declare b.declarations).1⟩ := by
  have hdecls : ((b.enter kind).declareCurrent declare).declarations = (declare b.declarations).2 :=
    declareCurrent_declarations (b.enter kind) declare
  rw [← hdecls] at hstack
  refine .plain (declareCurrent_boundaries b kind hkind declare) hscope (bindCurrent_frames _ _).1 ?_ hstack ?_
  · rw [hopened]
    exact (bindCurrent_frames _ _).2
  · rw [hmade, hnamed]
    rfl

/-- A section of the data division is opened; its node means a scope and no symbol. -/
theorem startStorage_opens (b : Build) (storage : StorageSection) (header : StorageHeader) :
    Opens (b.closeDefinitions none) (b.startStorage storage header) ⟨.storage storage, none⟩ := by
  unfold Build.startStorage
  simp only
  generalize b.closeDefinitions none = closed
  have hdecls : (((closed.setStorage (some storage)).enter (.storage storage header)).bindStorage
      storage).declarations = closed.declarations := bindCurrent_declarations _ _
  have hprogs := congrArg Declarations.openPrograms hdecls
  have hscopes := congrArg Declarations.scopes hdecls
  refine .plain (Eq.trans ?_ (enter_boundaries (closed.setStorage (some storage)) (.storage storage header) rfl)) rfl
    (bindCurrent_frames _ _).1 (bindCurrent_frames _ _).2 ⟨hprogs, hscopes⟩ rfl
  show (Build.bindStorage _ storage).path.boundaries = _
  unfold bindStorage bindCurrent
  split
  · rename_i meaning hmeaning
    obtain ⟨scope, _, rfl⟩ := Option.map_eq_some_iff.mp hmeaning
    exact boundaries_mapCurrent _ rfl rfl
  · rfl

/-- The parameters of a procedure, none of which has its symbol yet. -/
structure Parameters (f : Forest) : Prop where
  roots : ∀ n ∈ f.roots, ∃ entry direction, n.kind = .parameter entry direction
  waiting (inside : Bool) : f.Waiting inside
  indexed : f.Indexed
  realized (t : Table) : f.Realized t
  symbols : f.symbols = []

theorem Parameters.nil : Parameters .nil := ⟨forall_mem_nil _, fun _ => trivial, trivial, fun _ => trivial, rfl⟩

theorem Parameters.indexNames (h : Parameters f) : f.indexNames = [] := by
  refine filterMap_eq_nil_iff.mpr fun n hn => ?_
  obtain ⟨entry, direction, hkind⟩ := h.roots n hn
  rw [hkind]
  rfl

theorem Parameters.push (h : Parameters f) {entry : DataEntry} {direction : Option Direction}
    (hkind : node.kind = .parameter entry direction) (hsymbol : node.symbol? = none) : Parameters (f.push { node })
    := by
  have hdef : node.isDefinition = true := Node.isDefinition_of_kind hkind
  constructor
  case roots =>
    intro n hn
    rw [Forest.push, roots_append, mem_append] at hn
    rcases hn with hold | hnew
    · exact h.roots n hold
    · obtain rfl : n = node := mem_singleton.mp hnew
      exact ⟨entry, direction, hkind⟩
  case waiting =>
    intro inside
    refine waiting_append.mpr ⟨h.waiting inside, ?_, trivial⟩
    rw [if_pos hdef]
    exact ⟨hsymbol, trivial⟩
  case indexed =>
    refine indexed_append.mpr ⟨h.indexed, ?_, trivial, trivial⟩
    rw [hkind]
    rfl
  case realized =>
    intro t
    refine realized_append.mpr ⟨h.realized t, fun _ id hid => ?_, trivial, trivial⟩
    rw [hsymbol] at hid
    cases hid
  case symbols =>
    rw [Forest.push, symbols_append, h.symbols]
    simp [Forest.symbols, Forest.ofTree, Forest.nodes, hsymbol]

/-- Parameters are added under the current node. -/
theorem addParameters_eq (parameters : List (Option Direction × DataEntry)) (b : Build)
    (h : Parameters b.path.current.children) :
    ∃ f, Parameters f ∧ (b.addParameters parameters).path = b.path.setChildren f ∧
      (b.addParameters parameters).declarations = b.declarations := by
  induction parameters generalizing b with
  | nil => exact ⟨b.path.current.children, h, rfl, rfl⟩
  | cons parameter rest ih =>
    have hadded : Parameters (b.addParameter parameter).path.current.children := h.push rfl rfl
    obtain ⟨f, hf, hpath, hdecls⟩ := ih (b.addParameter parameter) hadded
    exact ⟨f, hf, hpath, hdecls⟩

theorem declareProcedure_eq (b : Build) (header : DeclaredProcedure) {made : Option SymbolId × Forest × Declarations}
    (hmade : b.declarations.startProcedure header b.path.current.children = made) :
    (b.declareProcedure header).path =
        { b.path with current := ⟨Declarations.bindIfMade b.current made.1, made.2.1⟩ } ∧
      (b.declareProcedure header).declarations = made.2.2 := by
  subst hmade
  unfold declareProcedure
  generalize b.declarations.startProcedure header b.path.current.children = made
  obtain ⟨id, parameters, d⟩ := made
  cases id with
  | none => exact ⟨rfl, rfl⟩
  | some id => exact ⟨rfl, rfl⟩

/-- What a procedure that starts makes of the tree and the declarations: its node is new, and its parameters hang under
it. -/
theorem enterProcedure_eq (framed : Build) (header : DeclaredProcedure) : ∃ f, Parameters f ∧
    ((framed.enter (.procedure header)).addParameters header.parameters).path =
      (framed.enter (.procedure header)).path.setChildren f ∧
    (((framed.enter (.procedure header)).addParameters header.parameters).declareProcedure header).path =
      { current := ⟨Declarations.bindIfMade (framed.newNode (.procedure header))
            (framed.declarations.startProcedure header f).1, (framed.declarations.startProcedure header f).2.1⟩
        above := framed.path.current :: framed.path.above } ∧
    (((framed.enter (.procedure header)).addParameters header.parameters).declareProcedure header).declarations =
      (framed.declarations.startProcedure header f).2.2 := by
  obtain ⟨f, hf, hpath, hdecls⟩ := addParameters_eq header.parameters (framed.enter (.procedure header)) Parameters.nil
  generalize (framed.enter (.procedure header)).addParameters header.parameters = listed at hpath hdecls ⊢
  have hmade : listed.declarations.startProcedure header listed.path.current.children =
      framed.declarations.startProcedure header f := by
    rw [hdecls, hpath]
    rfl
  obtain ⟨hpath', hdecls'⟩ := declareProcedure_eq listed header hmade
  refine ⟨f, hf, hpath, ?_, hdecls'⟩
  rw [hpath']
  unfold current
  rw [hpath]
  rfl

theorem addParameters_frames (parameters : List (Option Direction × DataEntry)) (b : Build) :
    (b.addParameters parameters).frames = b.frames ∧ (b.addParameters parameters).storage = b.storage := by
  induction parameters generalizing b with
  | nil => exact ⟨rfl, rfl⟩
  | cons parameter rest ih => exact ih (b.addParameter parameter)

/-- A procedure is opened; its parameters have no boundaries. -/
theorem enterProcedure_boundaries (framed : Build) (header : DeclaredProcedure) : ∃ f,
    (((framed.enter (.procedure header)).addParameters header.parameters).declareProcedure header).path.boundaries =
      framed.path.boundaries ++ [.start ⟨.procedure, (framed.declarations.startProcedure header f).1⟩] ∧
    (((framed.enter (.procedure header)).addParameters header.parameters).declareProcedure header).declarations =
      (framed.declarations.startProcedure header f).2.2 := by
  have hadded := addParameters_boundaries header.parameters (framed.enter (.procedure header))
  rw [enter_boundaries _ (.procedure header) rfl] at hadded
  obtain ⟨f, _, hlisted, hpath, hdecls⟩ := enterProcedure_eq framed header
  refine ⟨f, ?_, hdecls⟩
  have habove : ∀ o : OpenNode, o.node.kind = .procedure header →
      ({ current := o, above := framed.path.current :: framed.path.above } : Path).boundaries =
        framed.path.boundaries ++ (o.node.starts ++ o.children.boundaries false) := by
    intro o ho
    have hplain : o.node.isDefinition = false := Node.isDefinition_of_kind ho
    rw [boundaries_eq rfl, hplain]
  have hnone : f.boundaries false = [] := by
    have hbounds := (habove ⟨framed.newNode (.procedure header), f⟩ rfl).symm.trans
      ((congrArg Path.boundaries hlisted).symm.trans hadded)
    have hcancel := append_cancel_left hbounds
    rw [starts_of_opening rfl] at hcancel
    exact append_cancel_left hcancel
  have hkind := bindIfMade_kind (framed.newNode (.procedure header)) (framed.declarations.startProcedure header f).1
  have hopening : (bindIfMade (framed.newNode (.procedure header)) (framed.declarations.startProcedure header f).1).opening? =
      some ⟨.procedure, (framed.declarations.startProcedure header f).1⟩ := by
    cases (framed.declarations.startProcedure header f).1 <;> rfl
  rw [hpath]
  refine (habove _ hkind).trans ?_
  rw [starts_of_opening hopening, boundaries_startProcedure, hnone]
  rfl

theorem startProgram_opens (hready : b.declarations.Ready base) (header : ProgramHeader) :
    Opens b (((b.pushFrame ∅).enter (.program header)).declareCurrent fun d =>
      (some (d.startProgram header).1, (d.startProgram header).2))
      ⟨.program, some (b.declarations.startProgram header).1⟩ := by
  obtain ⟨hprogs, hscopes⟩ := startProgram_stack hready header
  exact {
    boundaries := declareCurrent_boundaries (b.pushFrame ∅) (.program header) rfl _
    frames := rfl
    kept := rfl
    programs := hprogs
    scopes := hscopes
    named := rfl }

theorem startSection_opens (hready : b.declarations.Ready base) (heading : SectionHeading) :
    Opens b (b.startSection heading) ⟨.heading, (b.declarations.startHeading heading).1⟩ := by
  refine opens_declareHeading b rfl rfl rfl (fun _ => rfl) (sameStack_startHeading hready heading) ?_
  unfold Declarations.startHeading Declarations.currentScope
  cases b.declarations.scopes <;> rfl

theorem startParagraph_opens (hready : b.declarations.Ready base) (heading : ParagraphHeading) :
    Opens b (b.startParagraph heading) ⟨.paragraph, (b.declarations.startParagraph heading).1⟩ := by
  refine opens_declareHeading b rfl rfl rfl (fun _ => rfl) (sameStack_startParagraph hready heading) ?_
  unfold Declarations.startParagraph Declarations.currentScope
  cases b.declarations.scopes <;> rfl

theorem startProcedureDivision_opens (hready : (b.closeDefinitions none).declarations.Ready base) (header : ProcedureHeader) :
    Opens (b.closeDefinitions none) (b.startProcedureDivision header) ⟨.procedureDivision, none⟩ :=
  .plain (enter_boundaries _ (.procedureDivision header) rfl) rfl rfl rfl (sameStack_startProcedureDivision hready header) rfl

theorem startProcedure_opens (hready : (b.closeDefinitions none).declarations.Ready base) (header : DeclaredProcedure) : ∃ f,
    Opens (b.closeDefinitions none) (b.startProcedure header)
      ⟨.procedure, ((b.closeDefinitions none).declarations.startProcedure header f).1⟩ ∧
    (b.startProcedure header).declarations = ((b.closeDefinitions none).declarations.startProcedure header f).2.2 := by
  unfold Build.startProcedure
  simp only
  generalize b.closeDefinitions none = closed at hready ⊢
  have hmarked : closed.markProgram.path.boundaries = closed.path.boundaries :=
    boundaries_same (.cons (OpenNode.Same.refl _) (mapFirst_same _ _ _))
  obtain ⟨f, hbounds, hdecls⟩ := enterProcedure_boundaries (closed.markProgram.pushFrame (.single .insideProcedure)) header
  obtain ⟨hprogs, hscopes, hsome⟩ := startProcedure_made hready header f
  have hlisted := addParameters_frames header.parameters
    ((closed.markProgram.pushFrame (.single .insideProcedure)).enter (.procedure header))
  refine ⟨f, ⟨hbounds.trans (congrArg (· ++ _) hmarked), ?_, ?_, ?_, ?_, ?_⟩, hdecls⟩
  · exact (bindCurrent_frames _ _).1.trans hlisted.1
  · exact (bindCurrent_frames _ _).2.trans hlisted.2
  · rw [hdecls]
    exact hprogs
  · rw [hdecls]
    exact hscopes
  · rw [hsome]
    rfl

/-- The innermost construct of the first builder is closed in the second. -/
structure Closes (b b' : Build) (o : Opening) : Prop where
  boundaries : b'.path.boundaries = b.path.boundaries ++ [.finish]
  openings : b.path.openings = o :: b'.path.openings
  frames : b'.frames = if o.construct.isScope then b.frames.tail else b.frames
  kept : b'.storage = if o.construct.isScope then (b.frames.map Frame.storage).headD b.storage
    else if storages.ended o.construct then none else b.storage
  programs : b'.declarations.openPrograms =
    if o.construct == .program then b.declarations.openPrograms.tail else b.declarations.openPrograms
  scopes : b'.declarations.scopes =
    match o.construct with
    | .program => (b.declarations.scopes.dropWhile fun scope => some scope != b.declarations.openPrograms.head?).tail
    | .procedure => b.declarations.scopes.tail
    | _ => b.declarations.scopes

theorem Unmarked.closes (h : Unmarked b b') (h' : Closes b' b'' o) : Closes b b'' o where
  boundaries := by rw [h'.boundaries, h.boundaries]
  openings := by rw [← openings_congr h.boundaries, h'.openings]
  frames := by rw [h'.frames, h.frames]
  kept := by rw [h'.kept, h.frames, h.kept]
  programs := by rw [h'.programs, h.declarations]
  scopes := by rw [h'.scopes, h.declarations]

/-- Closing a construct leaves the others open. -/
theorem exit_boundaries (hkind : b.current.kind.construct? = some c) (hroot : ¬ b.path.atRoot = true) :
    ∃ id, b.exit.path.boundaries = b.path.boundaries ++ [.finish] ∧
      b.path.openings = ⟨c, id⟩ :: b.exit.path.openings := by
  have hopening : b.path.current.node.opening? = some ⟨c, _⟩ := opening?_of_construct hkind
  cases habove : b.path.above with
  | nil => exact absurd (by simp [Path.atRoot, habove]) hroot
  | cons o os =>
    have hclose : b.exit.path.boundaries = _ := boundaries_close habove
    rw [ends_of_opening hopening] at hclose
    refine ⟨b.current.symbol?, hclose, ?_⟩
    rw [← openAfter_boundaries b.exit.path, hclose, openAfter_append, openAfter_boundaries]
    unfold openings
    rw [filterMap_cons, hopening]
    rfl

theorem popFrame_path (b : Build) : b.popFrame.path = b.path := by
  unfold popFrame
  split <;> rfl

theorem popFrame_frames (b : Build) :
    b.popFrame.frames = b.frames.tail ∧ b.popFrame.storage = (b.frames.map Frame.storage).headD b.storage := by
  unfold popFrame
  split
  · rename_i hnone
    rw [hnone]
    exact ⟨rfl, rfl⟩
  · rename_i frame rest hsome
    rw [hsome]
    exact ⟨rfl, rfl⟩

/-- An event that neither opens nor closes a construct is a statement or a data entry. -/
theorem entry_cases {event : Event} (hopens : event.opens = none) (hcloses : event.closes = none) :
    (∃ body, event = .statement body) ∨ ∃ level, event.level? = some level := by
  cases event <;> cases hopens <;> cases hcloses
  case statement body => exact .inl ⟨body, rfl⟩
  all_goals exact .inr ⟨_, rfl⟩

theorem isDefinition_of_level {level : Level} (h : kind.definition?.map (·.level) = some level) :
    kind.isDefinition = true := by
  obtain ⟨definition, hsome, -⟩ := Option.map_eq_some_iff.mp h
  exact Option.isSome_of_eq_some hsome

end Steps

section Entries

variable {b : Build} {P : Build → Prop} {event : Event}

/-- What holds when open definitions are closed, and what nodes of data entries and nodes without children keep, holds after
an event that opens and closes nothing else. -/
theorem entry_keep (hopen : ∀ {b : Build} {k : NodeKind}, k.isDefinition = true → P b → P (b.openEntry k))
    (hleaf : ∀ {b : Build} {kind : NodeKind}, kind.isDefinition = false → kind.construct? = none → P b → P (b.leaf kind))
    (hmark : ∀ {b : Build}, P b → P (b.markCurrent .containsIndex)) (h : P b)
    (hclosed : ∀ bound, P (b.closeDefinitions bound)) (hopens : event.opens = none) (hcloses : event.closes = none) :
    P (b.step event) := by
  rcases entry_cases hopens hcloses with ⟨body, rfl⟩ | ⟨level, hlevel⟩
  · exact hleaf rfl rfl h
  · obtain ⟨kind, entry, -, hkind, -, heq⟩ := b.step_entry hlevel
    rw [heq]
    exact addIndexes_keep (fun _ => hleaf rfl rfl) hmark (hopen (isDefinition_of_level hkind) (hclosed _)) entry

end Entries

section Steps

variable {b b' : Build} {o : Opening}

/-- What is open in the declarations goes with the open constructs. -/
structure Stacked (b : Build) : Prop where
  scopes : b.declarations.scopes = scopeSymbols b.path.openings
  programs : b.declarations.openPrograms = programSymbols b.path.openings
  anchored : Anchored b.path.openings

theorem Stacked.same (h : b.Stacked) (hsame : SameOpen b b') : b'.Stacked where
  scopes := by rw [hsame.stack.2, hsame.openings, h.scopes]
  programs := by rw [hsame.stack.1, hsame.openings, h.programs]
  anchored := by
    rw [hsame.openings]
    exact h.anchored

theorem Stacked.opens (h : b.Stacked) (hopens : Opens b b' o) : b'.Stacked where
  scopes := by rw [hopens.scopes, hopens.openings, scopeSymbols_cons, h.scopes]
  programs := by rw [hopens.programs, hopens.openings, programSymbols_cons, h.programs]
  anchored := by
    rw [hopens.openings]
    refine ⟨?_, h.anchored⟩
    have hinside : (!b.declarations.scopes.isEmpty) = insideProgram (b.path.openings.map Opening.construct) := by
      have hiff := h.anchored.scopeSymbols_eq_nil
      rw [← h.scopes] at hiff
      cases hscopes : b.declarations.scopes with
      | nil => simpa using (hiff.mp hscopes).symm
      | cons scope rest =>
        have hnot : ¬ insideProgram (b.path.openings.map Opening.construct) = false := by
          rw [← hiff, hscopes]
          simp
        simpa using (Bool.not_eq_false _ ▸ hnot : insideProgram _ = true).symm
    rw [hopens.named, hinside]

theorem Stacked.closes (h : b.Stacked) (hcloses : Closes b b' o) : b'.Stacked := by
  have hanchored := h.anchored
  have hscopes := h.scopes
  have hprogs := h.programs
  rw [hcloses.openings] at hanchored hscopes hprogs
  obtain ⟨hsymbol, hrest⟩ := hanchored
  rw [scopeSymbols_cons] at hscopes
  rw [programSymbols_cons] at hprogs
  have hscopes' := hcloses.scopes
  have hprograms' := hcloses.programs
  obtain ⟨c, symbol⟩ := o
  cases c with
  | program =>
    obtain ⟨id, rfl⟩ : ∃ id, symbol = some id := Option.isSome_iff_exists.mp hsymbol
    refine ⟨?_, ?_, hrest⟩
    · simpa [hscopes, hprogs, Construct.isScope] using hscopes'
    · simpa [hprogs] using hprograms'
  | procedure =>
    refine ⟨?_, ?_, hrest⟩
    · cases symbol with
      | some id => simpa [hscopes, Construct.isScope] using hscopes'
      | none =>
        -- the procedure lies in no program, so there is no scope around it
        have hnone : scopeSymbols b'.path.openings = [] := by
          refine hrest.scopeSymbols_eq_nil.mpr ?_
          simpa [Construct.isNamed] using hsymbol
        simpa [hscopes, hnone, Construct.isScope] using hscopes'
    · simpa [hprogs] using hprograms'
  | _ =>
    refine ⟨?_, ?_, hrest⟩
    · simpa [hscopes, Construct.isScope] using hscopes'
    · simpa [hprogs] using hprograms'

/-- What is put aside in the builder goes with the open constructs, too. -/
structure InStep (b : Build) : Prop extends Stacked b where
  frames : b.frames.length = b.path.openings.countP (·.construct.isScope)

theorem inStep_start (c : Context) : (start c).InStep := ⟨⟨rfl, rfl, trivial⟩, rfl⟩

theorem InStep.same (h : b.InStep) (hsame : SameOpen b b') : b'.InStep :=
  ⟨h.toStacked.same hsame, by rw [hsame.frames, hsame.openings, h.frames]⟩

theorem InStep.opens (h : b.InStep) (hopens : Opens b b' o) : b'.InStep :=
  ⟨h.toStacked.opens hopens, by rw [hopens.frames, hopens.openings, countP_cons, ← h.frames]; split <;> rfl⟩

theorem InStep.closes (h : b.InStep) (hcloses : Closes b b' o) : b'.InStep := by
  have hframes := h.frames
  rw [hcloses.openings, countP_cons] at hframes
  refine ⟨h.toStacked.closes hcloses, ?_⟩
  rw [hcloses.frames]
  split <;> rename_i hscope <;> simp [hframes, hscope]

end Steps

end Build

end CobolSymbols
