import CobolSymbols.Proofs.Build.Clauses
import CobolSymbols.Proofs.Build.TrackedEvents

/-!
# The bindings of a unit

Whatever is read, each item of a unit that is no index is bound by the node of its definition, and every item that is
bound obeys its clauses. What carries this from event to event is that a definition gets its symbol once: as long as it is
open, neither it nor the definitions that are complete in it have symbols.
-/

set_option autoImplicit false

namespace CobolSymbols

open Declarations Forest List Node OpenNode Path

/-- Without symbols there is nothing but definitions that have none. -/
theorem Forest.idle_of_symbols {f : Forest} (h : f.symbols = []) : f.Idle := by
  induction f with
  | nil => exact trivial
  | cons node children siblings ihChildren ihSiblings =>
    rw [symbols_cons, append_eq_nil_iff, append_eq_nil_iff, Option.toList_eq_nil_iff] at h
    exact ⟨fun _ => ⟨h.1.1, ihChildren h.1.2⟩, ihSiblings h.2⟩

namespace Path

variable {p p' : Path}

/-- The data definitions of the tree under construction that have symbols. -/
def bindings (p : Path) : List (NodeKind × SymbolId) := p.nodes.filterMap Node.binding?

/-- Open definitions have no symbols, and neither have the definitions that are complete in them. -/
def Idle (p : Path) : Prop :=
  ∀ o ∈ p.current :: p.above, o.node.isDefinition = true → o.node.symbol? = none ∧ o.children.Idle

theorem bindings_eq (p : Path) : p.bindings =
    (p.above.reverse.flatMap OpenNode.nodes).filterMap Node.binding? ++
      (p.current.node.binding?.toList ++ p.current.children.bindings) := by
  unfold bindings nodes OpenNode.nodes
  rw [filterMap_append, filterMap_cons]
  cases p.current.node.binding? <;> rfl

/-- The second path binds the same symbols, and its open definitions have none if those of the first have none. -/
structure Rebinds (p p' : Path) : Prop where
  bindings : p'.bindings = p.bindings
  idle : p.Idle → p'.Idle

theorem Rebinds.refl (p : Path) : Rebinds p p := ⟨rfl, id⟩

/-- Only what the open nodes were made from, what they mean and their children count. -/
theorem rebinds_of_same (h : Forall₂ Same (p.current :: p.above) (p'.current :: p'.above)) : Rebinds p p' := by
  constructor
  · have hlists : ∀ {os os' : List OpenNode}, Forall₂ Same os os' →
        (os'.reverse.flatMap OpenNode.nodes).filterMap Node.binding? =
          (os.reverse.flatMap OpenNode.nodes).filterMap Node.binding? := by
      intro os os' hsame
      induction hsame with
      | nil => rfl
      | cons hnode _ ih =>
        have hbinding := binding?_congr hnode.kind hnode.symbol
        simp only [reverse_cons, flatMap_append, filterMap_append, ih, flatMap_singleton,
          OpenNode.nodes, filterMap_cons, hbinding, hnode.children]
    have hall : ∀ q : Path, q.bindings =
        ((q.current :: q.above).reverse.flatMap OpenNode.nodes).filterMap Node.binding? := by
      intro q
      unfold bindings nodes
      rw [reverse_cons, flatMap_append, flatMap_singleton]
    rw [hall, hall, hlists h]
  · intro hidle
    have hlists : ∀ {os os' : List OpenNode}, Forall₂ Same os os' →
        (∀ o ∈ os, o.node.isDefinition = true → o.node.symbol? = none ∧ o.children.Idle) →
          ∀ o ∈ os', o.node.isDefinition = true → o.node.symbol? = none ∧ o.children.Idle := by
      intro os os' hsame
      induction hsame with
      | nil => exact fun h => h
      | cons hnode _ ih =>
        intro hall
        rw [forall_mem_cons] at hall ⊢
        refine ⟨fun hdef => ?_, ih hall.2⟩
        rw [hnode.symbol, hnode.children]
        exact hall.1 ((isDefinition_congr hnode.kind).symm.trans hdef)
    exact hlists h hidle

theorem rebinds_enter {n : Node} (h : n.symbol? = none) : Rebinds p (p.enter n) := by
  constructor
  · unfold bindings
    rw [enter_nodes, filterMap_append, filterMap_cons, binding?_of_unbound h]
    exact append_nil _
  · intro hidle o ho hdef
    rcases mem_cons.mp ho with rfl | ho
    · exact ⟨h, trivial⟩
    · exact hidle o ho hdef

/-- A tree without definitions that have symbols is added. -/
theorem rebinds_attach {t : Tree} (h : (Forest.ofTree t).bindings = []) (hidle : (Forest.ofTree t).Idle) :
    Rebinds p (p.attach t) := by
  constructor
  · unfold bindings
    rw [attach_nodes, filterMap_append]
    unfold Forest.bindings at h
    unfold Tree.nodes
    rw [h, append_nil]
  · intro hall o ho hdef
    rcases mem_cons.mp ho with rfl | ho
    · obtain ⟨hfree, hchildren⟩ := hall p.current (mem_cons_self ..) hdef
      exact ⟨hfree, idle_append.mpr ⟨hchildren, hidle⟩⟩
    · exact hall o (mem_cons_of_mem _ ho) hdef

theorem rebinds_leaf {n : Node} (h : n.symbol? = none) : Rebinds p (p.leaf n) := by
  refine rebinds_attach ?_ ⟨fun _ => ⟨h, trivial⟩, trivial⟩
  unfold Forest.ofTree
  rw [bindings_cons, binding?_of_unbound h]
  rfl

/-- What an open node is closed into has no symbol unless it is no definition. -/
theorem Idle.ofTree (h : p.Idle) : (Forest.ofTree p.current.toTree).Idle :=
  ⟨h p.current (mem_cons_self ..), trivial⟩

theorem rebinds_close : Rebinds p (p.close?.getD p) := by
  constructor
  · unfold bindings
    rw [close?_nodes]
  · intro hidle
    cases habove : p.above with
    | nil =>
      have hsame : p.close?.getD p = p := by
        unfold close? pop?
        rw [habove]
        rfl
      rw [hsame]
      exact hidle
    | cons parent rest =>
      rw [close?_of_above habove]
      have houter : ∀ o ∈ p.above, o.node.isDefinition = true → o.node.symbol? = none ∧ o.children.Idle :=
        fun o ho => hidle o (mem_cons_of_mem _ ho)
      rw [habove] at houter
      intro o ho hdef
      rcases mem_cons.mp ho with rfl | ho
      · obtain ⟨hfree, hchildren⟩ := houter parent (mem_cons_self ..) hdef
        exact ⟨hfree, idle_append.mpr ⟨hchildren, hidle.ofTree⟩⟩
      · exact houter o (mem_cons_of_mem _ ho) hdef

/-- What a node means counts for definitions only. -/
theorem rebinds_mapCurrent {f : Node → Node} (h : p.current.node.isDefinition = false)
    (hkind : (f p.current.node).kind = p.current.node.kind) : Rebinds p (p.mapCurrent f) := by
  have hnot : (f p.current.node).isDefinition = false := (isDefinition_congr hkind).trans h
  constructor
  · rw [bindings_eq, bindings_eq]
    unfold mapCurrent
    simp only [binding?_of_not h, binding?_of_not hnot]
  · intro hidle o ho hdef
    rcases mem_cons.mp ho with rfl | ho
    · exact absurd (hnot.symm.trans hdef) Bool.false_ne_true
    · exact hidle o (mem_cons_of_mem _ ho) hdef

end Path

namespace Declarations

variable {d d' : Declarations} {scope : SymbolId}

section Others

variable {l : List (NodeKind × SymbolId)}

/-- Only the table counts. -/
theorem Binds.of_table {d'' : Declarations} {l' : List (NodeKind × SymbolId)} (h : Binds d d' l l')
    (htable : d''.table = d'.table) : Binds d d'' l l' :=
  h.trans (binds_of_size (congrArg Table.size htable) (fun id => congrArg (fun t : Table => (t.get id).stamp) htable) l')

theorem Binds.refl (d : Declarations) (l : List (NodeKind × SymbolId)) : Binds d d l l := (Quiet.refl d).binds l

theorem binds_other (s : Symbol) (hitem : s.kind.isItem = false) (parent : Option ScopeRef)
    (l : List (NodeKind × SymbolId)) : Binds d ((d.alloc s).2.enterIn d.table.size parent) l l := by
  have hstamped := (alloc_stamped (d := d) s).trans (enterIn_stamped d.table.size parent)
  refine binds_of_indexes hstamped.size_le hstamped.stamp (fun v hv hmade => ?_) l
  have heq := eq_size_of_new hv.1 hv.2
  have hget := d.get_made s
  have hlt := d.lt_size_alloc s
  have hkind := ((enterIn_stamped (d := (d.alloc s).2) d.table.size parent).stamp d.table.size hlt).kind
  subst heq
  unfold Table.IsItem at hmade
  rw [hkind, hget, hitem] at hmade
  exact absurd hmade Bool.false_ne_true

theorem startProgram_binds (header : ProgramHeader) (l : List (NodeKind × SymbolId)) :
    Binds d (d.startProgram header).2 l l := by
  obtain ⟨owner, place, parent, made, -, -, -, -, hquiet, htable⟩ := startProgram_made d header
  exact ((binds_other (programSymbol header owner place) rfl parent l).trans (hquiet.binds l)).of_table htable

theorem endProgram_binds (l : List (NodeKind × SymbolId)) : Binds d d.endProgram l l := by
  have hleft : Binds d d.leaveProgram l l := (Binds.refl d l).of_table rfl
  unfold Declarations.endProgram
  simp only
  split
  · have hchanges := Linker.linkUnit_changes { context := d.leaveProgram.context } d.leaveProgram.typedItems
      d.leaveProgram.dependentTypes d.leaveProgram.dependentTables
    exact hleft.trans (binds_of_size d.leaveProgram.size_link hchanges.stamp l)
  · exact hleft

theorem startHeading_binds (heading : SectionHeading) (l : List (NodeKind × SymbolId)) :
    Binds d (d.startHeading heading).2 l l := by
  unfold startHeading
  split
  · exact .refl d l
  · rename_i scope _
    exact (binds_other (headingSymbol heading scope) rfl (some (.slot scope .sections)) l).of_table rfl

theorem startParagraph_binds (heading : ParagraphHeading) (l : List (NodeKind × SymbolId)) :
    Binds d (d.startParagraph heading).2 l l := by
  unfold startParagraph
  split
  · exact .refl d l
  · rename_i scope _
    exact binds_other (d.paragraphSymbol heading scope) rfl (some (.slot scope .paragraphs)) l

/-- Steps that make no items leave the bindings as they are. -/
theorem PlainStep.binds (h : PlainStep d d') (l : List (NodeKind × SymbolId)) : Binds d d' l l := by
  cases h with
  | startProgram header => exact startProgram_binds header l
  | endProgram => exact endProgram_binds l
  | startProcedureDivision header =>
    have hstorage : Binds d { d with storage := none } l l := (Binds.refl d l).of_table rfl
    exact hstorage.trans ((startProcedureDivision_quiet header).binds l)
  | startHeading heading => exact startHeading_binds heading l
  | startParagraph heading => exact startParagraph_binds heading l
  | setStorage | endProcedure | endHeading => exact (Binds.refl d l).of_table rfl

theorem Ready.startProcedure_binds {base : Nat} (h : d.Ready base) (hplace : d.table.InPlace) (header : DeclaredProcedure)
    {parameters : Forest} (hidle : parameters.Idle) :
    Binds d (d.startProcedure header parameters).2.2 parameters.bindings
      (d.startProcedure header parameters).2.1.bindings := by
  cases hscope : d.currentScope with
  | none =>
    rw [startProcedure_of_none hscope]
    exact .refl d _
  | some scope =>
    have hmade : Binds d { (d.openProcedure header scope).2 with storage := some .linkage } parameters.bindings
        parameters.bindings := ((binds_other (procedureSymbol header scope) rfl (some (.slot scope .procedures)) _).trans
      (registerProgram_quiet.binds _)).of_table rfl
    have hground := h.ground_linkage hplace hscope header
    unfold Declarations.startProcedure
    simp only [hscope]
    exact ((hmade.trans (hground.declareParameters_binds hidle {})).trans ((setSignature_quiet _).binds _)).of_table rfl

end Others

end Declarations

namespace Build

open Declarations (Step Steps Binds)

variable {b b' b'' : Build}

/-- What holds between two events: the declarations are ready, items stand where their marks tell, and open definitions
have no symbols. -/
structure Bound (b : Build) : Prop where
  ready : ∃ base, b.declarations.Ready base
  place : b.declarations.table.InPlace
  idle : b.path.Idle

/-- What reading does: steps of the declarations that bind the new items. -/
structure Reads (b b' : Build) : Prop where
  steps : Steps b.declarations b'.declarations
  binds : Binds b.declarations b'.declarations b.path.bindings b'.path.bindings
  idle : b'.path.Idle

theorem Reads.trans (h : b.Reads b') (h' : b'.Reads b'') : b.Reads b'' :=
  ⟨h.steps.trans h'.steps, h.binds.trans h'.binds, h'.idle⟩

section

variable (h : b.Bound)
include h

theorem Bound.reads (hreads : b.Reads b') : b'.Bound := by
  obtain ⟨base, hready⟩ := h.ready
  exact ⟨hreads.steps.keep Step.ready ⟨base, hready⟩, hready.inPlace_steps h.place hreads.steps, hreads.idle⟩

/-- The tree changes and the declarations do not. -/
theorem Bound.rebinds (hpath : b.path.Rebinds b'.path) (hsame : b'.declarations = b.declarations) : b.Reads b' where
  steps := by
    rw [hsame]
    exact .refl
  binds := by
    rw [hsame, hpath.bindings]
    exact .refl _ _
  idle := hpath.idle h.idle

end

/-- A definition is closed; a record is made into symbols. -/
theorem Bound.exitDefinition (h : b.Bound) : b.Reads b.exitDefinition := by
  cases habove : b.path.above with
  | nil =>
    have hsame : b.exitDefinition = b := by
      unfold Build.exitDefinition Path.pop?
      rw [habove]
    rw [hsame]
    exact h.rebinds (.refl _) rfl
  | cons o os =>
    have hclosed : b.path.close?.getD b.path = ({ current := o, above := os } : Path).attach b.path.current.toTree :=
      close?_of_above habove
    rw [exitDefinition_of_above habove]
    split
    · refine h.rebinds ?_ rfl
      rw [← hclosed]
      exact rebinds_close
    · rename_i hnot
      obtain ⟨base, hready⟩ := h.ready
      have hstep : Step b.declarations (b.declarations.declareRecord b.path.current.toTree).2 := .declareRecord _ _
      have hbefore : b.path.bindings = ({ current := o, above := os } : Path).bindings ++
          (Forest.ofTree b.path.current.toTree).bindings := by
        unfold Path.bindings
        rw [pop?_nodes (pop?_of_above habove), filterMap_append]
        rfl
      have hafter : ∀ tree : Tree, (({ current := o, above := os } : Path).attach tree).bindings =
          ({ current := o, above := os } : Path).bindings ++ (Forest.ofTree tree).bindings := by
        intro tree
        unfold Path.bindings
        rw [attach_nodes, filterMap_append]
        rfl
      refine ⟨.single hstep, ?_, fun open' hopen hdef => ?_⟩
      · simp only [hbefore, hafter]
        refine Binds.append_left ?_ _
        cases hscope : b.declarations.currentScope with
        | none =>
          rw [declareRecord_of_none hscope]
          exact (Binds.refl _ _).of_table rfl
        | some scope =>
          have hscoped := hready.scoped hscope
          exact declareRecord_binds _ h.idle.ofTree hscope hscoped.kind
            (h.place.global_of_program hscoped.kind)
      · -- the node around the record is no definition
        rcases mem_cons.mp hopen with rfl | hopen
        · exact absurd hdef hnot
        · refine h.idle open' (mem_cons_of_mem _ ?_) hdef
          rw [habove]
          exact mem_cons_of_mem _ hopen

/-- The symbols of a procedure and its parameters are made; the parameters are the children of its node. -/
theorem Bound.declareProcedure (h : b.Bound) (hnot : b.current.isDefinition = false)
    (hparams : b.path.current.children.Idle) (header : DeclaredProcedure) : b.Reads (b.declareProcedure header) := by
  obtain ⟨base, hready⟩ := h.ready
  have hbinds := hready.startProcedure_binds h.place header hparams
  have hstep : Step b.declarations (b.declarations.startProcedure header b.path.current.children).2.2 :=
    .startProcedure _ header _
  obtain ⟨hpath, hdecls⟩ := declareProcedure_eq b header rfl
  generalize b.declarations.startProcedure header b.path.current.children = made at hbinds hstep hpath hdecls
  have hnode : (Declarations.bindIfMade b.current made.1).isDefinition = false := by
    cases made.1 <;> exact hnot
  refine ⟨?_, ?_, ?_⟩
  · rw [hdecls]
    exact .single hstep
  · rw [hdecls, hpath, bindings_eq, bindings_eq]
    simp only [binding?_of_not hnode]
    have hcurrent : b.path.current.node.binding? = none := binding?_of_not hnot
    rw [hcurrent]
    exact hbinds.append_left _
  · rw [hpath]
    intro o ho hdef
    rcases mem_cons.mp ho with rfl | ho
    · exact absurd (hnode.symm.trans hdef) Bool.false_ne_true
    · exact h.idle o (mem_cons_of_mem _ ho) hdef

/-- Every act binds the items that it makes. -/
theorem Bound.act {kinds : List NodeKind} (h : b.Bound) (hact : Act b kinds b') : b.Reads b' := by
  cases hact with
  | aside hpath _ hsame _ => exact h.rebinds (hpath ▸ .refl _) hsame
  | leaf | addParameter => exact h.rebinds (rebinds_leaf rfl) rfl
  | enter => exact h.rebinds (rebinds_enter rfl) rfl
  | enterProcedure =>
    have hmarked : b.Reads b.markProgram :=
      h.rebinds (rebinds_of_same (.cons (Same.refl _) (mapFirst_same _ _ b.path.above))) rfl
    exact hmarked.trans ((h.reads hmarked).rebinds (rebinds_enter rfl) rfl)
  | exit => exact h.rebinds rebinds_close rfl
  | exitDefinition => exact h.exitDefinition
  | markCurrent =>
    exact h.rebinds (rebinds_of_same (.cons ⟨rfl, rfl, rfl⟩ (forall₂_same.mpr fun o _ => Same.refl o))) rfl
  | bindCurrent _ hnot meaning =>
    cases meaning with
    | none => exact h.rebinds (.refl _) rfl
    | some meaning =>
      have hpath : b.path.Rebinds (b.path.mapCurrent fun n => { n with meaning := some meaning }) :=
        rebinds_mapCurrent hnot rfl
      exact h.rebinds hpath rfl
  | plain hplain => exact ⟨.single hplain.step, hplain.binds _, h.idle⟩
  | declareProcedure framed header =>
    obtain ⟨f, hf, hpath, _⟩ := addParameters_eq header.parameters (framed.enter (.procedure header)) Parameters.nil
    refine h.declareProcedure ?_ ?_ header
    · unfold current
      rw [hpath]
      rfl
    · rw [hpath]
      exact idle_of_symbols hf.symbols

theorem Bound.acts {kinds : List NodeKind} (h : b.Bound) (hacts : Acts b kinds b') : b.Reads b' := by
  induction hacts with
  | refl => exact h.rebinds (.refl _) rfl
  | tail _ hlast ih => exact ih.trans ((h.reads ih).act hlast)

end Build

end CobolSymbols
