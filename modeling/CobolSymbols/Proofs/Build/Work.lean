import CobolSymbols.Proofs.Build.Ready

/-!
# What a unit works on

Between two programs that lie in no other one, a unit makes elementary moves, and it opens and closes scopes; the end of
such a program links what it has declared. All of this works on the symbols from the outermost open program on. The
symbols that were there before stay as they are, except that the root lists the new programs.
-/

set_option autoImplicit false

namespace CobolSymbols

open List

namespace Declarations

variable {base old : Nat} {parent : Option ScopeRef} {d d' d'' : Declarations}

/-- What is done on the symbols from `base` on. -/
inductive Work (base : Nat) : Declarations → Declarations → Prop
  /-- A move is made among these symbols. -/
  | move {d d' : Declarations} (old : Nat) (parent : Option ScopeRef) (hmove : Move base old parent d d')
      (hold : base ≤ old) (hsize : base ≤ d.table.size)
      (hparent : ∀ ref, parent = some ref → base ≤ ref.owner ∨ ref = .slot Table.rootId .programs)
      (hscopes : ∀ scope ∈ d.scopes, base ≤ scope ∧ scope < d.table.size) : Work base d d'
  /-- Scopes are opened and closed, and names that are taken are reported. -/
  | stack {d d' : Declarations} (htable : d'.table = d.table) (hoptions : d'.context.options = d.context.options)
      (hcircular : d'.context.circular = d.context.circular) (htyped : d'.typedItems = d.typedItems)
      (htypes : d'.dependentTypes = d.dependentTypes) (htables : d'.dependentTables = d.dependentTables)
      (hpending : d'.pendingRenames ⊆ d.pendingRenames) : Work base d d'

/-- Any amount of work. -/
def Works (base : Nat) : Declarations → Declarations → Prop := Relation.ReflTransGen (Work base)

theorem Moves.works (h : Moves base old parent d d') (hold : base ≤ old) (hsize : base ≤ d.table.size)
    (hparent : ∀ ref, parent = some ref → base ≤ ref.owner ∨ ref = .slot Table.rootId .programs)
    (hscopes : ∀ scope ∈ d.scopes, base ≤ scope ∧ scope < d.table.size) : Works base d d' := by
  induction h with
  | refl => exact .refl
  | tail hfirst hmove ih =>
    refine ih.tail (.move old parent hmove hold ?_ hparent ?_)
    · exact hsize.trans (Moves.extends hfirst).size_le
    · rw [(Moves.stack hfirst).1]
      exact fun scope hscope =>
        ⟨(hscopes scope hscope).1, (hscopes scope hscope).2.trans_le (Moves.extends hfirst).size_le⟩

theorem works_stack (hcontext : d'.context = d.context) (htyped : d'.typedItems = d.typedItems)
    (htypes : d'.dependentTypes = d.dependentTypes) (htables : d'.dependentTables = d.dependentTables)
    (hpending : d'.pendingRenames ⊆ d.pendingRenames) : Works base d d' :=
  .single (.stack (congrArg Context.table hcontext) (congrArg Context.options hcontext) (congrArg Context.circular hcontext)
    htyped htypes htables hpending)

theorem works_open (taken : Bool) (header : ProgramHeader) (id : SymbolId) :
    Works base d ((if taken then d.report (.duplicateProgram header.name) header.position else d).openProgram id) := by
  cases taken with
  | false => exact works_stack rfl rfl rfl rfl (List.Subset.refl _)
  | true => exact .single (.stack rfl rfl (d.context.circular_push rfl _ _) rfl rfl rfl (List.Subset.refl _))

/-- Where the work of a unit begins: with the outermost open program, or else with the next symbol. -/
def frontier (d : Declarations) : Nat := d.openPrograms.getLast?.getD d.table.size

theorem frontier_of_closed (h : d.openPrograms = []) : d.frontier = d.table.size := by
  simp [frontier, h]

theorem Ready.frontier_eq (h : d.Ready base) (hopen : d.openPrograms ≠ []) : d.frontier = base := by
  unfold frontier
  rw [getLast?_eq_some_getLast hopen]
  exact h.outermost _ (getLast?_eq_some_getLast hopen)

theorem Ready.frontier_le_size (h : d.Ready base) : d.frontier ≤ d.table.size := by
  by_cases hopen : d.openPrograms = []
  · exact (frontier_of_closed hopen).le
  · rw [h.frontier_eq hopen]
    obtain ⟨program, hprog⟩ := exists_mem_of_ne_nil _ hopen
    obtain ⟨hbase, hlt, _⟩ := h.programs program hprog
    exact hbase.trans hlt.le

/-- What is under construction is sound from the outermost open program on. -/
theorem Ready.sound_frontier (h : d.Ready base) : d.table.Sound d.frontier := by
  by_cases hopen : d.openPrograms = []
  · rw [frontier_of_closed hopen]
    exact h.sound.restart
  · rw [h.frontier_eq hopen]
    exact h.sound

/-- With the same outermost open program the work goes on where it began. -/
theorem frontier_congr (hlast : d'.openPrograms.getLast? = d.openPrograms.getLast?)
    (hsize : d.openPrograms = [] → d'.table.size = d.table.size) : d'.frontier = d.frontier := by
  unfold frontier
  rw [hlast]
  cases hopen : d.openPrograms.getLast? with
  | none => exact hsize (getLast?_eq_none_iff.mp hopen)
  | some program => rfl

/-- Work on the symbols of the unit, which go on from where they began. -/
structure Turn (d d' : Declarations) : Prop where
  works : Works d.frontier d d'
  frontier_eq : d'.frontier = d.frontier

theorem Ready.turn_startProgram (h : d.Ready base) (header : ProgramHeader) : Turn d (d.startProgram header).2 := by
  cases hhead : d.openPrograms.head? with
  | some program =>
    obtain ⟨hbase, hlt, hkind⟩ := h.programs program (mem_of_mem_head? hhead)
    obtain ⟨htable, hprogs, _⟩ := startProgram_nested hhead header
    have hmoves := declareNested_moves hlt hbase hkind header
    have hopen : d.openPrograms ≠ [] := ne_nil_of_mem (mem_of_mem_head? hhead)
    have hsize : base ≤ d.table.size := hbase.trans hlt.le
    constructor
    · rw [h.frontier_eq hopen]
      have hmade := hmoves.works hsize hsize
        (fun ref href => by
          cases href
          exact .inl hbase)
        h.toOpened.scope_range
      unfold Declarations.startProgram
      simp only [hhead]
      exact hmade.trans (works_open _ header _)
    · refine frontier_congr ?_ fun hnone => absurd hnone hopen
      rw [hprogs, hmoves.stack.2, getLast?_cons, getLast?_eq_some_getLast hopen]
      rfl
  | none =>
    have hnone : d.openPrograms = [] := head?_eq_none_iff.mp hhead
    have hscopes : d.scopes = [] := (h.closed hnone).1
    obtain ⟨htable, hprogs, _⟩ := startProgram_topLevel hhead header
    have hroot := h.sound.root_isScope
    have hmoves := declareTopLevel_moves hroot h.sound.root_lt header
    have hmade : Made d (d.declareTopLevel header).2.2 (d.declareTopLevel header).1 .program :=
      made_declareTopLevel header
    constructor
    · rw [frontier_of_closed hnone]
      have hmade := hmoves.works le_rfl le_rfl
        (fun ref href => by
          cases href
          exact .inr rfl)
        (by simp [hscopes])
      unfold Declarations.startProgram
      simp only [hhead]
      exact hmade.trans (works_open _ header _)
    · rw [frontier_of_closed hnone]
      unfold frontier
      rw [hprogs, hmoves.stack.2, hnone]
      exact hmade.id_eq

/-- A procedure is made in its scope and opened, and its parameters are made in it. -/
theorem Ready.works_startProcedure {scope : SymbolId} (h : d.Ready base) (hscope : d.currentScope = some scope)
    (header : DeclaredProcedure) (parameters : Forest) : Works base d (d.startProcedure header parameters).2.2 := by
  have hscoped := h.scoped hscope
  have hsize : base ≤ d.table.size := hscoped.base_le.trans hscoped.lt.le
  have hready := h.openProcedure hscope header
  have hmade := (procedure_moves hscoped header).works hsize hsize
    (fun ref href => by
      cases href
      exact .inl hscoped.base_le)
    h.toOpened.scope_range
  have hopened : Works base d (d.openProcedure header scope).2 := hmade.trans (works_stack rfl rfl rfl rfl (List.Subset.refl _))
  have hsize' := hsize.trans (procedure_moves hscoped header).extends.size_le
  refine hopened.trans ((h.startProcedure_moves hscope header parameters).works hsize' hsize' ?_ ?_)
  · intro ref href
    cases href
    exact .inl hsize
  · exact hready.toOpened.scope_range

/-- A step works on the symbols of the unit, unless it ends the outermost program, which links the unit. -/
theorem Step.turn (hstep : Step d d') (h : d.Ready base) :
    Turn d d' ∨ d.leaveProgram.openPrograms = [] ∧ d' = d.leaveProgram.link := by
  cases h.course hstep with
  | startProgram header => exact .inl (h.turn_startProgram header)
  | endProgram =>
    by_cases hlast : d.leaveProgram.openPrograms = []
    · exact .inr ⟨hlast, by simp [Declarations.endProgram, hlast]⟩
    · have hend : d.endProgram = d.leaveProgram := by simp [Declarations.endProgram, hlast]
      rw [hend]
      refine .inl ⟨works_stack rfl rfl rfl rfl (nil_subset _), frontier_congr ?_ fun _ => rfl⟩
      have htail : d.leaveProgram.openPrograms = d.openPrograms.tail := rfl
      rw [htail] at hlast ⊢
      cases hopen : d.openPrograms with
      | nil => rfl
      | cons program rest =>
        rw [hopen] at hlast
        cases rest with
        | nil => exact absurd rfl hlast
        | cons outer rest => rw [tail_cons, getLast?_cons_cons]
  | startProcedure header parameters hscope =>
    refine .inl ⟨?_, frontier_congr ?_ fun hnone => absurd hnone (h.open_of_scope hscope)⟩
    · rw [h.frontier_eq (h.open_of_scope hscope)]
      exact h.works_startProcedure hscope header parameters
    · rw [(h.startProcedure_moves hscope header parameters).stack.2]
      exact congrArg List.getLast? (procedure_moves (h.scoped hscope) header).stack.2
  | inside hscope hmoves hparent =>
    have hscoped := h.scoped hscope
    have hsize : base ≤ d.table.size := hscoped.base_le.trans hscoped.lt.le
    refine .inl ⟨?_, frontier_congr (congrArg List.getLast? hmoves.stack.2) fun hnone =>
      absurd hnone (h.open_of_scope hscope)⟩
    rw [h.frontier_eq (h.open_of_scope hscope)]
    refine hmoves.works hsize hsize (fun ref href => .inl ?_) h.toOpened.scope_range
    obtain ⟨_, rfl⟩ := hparent ref href
    exact hscoped.base_le
  | endProcedure => exact .inl ⟨works_stack rfl rfl rfl rfl (.refl _), frontier_congr rfl fun _ => rfl⟩
  | aside storage hpending => exact .inl ⟨works_stack rfl rfl rfl rfl hpending, frontier_congr rfl fun _ => rfl⟩

theorem Step.keeps {P : Table → Prop}
    (hmove : ∀ {base old : Nat} {parent : Option ScopeRef} {d d' : Declarations}, Move base old parent d d' → P d.table →
      P d'.table)
    (hlink : ∀ d : Declarations, P d.table → P d.link.table) (hstep : Step d d') (h : d.Ready base) (hd : P d.table) :
    P d'.table := by
  rcases hstep.turn h with hturn | ⟨_, rfl⟩
  · refine hturn.works.rec hd fun _ hwork ih => ?_
    cases hwork with
    | move old parent hwork => exact hmove hwork ih
    | stack htable => exact htable ▸ ih
  · exact hlink d.leaveProgram hd

end Declarations

end CobolSymbols
