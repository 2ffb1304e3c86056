import CobolSymbols.Proofs.Build.Openings
import CobolSymbols.Proofs.DataBinding
import CobolSymbols.Proofs.Session.Regular

/-!
# Open programs and procedures

While a unit is read, the tree keeps its open nodes and one frame for each open program or procedure, and the
declarations keep the programs and scopes that are open. The two are changed by the same events but in different ways: a
node is closed when the one that is wanted is found, scopes are closed up to the innermost program, and frames are taken
one by one. For well-nested events the three agree after each of them.
-/

set_option autoImplicit false

namespace CobolSymbols

open List Option

/-- Whether the node is a program or a procedure. -/
def NodeKind.isScope : NodeKind → Bool
  | .program _ | .procedure _ => true
  | _ => false

/-- The open nodes, from the root to the current one. -/
def Path.openNodes (p : Path) : List Node := (p.current :: p.above).reverse.map OpenNode.node

/-- The open programs and procedures, from the outermost to the innermost. -/
def Path.scopeNodes (p : Path) : List Node := p.openNodes.filter fun n => n.kind.isScope

theorem NodeKind.isScope_eq (k : NodeKind) : k.isScope = k.construct?.any Construct.isScope := by cases k <;> rfl

theorem NodeKind.isScope_of_isProgram {k : NodeKind} (h : k.isProgram = true) : k.isScope = true := by
  cases k <;> first | rfl | cases h

theorem NodeKind.isProgram_eq (k : NodeKind) : k.isProgram = k.construct?.any (· == .program) := by cases k <;> rfl

section Nodes

variable (ns : List Node)

theorem symbols_of_openings {sort : Construct → Bool} {isSort : NodeKind → Bool}
    (h : ∀ k : NodeKind, isSort k = k.construct?.any sort) :
    ((ns.filterMap Node.opening?).filter fun o => sort o.construct).filterMap Opening.symbol =
      (ns.filter fun n => isSort n.kind).filterMap Node.symbol? := by
  rw [filter_filterMap, filterMap_filterMap, filterMap_filter]
  refine filterMap_congr fun n _ => ?_
  rw [h n.kind]
  unfold Node.opening?
  cases n.kind.construct? with
  | none => rfl
  | some c => cases hsort : sort c <;> simp [Option.filter, hsort]

theorem scopeSymbols_nodes :
    scopeSymbols (ns.filterMap Node.opening?) = (ns.filter fun n => n.kind.isScope).filterMap Node.symbol? :=
  symbols_of_openings ns NodeKind.isScope_eq

theorem programSymbols_nodes :
    programSymbols (ns.filterMap Node.opening?) =
      ((ns.filter fun n => n.kind.isScope).filter fun n => n.kind.isProgram).filterMap Node.symbol? := by
  have hprogs : (ns.filter fun n => n.kind.isScope).filter (fun n => n.kind.isProgram) =
      ns.filter fun n => n.kind.isProgram := by
    rw [List.filter_filter]
    refine filter_congr fun n _ => ?_
    cases hprog : n.kind.isProgram with
    | false => rfl
    | true => rw [NodeKind.isScope_of_isProgram hprog, Bool.and_self]
  rw [hprogs]
  exact symbols_of_openings ns NodeKind.isProgram_eq

theorem countP_nodes :
    (ns.filterMap Node.opening?).countP (·.construct.isScope) = (ns.filter fun n => n.kind.isScope).length := by
  rw [countP_filterMap, ← countP_eq_length_filter]
  refine countP_congr fun n _ => ?_
  rw [NodeKind.isScope_eq]
  unfold Node.opening?
  cases n.kind.construct? with
  | none => rfl
  | some c => rfl

theorem insideProgram_nodes :
    insideProgram ((ns.filterMap Node.opening?).map Opening.construct) = false ↔
      ∀ n ∈ ns.filter (fun n => n.kind.isScope), n.kind.isProgram = false := by
  unfold insideProgram
  rw [← Bool.not_eq_true, contains_iff_mem]
  constructor
  · intro hnot n hn
    by_contra hprog
    rw [Bool.not_eq_false] at hprog
    refine hnot (List.mem_map.mpr ⟨⟨.program, n.symbol?⟩, ?_, rfl⟩)
    have hkind : n.kind.construct? = some .program := by
      cases hk : n.kind <;> rw [hk] at hprog <;> first | rfl | cases hprog
    exact mem_filterMap.mpr ⟨n, (mem_filter.mp hn).1, Node.opening?_of_construct hkind⟩
  · intro hnone hmem
    obtain ⟨o, ho, hconstruct⟩ := List.mem_map.mp hmem
    obtain ⟨n, hn, hopening⟩ := mem_filterMap.mp ho
    obtain ⟨c, hc, rfl⟩ := map_eq_some_iff.mp hopening
    have hprog : n.kind.isProgram = true := by
      rw [NodeKind.isProgram_of_construct? hc]
      exact beq_iff_eq.mpr hconstruct
    rw [hnone n (mem_filter.mpr ⟨hn, NodeKind.isScope_of_isProgram hprog⟩)] at hprog
    cases hprog

variable {ns}

/-- A program or procedure is without a symbol when neither it nor anything around it is a program. -/
theorem Anchored.symbol_eq_none_iff (h : Anchored (ns.filterMap Node.opening?)) {inner outer : List Node} {n : Node}
    (hns : (ns.filter fun n => n.kind.isScope) = inner ++ n :: outer) :
    n.symbol? = none ↔ ∀ m ∈ n :: outer, m.kind.isProgram = false := by
  induction ns generalizing inner with
  | nil => simp at hns
  | cons m ns ih =>
    rw [filterMap_cons] at h
    rw [filter_cons, NodeKind.isScope_eq] at hns
    cases hkind : m.kind.construct? with
    | none =>
      have hopening : m.opening? = none := by
        unfold Node.opening?
        rw [hkind]
        rfl
      rw [hopening] at h
      rw [hkind] at hns
      exact ih h hns
    | some c =>
      rw [Node.opening?_of_construct hkind] at h
      rw [hkind] at hns
      obtain ⟨hsymbol, hrest⟩ := h
      have hprog : m.kind.isProgram = (c == .program) := NodeKind.isProgram_of_construct? hkind
      have hinside := insideProgram_nodes ns
      cases hscope : c.isScope with
      | false =>
        rw [any_some, hscope] at hns
        exact ih hrest hns
      | true =>
        rw [any_some, hscope, if_pos rfl] at hns
        cases inner with
        | cons first inner => exact ih hrest (List.cons.inj hns).2
        | nil =>
          obtain ⟨rfl, houter⟩ := List.cons.inj hns
          rw [houter] at hinside
          have hnamed : c.isNamed = true := by cases c <;> first | rfl | cases hscope
          rw [forall_mem_cons, hprog, ← hinside, ← Bool.or_eq_false_iff]
          simp only [hnamed, Bool.true_and] at hsymbol
          rw [← hsymbol, isSome_eq_false_iff, isNone_iff_eq_none]

end Nodes

theorem Path.openings_nodes (p : Path) : p.openings = p.openNodes.reverse.filterMap Node.opening? := by
  unfold Path.openings Path.openNodes
  rw [← map_reverse, reverse_reverse, filterMap_map]
  rfl

theorem Path.filter_openNodes (p : Path) : (p.openNodes.reverse.filter fun n => n.kind.isScope) = p.scopeNodes.reverse := by
  rw [filter_reverse]
  rfl

/-- The builder when some events of a unit have been read. -/
def Session.read (s : Session) (file : FileId) (events : List Event) : Build :=
  (Build.start { s.context with file }).steps events

/-- After every prefix of well-nested events, the open scopes are the symbols of the open programs and procedures, the open
programs are those of the programs among them, and one frame is put aside for each. Such a node is without a symbol only
when it is a procedure outside of programs. -/
theorem Session.scopes_follow_open_nodes (options : Options) (actions : List Action) (file : FileId)
    {read rest : List Event} (hnested : WellNested (read ++ rest)) :
    let b := (reached options actions).read file read
    b.declarations.scopes.reverse = b.path.scopeNodes.filterMap Node.symbol? ∧
      b.declarations.currentScope = (b.path.scopeNodes.filterMap Node.symbol?).getLast? ∧
      b.declarations.openPrograms.reverse =
        (b.path.scopeNodes.filter fun n => n.kind.isProgram).filterMap Node.symbol? ∧
      b.frames.length = b.path.scopeNodes.length ∧
      ∀ outer n inner, b.path.scopeNodes = outer ++ n :: inner →
        (n.symbol? = none ↔ ∀ m ∈ outer ++ [n], m.kind.isProgram = false) := by
  have hsound := (regular_reached options actions).sound
  generalize reached options actions = s at hsound ⊢
  have hstart : (Build.start { s.context with file }).Tracks [] := Build.tracks_start hsound
  unfold WellNested at hnested
  rw [foldlM_append] at hnested
  obtain ⟨cs, hread, -⟩ := bind_eq_some_iff.mp hnested
  have hstep : (s.read file read).InStep := (Build.inStep_start { s.context with file }).events hstart hread
  intro b
  have hscopes : b.declarations.scopes = (b.path.scopeNodes.filterMap Node.symbol?).reverse := by
    rw [hstep.scopes, Path.openings_nodes, scopeSymbols_nodes, Path.filter_openNodes, filterMap_reverse]
  refine ⟨?_, ?_, ?_, ?_, fun outer n inner hsplit => ?_⟩
  · rw [hscopes, reverse_reverse]
  · unfold Declarations.currentScope
    rw [hscopes, head?_reverse]
  · rw [hstep.programs, Path.openings_nodes, programSymbols_nodes, Path.filter_openNodes, filter_reverse,
      filterMap_reverse, reverse_reverse]
  · rw [hstep.frames, Path.openings_nodes, countP_nodes, Path.filter_openNodes, length_reverse]
  · have hanchored := hstep.anchored
    rw [Path.openings_nodes] at hanchored
    have hnodes : (b.path.openNodes.reverse.filter fun n => n.kind.isScope) = inner.reverse ++ n :: outer.reverse := by
      rw [Path.filter_openNodes, hsplit]
      simp
    rw [hanchored.symbol_eq_none_iff hnodes]
    simp [or_comm]

/-- A program that declares a procedure with a program in it; the part that is read stops inside of all three. -/
def innerProgram : List Event × List Event :=
  ([.startProgram { name := "P", position := ⟨1, 8⟩ }, .startProcedure { name := "F", position := ⟨2, 8⟩ },
    .startProgram { name := "Q", position := ⟨3, 8⟩ }],
  [.endProgram none, .endProcedure, .endProgram none])

theorem scopes_follow_open_nodes_inner :
    WellNested (innerProgram.1 ++ innerProgram.2) ∧
      (((Session.reached {} []).read 0 innerProgram.1).path.scopeNodes.filterMap Node.symbol?) = [10, 11, 12] ∧
      ((Session.reached {} []).read 0 innerProgram.1).declarations.openPrograms = [12, 10] := by
  have hnested : WellNested (innerProgram.1 ++ innerProgram.2) := by decide
  have hfollow := Session.scopes_follow_open_nodes {} [] 0 hnested
  refine ⟨hnested, ?_, by decide +kernel⟩
  rw [← hfollow.1]
  decide +kernel

end CobolSymbols
