import CobolSymbols.Proofs.Build.Nesting
import CobolSymbols.Proofs.FlagSet
import CobolSymbols.Proofs.SourceOrder
import Mathlib.Data.List.Nodup

/-!
# Programs that contain procedures

A procedure that starts marks a program as one that contains it. The search for the program begins above the node in which
the procedure stands. So a program is marked exactly when it is the nearest one around the node in which some procedure
stands, and a procedure that stands directly in a program does not mark that program.
-/

set_option autoImplicit false

namespace CobolSymbols

open Build List

/-- The number of a program that is marked as one with a procedure. -/
def Node.holding? (n : Node) : Option NodeId :=
  if n.kind.isProgram && n.flags.has .containsProcedure then some n.id else none

/-- The program that a procedure marks by its site: the nearest one around the node in which it stands. -/
def holder? (site : (NodeId × NodeKind) × List (NodeId × NodeKind)) : Option NodeId :=
  if isProcedure site.1.2 then (site.2.tail.find? fun above => above.2.isProgram).map Prod.fst else none

/-- The numbers of the nodes and what they were made from, each with those of the nodes above it, nearest first. -/
def Tree.sites (t : Tree) : List ((NodeId × NodeKind) × List (NodeId × NodeKind)) :=
  (Forest.ofTree t).sites Node.label []

theorem Node.holding?_eq_none {n : Node} (h : n.flags.has .containsProcedure = false) : n.holding? = none := by
  unfold holding?
  rw [h, Bool.and_false]
  rfl

theorem Node.holding?_containsProcedure {n : Node} (h : n.kind.isProgram = true) :
    (n.mark .containsProcedure).holding? = some n.id := by
  unfold holding? Node.mark
  rw [h, FlagSet.has_insert, show (FlagSet.single NodeFlag.containsProcedure).has .containsProcedure = true by decide,
    Bool.or_true]
  rfl

theorem Node.holding?_mark (n : Node) {flag : NodeFlag} (h : (FlagSet.single flag).has NodeFlag.containsProcedure = false) :
    (n.mark flag).holding? = n.holding? := by
  unfold holding? Node.mark
  rw [FlagSet.has_insert, h, Bool.or_false]

namespace Path

/-- Marking the nearest program above the current node marks that one and no other. -/
theorem holding_mapFirstAbove (p : Path) (id : NodeId) :
    some id ∈ (p.mapFirstAbove (·.kind.isProgram) (·.mark .containsProcedure)).nodes.map Node.holding? ↔
      some id ∈ p.nodes.map Node.holding? ∨
        ((p.line Node.label).tail.find? fun above => above.2.isProgram).map Prod.fst = some id := by
  have key : ∀ above : List OpenNode,
      (∃ o ∈ mapFirst (·.kind.isProgram) (·.mark .containsProcedure) above, some id ∈ o.nodes.map Node.holding?) ↔
        (∃ o ∈ above, some id ∈ o.nodes.map Node.holding?) ∨
          ((above.map (·.node.label)).find? fun above => above.2.isProgram).map Prod.fst = some id := by
    intro above
    induction above with
    | nil => simp [mapFirst]
    | cons o rest ih =>
      unfold mapFirst
      split
      · rename_i hprogram
        have hfound : ((o :: rest).map (·.node.label)).find? (fun above => above.2.isProgram) = some o.node.label :=
          find?_cons_of_pos hprogram
        have hmarked : some id ∈ (o.node.mark .containsProcedure :: o.children.nodes).map Node.holding? ↔
            id = o.node.id ∨ some id ∈ o.children.nodes.map Node.holding? := by
          rw [map_cons, mem_cons, Node.holding?_containsProcedure hprogram, Option.some_inj]
        have hhere : some id ∈ o.nodes.map Node.holding? ↔
            some id = o.node.holding? ∨ some id ∈ o.children.nodes.map Node.holding? := mem_cons
        have hid : some id = o.node.holding? → id = o.node.id := fun h =>
          (Option.some.inj (Option.ite_none_right_eq_some.mp h.symm).2).symm
        rw [hfound, exists_mem_cons_iff, exists_mem_cons_iff, OpenNode.nodes, hmarked, hhere, Option.map_some,
          Option.some_inj, show o.node.label.1 = id ↔ id = o.node.id from eq_comm]
        grind only
      · rename_i hprogram
        have hfound : ((o :: rest).map (·.node.label)).find? (fun above => above.2.isProgram) =
            (rest.map (·.node.label)).find? fun above => above.2.isProgram := find?_cons_of_neg hprogram
        rw [hfound, exists_mem_cons_iff, exists_mem_cons_iff, ih, or_assoc]
  have hnodes : ∀ (os : List OpenNode) (current : OpenNode), some id ∈ (nodes ⟨current, os⟩).map Node.holding? ↔
      (∃ o ∈ os, some id ∈ o.nodes.map Node.holding?) ∨ some id ∈ current.nodes.map Node.holding? := by
    intro os current
    simp only [nodes, map_append, mem_append, map_flatMap, mem_flatMap, mem_reverse]
  unfold mapFirstAbove
  rw [hnodes, key, hnodes p.above p.current, or_right_comm]
  rfl

end Path

namespace Build

variable {b b' : Build} {kinds : List NodeKind}

/-- The programs that are marked are those that the procedures mark by their sites, and new nodes are not marked. -/
structure Told (b : Build) : Prop where
  holders (id : NodeId) :
    some id ∈ b.path.nodes.map Node.holding? ↔ some id ∈ (b.path.sites Node.label).map holder?
  flags : ∀ flags ∈ b.scopeFlagSets, flags.has .containsProcedure = false

theorem Told.newNode (h : b.Told) (kind : NodeKind) : (b.newNode kind).holding? = none := by
  have hscope : b.scopeFlags.has .containsProcedure = false := h.flags _ mem_cons_self
  refine Node.holding?_eq_none ?_
  show b.flags.has .containsProcedure = false
  unfold Build.flags
  simp only [FlagSet.has_insertIf, FlagSet.has_union, FlagSet.has_ofList, hscope]
  cases b.typeNode.isSome <;> rcases b.storage with _ | ⟨⟨⟩⟩ <;> decide

/-- The flags that new nodes get in a program or procedure are none, or that of a procedure. -/
theorem Act.flags (h : Act b kinds b') :
    ∀ flags ∈ b'.scopeFlagSets, flags ∈ b.scopeFlagSets ∨ flags = ∅ ∨ flags = .single .insideProcedure := by
  have hbind : ∀ (b : Build) (meaning : Option Meaning), (b.bindCurrent meaning).scopeFlagSets = b.scopeFlagSets := by
    intro b meaning
    cases meaning <;> rfl
  cases h with
  | aside _ _ _ hflags => exact fun flags hmem => (hflags flags hmem).imp_right .inl
  | leaf | addParameter | enter | exit | markCurrent | plain => exact fun _ => .inl
  | enterProcedure => exact forall_mem_cons.mpr ⟨.inr (.inr rfl), fun _ => .inl⟩
  | exitDefinition =>
    unfold Build.exitDefinition
    split
    · exact fun _ => .inl
    · simp only
      split <;> exact fun _ => .inl
  | bindCurrent _ _ meaning =>
    rw [hbind]
    exact fun _ => .inl
  | declareProcedure =>
    unfold Build.declareProcedure
    rw [hbind]
    exact fun _ => .inl

/-- An act marks the programs that the sites of its nodes tell. -/
theorem Told.mark (h : b.Told) (hact : Act b kinds b') (id : NodeId) :
    some id ∈ b'.path.nodes.map Node.holding? ↔ some id ∈ b.path.nodes.map Node.holding? ∨
      some id ∈ kinds.map fun kind => holder? ((b.nodeCount, kind), b.path.line Node.label) := by
  have hshape : ∀ n : Node, n.shape.holding? = n.holding? := fun _ => rfl
  have hkept : kinds = [] → b'.path.sites Node.holding? = b.path.sites Node.holding? →
      (some id ∈ b'.path.nodes.map Node.holding? ↔ some id ∈ b.path.nodes.map Node.holding? ∨
        some id ∈ kinds.map fun kind => holder? ((b.nodeCount, kind), b.path.line Node.label)) := by
    rintro rfl hsites
    rw [← Path.sites_nodes, hsites, Path.sites_nodes]
    simp
  cases hact with
  | aside hpath => exact hkept rfl (by rw [hpath])
  | leaf _ hkind => simp [Build.leaf, h.newNode, holder?, hkind]
  | addParameter _ parameter =>
    have hnone : ((b.newNode (.parameter parameter.2 parameter.1)).mark .linkage).holding? = none := rfl
    simp [Build.addParameter, hnone, holder?, isProcedure]
  | enter _ hkind => simp [Build.enter, h.newNode, holder?, hkind]
  | enterProcedure _ header =>
    have hnone : ((b.markProgram.pushFrame (.single .insideProcedure)).newNode (.procedure header)).holding? = none := rfl
    have hnodes : ((b.markProgram.pushFrame (.single .insideProcedure)).enter (.procedure header)).path.nodes =
        b.markProgram.path.nodes ++ [_] := Path.enter_nodes _ _
    rw [hnodes, map_append, mem_append, map_singleton, hnone, or_iff_left (by simp), map_singleton, mem_singleton]
    exact (b.path.holding_mapFirstAbove id).trans (or_congr_right eq_comm)
  | exit => exact hkept rfl (Path.close?_sites _ _)
  | exitDefinition => exact hkept rfl (exitDefinition_sites hshape b)
  | markCurrent _ hflag =>
    refine hkept rfl (Path.mapCurrent_sites _ fun n => n.holding?_mark ?_)
    rcases hflag with rfl | rfl <;> decide
  | bindCurrent _ _ meaning => exact hkept rfl (bindCurrent_sites hshape b meaning)
  | plain => exact hkept rfl rfl
  | declareProcedure _ header => exact hkept rfl (declareProcedure_sites hshape _ header)

theorem Told.act (h : b.Told) (hact : Act b kinds b') : b'.Told := by
  refine ⟨fun id => ?_, fun flags hmem => ?_⟩
  · rw [h.mark hact, hact.sites, map_append, map_map, mem_append, h.holders]
    rfl
  · rcases hact.flags flags hmem with hold | rfl | rfl
    · exact h.flags flags hold
    · exact FlagSet.has_empty _
    · decide

theorem Told.acts (h : b.Told) (hacts : Acts b kinds b') : b'.Told := by
  induction hacts with
  | refl => exact h
  | tail _ hlast ih => exact ih.act hlast

theorem told_start (c : Context) : (start c).Told := by
  refine ⟨fun id => ?_, forall_mem_singleton.mpr (FlagSet.has_empty _)⟩
  simp [start, Path.start, Path.nodes, OpenNode.nodes, Forest.nodes, Path.sites, OpenNode.sites, Forest.sites, holder?,
    Node.holding?, isProcedure, Node.label, NodeKind.isProgram]

end Build

/-- A program is marked as one with a procedure exactly when it is the nearest program around the node in which some
procedure stands, for events in any order. -/
theorem Context.compile_programs_marked (c : Context) (file : FileId) (events : List Event) {n : Node}
    (hn : n ∈ (c.compile file events).1.tree.nodes) (hprogram : n.kind.isProgram = true) :
    n.flags.has .containsProcedure = true ↔
      ∃ id header above, ((id, .procedure header), above) ∈ (c.compile file events).1.tree.sites ∧
        (above.tail.find? fun m => m.2.isProgram).map Prod.fst = some n.id := by
  have htold := ((told_start { c with file }).acts (unit_acts { c with file } events)).holders n.id
  rw [← Path.toTree_nodes, ← Path.toTree_sites] at htold
  have hids : ((c.compile file events).1.tree.nodes.map Node.id).Nodup := by
    have hlabels := congrArg (map Prod.fst) (c.compile_tree_labels file events)
    rw [map_map, numbered_map_fst] at hlabels
    exact hlabels ▸ nodup_range'
  constructor
  · intro hmark
    have hhere : n.holding? = some n.id := by simp [Node.holding?, hprogram, hmark]
    obtain ⟨⟨⟨id, kind⟩, above⟩, hsite, hholder⟩ := mem_map.mp (htold.mp (hhere ▸ mem_map_of_mem hn))
    obtain ⟨hkind, hfound⟩ := Option.ite_none_right_eq_some.mp hholder
    cases kind with
    | procedure header => exact ⟨id, header, above, hsite, hfound⟩
    | _ => cases hkind
  · rintro ⟨id, header, above, hsite, hfound⟩
    obtain ⟨m, hm, hmark⟩ := mem_map.mp (htold.mpr (mem_map.mpr ⟨_, hsite, hfound⟩))
    obtain ⟨hboth, hid⟩ := Option.ite_none_right_eq_some.mp hmark
    obtain rfl := inj_on_of_nodup_map hids hm hn (Option.some.inj hid)
    exact (Bool.and_eq_true_iff.mp hboth).2

/-- A procedure in the procedure division of a program that lies in another one. -/
def procedureInDivision : List Event :=
  [.startProgram { name := "P", position := ⟨1, 8⟩ }, .startProgram { name := "Q", position := ⟨2, 8⟩ },
    .startProcedureDivision {}, .startProcedure { name := "F" }, .endProcedure, .endProcedureDivision, .endProgram none,
    .endProgram none]

theorem compile_inner_program_marked : ∃ n ∈ (Context.compile {} 0 procedureInDivision).1.tree.nodes,
    n.kind = .program { name := "Q", position := ⟨2, 8⟩ } ∧ n.flags.has .containsProcedure = true := by
  have hnode : ∃ n ∈ (Context.compile {} 0 procedureInDivision).1.tree.nodes,
      n.kind = .program { name := "Q", position := ⟨2, 8⟩ } ∧ n.id = 2 := by decide +kernel
  obtain ⟨n, hn, hkind, hid⟩ := hnode
  refine ⟨n, hn, hkind, (Context.compile_programs_marked {} 0 procedureInDivision hn (by rw [hkind]; rfl)).mpr ?_⟩
  rw [hid]
  exact ⟨4, { name := "F" }, [(3, .procedureDivision {}), (2, .program { name := "Q", position := ⟨2, 8⟩ }),
    (1, .program { name := "P", position := ⟨1, 8⟩ }), (0, .sourceFile)], by decide +kernel⟩

/-- A procedure directly in a program. -/
def procedureInProgram : List Event :=
  [.startProgram { name := "P", position := ⟨1, 8⟩ }, .startProcedure { name := "F", position := ⟨2, 8⟩ }, .endProcedure,
    .endProgram none]

/-- The nearest program around a procedure is not marked when the procedure stands directly in it. -/
theorem program_of_procedure_unmarked : WellNested procedureInProgram ∧
    ∃ n ∈ (Context.compile {} 0 procedureInProgram).1.tree.nodes,
      n.kind.isProgram = true ∧ n.flags.has .containsProcedure = false ∧
        ∃ site ∈ (Context.compile {} 0 procedureInProgram).1.tree.sites, isProcedure site.1.2 = true ∧
          (site.2.find? fun m => m.2.isProgram).map Prod.fst = some n.id := by
  decide +kernel

end CobolSymbols
