import CobolSymbols.Proofs.Build.Bound
import CobolSymbols.Proofs.Session.Regular

/-!
# Items stand where their marks tell in every session

The items that a session starts with carry no marks. Building a unit leaves everything in place, and so does removing a
program: it changes no stamp, and of the lists that symbols keep it changes only those of programs.
-/

set_option autoImplicit false

namespace CobolSymbols

open Symbol Declarations SymbolFlags

namespace Table

variable {t : Table} {program : SymbolId}

section Start

/-- There are six marks. -/
theorem unmarked_of_marks {flags : SymbolFlags} (h : ∀ f ∈ [SymbolFlag.global, .workingStorage, .linkage, .localStorage,
    .fileSection, .globalStorage], flags.has f = false) : flags.Unmarked := by
  intro f hf
  refine h f ?_
  cases f <;> first | exact absurd hf Bool.false_ne_true | decide

theorem unmarked_initial : ∀ id, (initial.get id).flags.Unmarked := by
  refine forall_initial (P := fun _ s => s.flags.Unmarked) (fun id hid => unmarked_of_marks ?_) fun _ _ =>
    avoids_empty
  revert id
  decide

theorem inPlace_initial : initial.InPlace where
  items v hv := by
    have hbuiltin : ∀ id < 10, (initial.get id).kind.isItem = true →
        (initial.get id).owner = some rootId ∧ (initial.get id).indexed? = none := by decide
    have hlt : v < 10 := size_initial ▸ hv.lt_size
    obtain ⟨howner, hplain⟩ := hbuiltin v hlt hv
    exact .inl ⟨howner, unmarked_initial v, hplain⟩
  others v _ := unmarked_initial v
  types v _ s := unmarked_initial v s.flag s.isMark_flag
  listed p kept v := by
    have hnone : ∀ id, (initial.get id).listing kept.slot = [] := by
      refine forall_initial (P := fun _ s => s.listing kept.slot = []) ?_ fun _ _ => rfl
      cases kept <;> decide
    rw [listed, hnone, unmarked_initial v kept.flag kept.isMark_flag]
    exact ⟨fun hv => absurd hv List.not_mem_nil, fun hv => absurd hv.1 Bool.false_ne_true⟩
  nested id owner hid _ := by
    have hnone : ∀ id, (initial.get id).kind ≠ .program := by
      refine forall_initial (P := fun _ s => s.kind ≠ .program) ?_ fun _ _ => by decide
      decide
    exact absurd hid (hnone id)
  bearers p name v := by
    have hnone : ∀ id, (initial.get id).program? = none := by
      refine forall_initial (P := fun _ s => s.program? = none) ?_ fun _ _ => rfl
      decide
    have hkind : (initial.get p).kind.isProgramLike = false := by
      rw [← isSome_program?, hnone]
      rfl
    rw [bearers, Symbol.domain, hnone]
    refine ⟨fun hv => absurd hv List.not_mem_nil, fun hv => ?_⟩
    exact absurd (hkind.symm.trans hv.1.program) Bool.false_ne_true

end Start

section Removal

theorem stamp_detached (s : Symbol) : s.detached.stamp = s.stamp := by
  unfold Symbol.detached
  rw [stamp_addFlags _ (avoids_single rfl)]
  refine stamp_of_itemView (itemView_mapItem s _ (fun _ => rfl) fun _ => rfl) (s.heading?_mapItem _) fun f _ => ?_
  rw [mapItem_flags]

theorem Regular.inPlace_removeProgram (h : t.Regular) {base : Nat} (hsound : t.Sound base)
    (hkind : (t.get program).kind = .program) (hplace : t.InPlace) : (t.removeProgram program).2.InPlace := by
  cases hremoved : (t.get program).isRemoved with
  | true =>
    rw [removeProgram_of_removed hremoved]
    exact hplace
  | false =>
    have hdetached := h.detached_removeProgram hsound hkind hremoved
    have hstamp := h.view_removeProgram Symbol.stamp hsound hkind stamp_mapScopes stamp_detached
    have hstock : ∀ id, ((t.removeProgram program).2.get id).stock = ((t.delist program).get id).stock := by
      intro id
      rw [hdetached.get]
      split
      · exact (stock_of_body rfl).trans (stock_mapItem _ _)
      · rfl
    refine hplace.same (hdetached.size_eq.trans (delist_rest t program).1) hstamp (fun p kept => ?_) fun p name => ?_
    · have hlisted : (t.removeProgram program).2.listed p kept.slot = (t.delist program).listed p kept.slot :=
        congrFun (congrArg Prod.snd (hstock p)) kept.slot
      rw [hlisted, listed, get_delist]
      split
      · have hslot : kept.slot ≠ .programs := by cases kept <;> decide
        unfold Symbol.listing
        rw [scope?_mapScopes]
        simp [hslot, listed, Symbol.listing]
      · rfl
    · have hdomain : (t.removeProgram program).2.bearers p name = (t.delist program).bearers p name :=
        congrArg (fun stock : Domain SymbolId × (ScopeSlot → List SymbolId) => stock.1.lookup name) (hstock p)
      rw [hdomain]
      exact congrArg (fun domain : Domain SymbolId => domain.lookup name)
        (view_delist Symbol.domain domain_mapScopes t program p)

end Removal

end Table

namespace Session

variable {s : Session}

/-- The declarations of a unit of which nothing has been read. -/
theorem Regular.bound_start (h : s.Regular) (hplace : s.table.InPlace) (file : FileId) :
    (Build.start { s.context with file }).Bound where
  ready := ⟨_, ready_closed (d := { context := { s.context with file } }) h.sound rfl rfl rfl rfl rfl rfl⟩
  place := hplace
  idle o ho hdef := by
    rw [List.mem_singleton.mp ho] at hdef
    cases hdef

/-- Reading a unit binds its items to the nodes of its tree. -/
theorem Regular.binds_compile (h : s.Regular) (hplace : s.table.InPlace) (file : FileId) (events : List Event) :
    Binds { context := { s.context with file } } { context := (s.compile file events).2.context } []
      (Forest.ofTree (s.compile file events).1.tree).bindings := by
  have hstart := h.bound_start hplace file
  have hreads := hstart.acts (Build.unit_acts { s.context with file } events)
  have htree : (Forest.ofTree (s.compile file events).1.tree).bindings =
      ((Build.start { s.context with file }).steps events).close.path.bindings :=
    congrArg (List.filterMap Node.binding?) (Path.toTree_nodes _)
  rw [htree]
  exact hreads.binds.of_table rfl

theorem Regular.inPlace_compile (h : s.Regular) (hplace : s.table.InPlace) (file : FileId) (events : List Event) :
    (s.compile file events).2.table.InPlace :=
  h.keeps_compile (fun hstep hready hd => hready.inPlace_step hd hstep) hplace file events

/-- Whatever is asked of a session, its items stand where their marks tell. -/
theorem inPlace_reached (options : Options) (actions : List Action) : (reached options actions).table.InPlace :=
  table_reached Table.inPlace_initial (fun _ file events h hplace => h.inPlace_compile hplace file events)
    (fun _ _ _ h hsound hkind hplace => h.inPlace_removeProgram hsound hkind hplace) options actions

end Session

end CobolSymbols
