import CobolSymbols.Proofs.Build.Orderly

/-!
# A unit spares what was there before

The symbols that were made before the outermost open program stay as they are while a unit is read. Only the root gets
new entries, among its programs.
-/

set_option autoImplicit false

namespace CobolSymbols

/-- A symbol without the programs that it lists as the root. -/
def Symbol.lasting (s : Symbol) : Symbol :=
  match s.body with
  | .root scopes => { s with body := .root { scopes with programs := {} } }
  | .namespaceBody scopes => { s with body := .namespaceBody { scopes with programs := {} } }
  | _ => s

theorem Symbol.mapProgram_of_root {s : Symbol} (h : s.kind = .root ∨ s.kind = .namespaceKind)
    (f : ProgramData → ProgramData) : s.mapProgram f = s := by
  unfold Symbol.kind at h
  unfold Symbol.mapProgram
  cases hbody : s.body with
  | program data => simp [hbody] at h
  | procedure data => simp [hbody] at h
  | _ => rfl

/-- The root is the same whatever programs it lists. -/
theorem Symbol.lasting_enterProgram {s : Symbol} (h : s.kind = .root ∨ s.kind = .namespaceKind)
    (f : Scope SymbolId → Scope SymbolId) :
    (s.mapScopes fun scopes => scopes.modify .programs f).lasting = s.lasting := by
  unfold Symbol.kind at h
  unfold Symbol.lasting Symbol.mapScopes
  cases hbody : s.body with
  | root scopes => rfl
  | namespaceBody scopes => rfl
  | item data =>
    rw [hbody] at h
    cases hkind : data.kind <;> simp [hkind] at h
  | _ => simp [hbody] at h

namespace Table

variable {t t' t'' : Table} {n : Nat}

/-- The symbols with numbers below `n` are the same, up to the programs that the root lists. -/
def Spares (n : Nat) (t t' : Table) : Prop := ∀ id, id < n → (t'.get id).lasting = (t.get id).lasting

theorem Spares.refl (n : Nat) (t : Table) : Spares n t t := fun _ _ => rfl

theorem Spares.trans (h : Spares n t t') (h' : Spares n t' t'') : Spares n t t'' :=
  fun id hid => (h' id hid).trans (h id hid)

theorem Spares.mono {m : Nat} (h : Spares n t t') (hle : m ≤ n) : Spares m t t' :=
  fun id hid => h id (hid.trans_le hle)

theorem Indexed.lt_of_finds (h : t.Indexed) {owner id : SymbolId} {slot : ScopeSlot}
    (hfinds : t.Finds (.slot owner slot) id) : owner < id := by
  obtain ⟨scope, name, hscope, hid⟩ := hfinds
  have hindexed := h.scopes owner slot scope hscope
  exact hindexed.after id (hindexed.mem_order hid)

end Table

namespace Declarations

open Table (Spares)

variable {base old : Nat} {parent : Option ScopeRef} {d d' : Declarations}

theorem Work.sound (hwork : Work base d d') (h : d.table.Sound base) : d'.table.Sound base := by
  cases hwork with
  | move old parent hmove => exact hmove.sound h
  | stack htable =>
    rw [htable]
    exact h

theorem Work.indexed (hwork : Work base d d') (h : d.table.Indexed) : d'.table.Indexed := by
  cases hwork with
  | move old parent hmove => exact hmove.indexed h
  | stack htable =>
    rw [htable]
    exact h

/-- A move among the symbols of the unit spares the others. -/
theorem Move.spares (hmove : Move base old parent d d') (hold : base ≤ old) (hsize : base ≤ d.table.size)
    (hparent : ∀ ref, parent = some ref → base ≤ ref.owner ∨ ref = .slot Table.rootId .programs)
    (hscopes : ∀ scope ∈ d.scopes, base ≤ scope) (hsound : d.table.Sound base) (hindexed : d.table.Indexed) :
    Spares base d.table d'.table := by
  have href : ∀ ref, parent = some ref ∨ old ≤ ref.owner → base ≤ ref.owner ∨ ref = .slot Table.rootId .programs :=
    fun ref h => h.elim (hparent ref) fun hle => .inl (hold.trans hle)
  intro id hid
  have hunit : ¬ base ≤ id := hid.not_ge
  have hnew : ¬ old ≤ id := fun hle => hunit (hold.trans hle)
  have hroot := (hsound.root Table.rootId).mpr rfl
  generalize hs : d'.table.get id = s
  cases hs ▸ hmove.edit (hid.trans_le hsize) with
  | same => rfl
  | type _ h => exact absurd (h.resolve_left hnew).1 hunit
  | refer _ h => exact absurd h hnew
  | item _ _ _ h => exact absurd (h.resolve_right hnew) hunit
  | flags _ _ h =>
    obtain ⟨scope, hscope, hfinds⟩ := h.resolve_left hunit
    exact absurd (hscope.trans (hindexed.lt_of_finds hfinds).le) hunit
  | domain _ _ h => exact absurd (hscopes id h) hunit
  | duplicate _ h =>
    -- the root is no program, so that it refuses none
    cases (href (.slot id .programs) h).resolve_left hunit
    exact congrArg Symbol.lasting (Symbol.mapProgram_of_root hroot _)
  | enter slot f h =>
    cases (href (.slot id slot) h).resolve_left hunit
    exact Symbol.lasting_enterProgram hroot f
  | field f h => cases (href (.fields id) h).resolve_left hunit

theorem Work.spares (hwork : Work base d d') (hsound : d.table.Sound base) (hindexed : d.table.Indexed) :
    Spares base d.table d'.table := by
  cases hwork with
  | move old parent hmove hold hsize hparent hscopes =>
    exact hmove.spares hold hsize hparent (fun scope hscope => (hscopes scope hscope).1) hsound hindexed
  | stack htable =>
    rw [htable]
    exact Spares.refl base _

theorem Works.spares (hworks : Works base d d') (hsound : d.table.Sound base) (hindexed : d.table.Indexed) :
    Spares base d.table d'.table ∧ d'.table.Sound base ∧ d'.table.Indexed := by
  induction hworks with
  | refl => exact ⟨Spares.refl base d.table, hsound, hindexed⟩
  | tail _ hwork ih =>
    obtain ⟨hspares, hsound', hindexed'⟩ := ih
    exact ⟨hspares.trans (hwork.spares hsound' hindexed'), hwork.sound hsound', hwork.indexed hindexed'⟩

/-- The end of the outermost program binds references of the unit only. -/
theorem Ready.proceeds_link (h : d.Ready base) : Linker.Proceeds base { context := d.context }
      (({ context := d.context } : Linker).linkUnit d.typedItems d.dependentTypes d.dependentTables) :=
  (Linker.inside_start h.sound.toFormed).linkUnit (fun item hitem => (h.typed item hitem).1) h.dependent
    fun item hitem => (h.tables item hitem).1

theorem Ready.context_link_outside (h : d.Ready base) (hnone : d.openPrograms = []) :
    d.leaveProgram.link.context = d.context := by
  obtain ⟨_, _, htyped, hdep, htables⟩ := h.closed hnone
  have htyped' : d.leaveProgram.typedItems = [] := htyped
  have hdependent' : d.leaveProgram.dependentTypes = [] := hdep
  have htables' : d.leaveProgram.dependentTables = [] := htables
  unfold link
  rw [htyped', hdependent', htables']
  rfl

theorem Ready.link_outside (h : d.Ready base) (hnone : d.openPrograms = []) : d.leaveProgram.link.table = d.table :=
  congrArg Context.table (h.context_link_outside hnone)

theorem Works.options (hworks : Works base d d') : d'.context.options = d.context.options := by
  induction hworks with
  | refl => rfl
  | tail _ hwork ih =>
    refine Eq.trans ?_ ih
    cases hwork with
    | move old parent hmove => exact hmove.options
    | stack _ hoptions => exact hoptions

variable (h : d.Orderly base)
include h

theorem Orderly.step_options (hstep : Step d d') : d'.context.options = d.context.options := by
  rcases hstep.turn h.toReady with hturn | ⟨_, heq⟩
  · exact hturn.works.options
  · subst heq
    exact (Linker.linkUnit_changes { context := d.leaveProgram.context } _ _ _).options

theorem Orderly.steps_options (hsteps : Steps d d') : d'.context.options = d.context.options := by
  have hkept := hsteps.keep
    (P := fun d' => (∃ base, d'.Orderly base) ∧ d'.context.options = d.context.options)
    (fun hstep ⟨⟨_, hd⟩, hoptions⟩ => ⟨(hd.step hstep).orderly, (hd.step_options hstep).trans hoptions⟩) ⟨⟨base, h⟩, rfl⟩
  exact hkept.2

/-- Every step spares the symbols that were made before the outermost program. -/
theorem Orderly.step_spares (hstep : Step d d') : Spares d.frontier d.table d'.table ∧ d.frontier ≤ d'.frontier := by
  rcases hstep.turn h.toReady with hturn | ⟨hlast, heq⟩
  · exact ⟨(hturn.works.spares h.toReady.sound_frontier h.regular.indexed).1, hturn.frontier_eq.symm.le⟩
  · subst heq
    have hfrontier : d.leaveProgram.link.frontier = d.table.size := by
      rw [frontier_of_closed (d := d.leaveProgram.link) hlast]
      exact d.leaveProgram.size_link
    rw [hfrontier]
    by_cases hopen : d.openPrograms = []
    · rw [h.toReady.link_outside hopen, frontier_of_closed hopen]
      exact ⟨Spares.refl _ _, le_rfl⟩
    · rw [h.toReady.frontier_eq hopen]
      refine ⟨fun id hid => congrArg Symbol.lasting (h.toReady.proceeds_link.spared id hid), ?_⟩
      obtain ⟨program, hprog⟩ := List.exists_mem_of_ne_nil _ hopen
      obtain ⟨hbase, hlt, _⟩ := h.programs program hprog
      exact hbase.trans hlt.le

/-- A whole unit spares the symbols that were there when it began. -/
theorem Orderly.steps_spares (hsteps : Steps d d') : Spares d.frontier d.table d'.table ∧ d.frontier ≤ d'.frontier := by
  have hkept := hsteps.keep
    (P := fun d' => (∃ base, d'.Orderly base) ∧ Spares d.frontier d.table d'.table ∧ d.frontier ≤ d'.frontier)
    (fun hstep ⟨⟨base', hd⟩, hspares, hle⟩ => by
      obtain ⟨hspares', hle'⟩ := hd.step_spares hstep
      exact ⟨(hd.step hstep).orderly, hspares.trans (hspares'.mono hle), hle.trans hle'⟩)
    ⟨⟨base, h⟩, Spares.refl _ _, le_rfl⟩
  exact hkept.2

end Declarations

end CobolSymbols
