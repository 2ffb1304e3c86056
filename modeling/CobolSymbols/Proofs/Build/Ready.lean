import CobolSymbols.Proofs.Build.Steps
import CobolSymbols.Proofs.Link.Unit

/-!
# What holds while a unit is read

The symbols from the outermost open program on are under construction: the open programs and procedures are among them,
each made after the ones around it, and so are the symbols that are queued for linking. When no program is open, nothing
is. Every step keeps this, so the table is sound whenever a unit is complete, whatever has been read.
-/

set_option autoImplicit false

namespace CobolSymbols.Declarations

open List Table

variable {base old : Nat} {parent : Option ScopeRef} {d d' : Declarations} {id scope : SymbolId}
  (header : ProgramHeader)

/-- What is queued belongs to the unit. -/
structure Queues (d : Declarations) (base : Nat) : Prop where
  sound : d.table.Sound base
  heading : ∀ id, d.heading = some id → base ≤ id ∧ id < d.table.size
  typed : ∀ item ∈ d.typedItems, base ≤ item ∧ item < d.table.size ∧ d.table.Home item none
  dependent : ∀ type ∈ d.dependentTypes, base ≤ type ∧ d.table.IsType type
  tables : ∀ item ∈ d.dependentTables, base ≤ item ∧ item < d.table.size ∧ d.table.Home item none

/-- A change of the table that queues nothing keeps what is queued in order. -/
theorem Queues.extends (h : d.Queues base) (hsound : d'.table.Sound base) (hext : d.table.Extends d'.table)
    (hheading : d'.heading = d.heading) (htyped : d'.typedItems = d.typedItems)
    (hdep : d'.dependentTypes = d.dependentTypes) (htables : d'.dependentTables = d.dependentTables) :
    d'.Queues base where
  sound := hsound
  heading id hid := by
    rw [hheading] at hid
    obtain ⟨hbase, hlt⟩ := h.heading id hid
    exact ⟨hbase, hlt.trans_le hext.size_le⟩
  typed item hitem := by
    rw [htyped] at hitem
    obtain ⟨hbase, hlt, hhome⟩ := h.typed item hitem
    exact ⟨hbase, hlt.trans_le hext.size_le, hext.home h.sound.ordered hlt hhome⟩
  dependent type htype := by
    rw [hdep] at htype
    obtain ⟨hbase, hkind⟩ := h.dependent type htype
    exact ⟨hbase, (hext.isType_iff (IsType.lt_size hkind)).mpr hkind⟩
  tables item hitem := by
    rw [htables] at hitem
    obtain ⟨hbase, hlt, hhome⟩ := h.tables item hitem
    exact ⟨hbase, hlt.trans_le hext.size_le, hext.home h.sound.ordered hlt hhome⟩

theorem Move.queues (hmove : Move base old parent d d') (h : d.Queues base) : d'.Queues base := by
  have hsound := hmove.sound h.sound
  have hext := hmove.extends
  cases hmove with
  | heading id hbase hlt =>
    refine ⟨hsound, ?_, h.typed, h.dependent, h.tables⟩
    intro open_ hopen
    cases hopen
    exact ⟨hbase, hlt⟩
  | refer id name position typeBody hold hlt hbase hkind hnone hhome =>
    cases typeBody with
    | some type => exact h.extends hsound hext rfl rfl rfl rfl
    | none =>
      have hkept : (d.setType id (.named ⟨name, position, none⟩)).Queues base :=
        h.extends hsound hext rfl rfl rfl rfl
      refine ⟨hsound, hkept.heading, ?_, hkept.dependent, hkept.tables⟩
      intro item hitem
      rcases mem_append.mp hitem with hitem | hitem
      · exact hkept.typed item hitem
      · cases mem_singleton.mp hitem
        exact ⟨hbase, hlt.trans_le hext.size_le, hext.home h.sound.ordered hlt hhome⟩
  | depend id element min max object typeBody hold hlt hbase hkind hsome hobject hhome hbody =>
    have hextends' : d.table.Extends (d.setType id (.array element min max (some object))).table := extends_modify d id rfl
    have hkept : (d.setType id (.array element min max (some object))).Queues base := by
      refine h.extends ?_ hextends' rfl rfl rfl rfl
      rw [queueDependent_table] at hsound
      exact hsound
    unfold queueDependent
    cases typeBody with
    | none =>
      refine ⟨hkept.sound, hkept.heading, hkept.typed, hkept.dependent, ?_⟩
      intro item hitem
      rcases mem_append.mp hitem with hitem | hitem
      · exact hkept.tables item hitem
      · cases mem_singleton.mp hitem
        exact ⟨hbase, hlt.trans_le hextends'.size_le, hextends'.home h.sound.ordered hlt hhome⟩
    | some type =>
      simp only
      split
      · exact hkept
      · refine ⟨hkept.sound, hkept.heading, hkept.typed, ?_, hkept.tables⟩
        intro other hother
        rcases mem_append.mp hother with hother | hother
        · exact hkept.dependent other hother
        · cases mem_singleton.mp hother
          exact ⟨hbody type rfl, (hextends'.home h.sound.ordered hlt hhome).1⟩
  | addToDomain id =>
    have hqueues : (d.addToDomain id).heading = d.heading ∧ (d.addToDomain id).typedItems = d.typedItems ∧
        (d.addToDomain id).dependentTypes = d.dependentTypes ∧
        (d.addToDomain id).dependentTables = d.dependentTables := by
      unfold Declarations.addToDomain
      split <;> exact ⟨rfl, rfl, rfl, rfl⟩
    exact h.extends hsound hext hqueues.1 hqueues.2.1 hqueues.2.2.1 hqueues.2.2.2
  | _ => exact h.extends hsound hext rfl rfl rfl rfl

theorem Move.typedItems_subset (h : Move base old parent d d') : d.typedItems ⊆ d'.typedItems := by
  rcases h.shape with ⟨_, _, _, _, rfl, _, _, hsub⟩ | ⟨_, _, rfl, _⟩ | ⟨_, rfl, _⟩ | ⟨_, rfl, _⟩
  · exact hsub
  all_goals exact List.Subset.refl _

/-- What waits for linking: what is queued, and no item that refers to a type is missing. -/
structure Pending (d : Declarations) (base : Nat) : Prop extends Queues d base where
  awaited : ∀ item, base ≤ item → (d.table.get item).reference?.isSome = true → d.table.Home item none →
    item ∈ d.typedItems

theorem Move.pending (hmove : Move base old parent d d') (h : d.Pending base) : d'.Pending base where
  toQueues := hmove.queues h.toQueues
  awaited item hbase hsome hhome := by
    obtain ⟨hlt, hcase⟩ := hmove.referring hsome
    have hbefore : d.table.Home item none := by
      intro type hkind hwithin
      have hinside : d.table.Home item (some type) := ⟨hkind, hwithin⟩
      obtain ⟨hkind', hwithin'⟩ := hmove.extends.home h.sound.ordered hlt hinside
      exact hhome type hkind' hwithin'
    rcases hcase with hsome | hqueued
    · exact hmove.typedItems_subset (h.awaited item hbase hsome hbefore)
    · exact hqueued hbefore

theorem Moves.pending (hmoves : Moves base old parent d d') (h : d.Pending base) : d'.Pending base := by
  induction hmoves with
  | refl => exact h
  | tail _ hmove ih => exact hmove.pending ih

/-- What is open belongs to the unit. -/
structure Opened (d : Declarations) (base : Nat) : Prop where
  programs : ∀ program ∈ d.openPrograms,
    base ≤ program ∧ program < d.table.size ∧ (d.table.get program).kind = .program
  scopes : ∀ scope ∈ d.scopes,
    base ≤ scope ∧ scope < d.table.size ∧ (d.table.get scope).kind.isProgramLike = true
  /-- Open programs and procedures are made after the ones around them. -/
  decreasing : d.scopes.Pairwise (· > ·)

theorem Opened.scope_range (h : d.Opened base) : ∀ scope ∈ d.scopes, base ≤ scope ∧ scope < d.table.size :=
  fun scope hscope => ⟨(h.scopes scope hscope).1, (h.scopes scope hscope).2.1⟩

theorem Opened.extends (h : d.Opened base) (hext : d.table.Extends d'.table)
    (hprogs : d'.openPrograms ⊆ d.openPrograms) (hscopes : d'.scopes.Sublist d.scopes) : d'.Opened base where
  programs program hprog := by
    obtain ⟨hbase, hlt, hkind⟩ := h.programs program (hprogs hprog)
    exact ⟨hbase, hlt.trans_le hext.size_le, by rw [hext.kind hlt, hkind]⟩
  scopes scope hscope := by
    obtain ⟨hbase, hlt, hkind⟩ := h.scopes scope (hscopes.subset hscope)
    exact ⟨hbase, hlt.trans_le hext.size_le, by rw [hext.kind hlt, hkind]⟩
  decreasing := h.decreasing.sublist hscopes

theorem Opened.moves (h : d.Opened base) (hmoves : Moves base old parent d d') : d'.Opened base := by
  obtain ⟨hscopes, hprogs⟩ := hmoves.stack
  refine h.extends hmoves.extends ?_ ?_
  · rw [hprogs]
    exact List.Subset.refl _
  · rw [hscopes]

/-- What holds between two steps. -/
structure Ready (d : Declarations) (base : Nat) : Prop extends Pending d base, Opened d base where
  /-- The outermost open program is the first symbol under construction. -/
  outermost : ∀ program, d.openPrograms.getLast? = some program → program = base
  /-- Outside of programs nothing is open or queued. -/
  closed : d.openPrograms = [] → d.scopes = [] ∧ d.heading = none ∧ d.typedItems = [] ∧ d.dependentTypes = [] ∧
    d.dependentTables = []

theorem Ready.open_of_scope (h : d.Ready base) (hscope : d.currentScope = some scope) : d.openPrograms ≠ [] := by
  intro hnone
  unfold currentScope at hscope
  rw [(h.closed hnone).1] at hscope
  cases hscope

/-- The innermost open program or procedure is a place for symbols. -/
theorem Ready.scoped (h : d.Ready base) (hscope : d.currentScope = some scope) : d.Scoped base scope := by
  obtain ⟨hbase, hlt, hkind⟩ := h.scopes scope (mem_of_mem_head? hscope)
  exact ⟨h.sound.ordered, hscope, hlt, hbase, hkind,
    h.sound.scope_outside (SymbolKind.isScope_of_isProgramLike hkind)⟩

/-- Moves inside a program keep everything in order. -/
theorem Ready.moves (h : d.Ready base) (hopen : d.openPrograms ≠ []) (hmoves : Moves base old parent d d') :
    d'.Ready base := by
  have hprogs := hmoves.stack.2
  refine { hmoves.pending h.toPending, h.toOpened.moves hmoves with outermost := ?_, closed := ?_ }
  · rw [hprogs]
    exact h.outermost
  · intro hnone
    rw [hprogs] at hnone
    exact absurd hnone hopen

/-- Declarations with nothing open and nothing queued are ready for a program. -/
theorem ready_closed (hsound : d.table.Sound base) (hprogs : d.openPrograms = []) (hscopes : d.scopes = [])
    (hheading : d.heading = none) (htyped : d.typedItems = []) (hdep : d.dependentTypes = [])
    (htables : d.dependentTables = []) : d.Ready d.table.size := by
  constructor
  case toPending =>
    refine ⟨⟨hsound.restart, ?_, ?_, ?_, ?_⟩, fun item hbase hsome => ?_⟩
    · simp [hheading]
    · simp [htyped]
    · simp [hdep]
    · simp [htables]
    · exact absurd (lt_size_of_reference? hsome) hbase.not_gt
  case toOpened =>
    refine ⟨?_, ?_, ?_⟩
    · simp [hprogs]
    · simp [hscopes]
    · simp [hscopes]
  case outermost => simp [hprogs]
  case closed => exact fun _ => ⟨hscopes, hheading, htyped, hdep, htables⟩

/-- A program or procedure that has just been made. -/
structure Made (d d' : Declarations) (id : SymbolId) (kind : SymbolKind) : Prop where
  id_eq : id = d.table.size
  lt : id < d'.table.size
  kind : (d'.table.get id).kind = kind

theorem Made.alloc (d : Declarations) (s : Symbol) : Made d (d.alloc s).2 d.table.size s.kind where
  id_eq := rfl
  lt := d.lt_size_alloc s
  kind := congrArg Symbol.kind (get_alloc_self d.table s)

theorem Made.extends {kind : SymbolKind} {d'' : Declarations} (h : Made d d' id kind)
    (hext : d'.table.Extends d''.table) : Made d d'' id kind where
  id_eq := h.id_eq
  lt := h.lt.trans_le hext.size_le
  kind := by rw [hext.kind h.lt, h.kind]

theorem made_enter (d : Declarations) (s : Symbol) (ref : ScopeRef) :
    Made d (((d.alloc s).2.enterIn d.table.size (some ref)).registerProgram d.table.size) d.table.size s.kind := by
  have hentered : (d.alloc s).2.table.Extends ((d.alloc s).2.enterIn d.table.size (some ref)).table :=
    Extends.enter (d.alloc s).2.table ref d.table.size
  exact ((Made.alloc d s).extends hentered).extends (Extends.of_get rfl fun _ => rfl)

theorem made_declareNested (program : SymbolId) (header : ProgramHeader) :
    Made d (d.declareNested program header).2.2 (d.declareNested program header).1 .program := by
  unfold declareNested
  simp only
  split
  · exact (Made.alloc d _).extends (extends_modify _ program (Symbol.identity_mapProgram _ _))
  · exact made_enter d (programSymbol header program .nestedProgram) _

theorem made_declareTopLevel : Made d (d.declareTopLevel header).2.2 (d.declareTopLevel header).1 .program := by
  unfold declareTopLevel
  simp only
  generalize (if d.programs.isEmpty then SymbolFlag.mainProgram else SymbolFlag.stackedProgram) = place
  split
  · exact (Made.alloc d (programSymbol header rootId place)).extends (Extends.refl _)
  · have hlisted := made_enter { d with programs := d.programs ++ [d.table.size] } (programSymbol header rootId place)
        (.slot rootId .programs)
    exact ⟨rfl, hlisted.lt, hlisted.kind⟩

/-- Opening a program that has just been made. -/
theorem ready_openProgram (hpending : d'.Pending base) (hopened : d'.Opened base)
    (hmade : Made d d' id .program) (hbase : base ≤ id) (hold : ∀ scope ∈ d'.scopes, scope < d.table.size)
    (houtermost : ∀ program, (id :: d'.openPrograms).getLast? = some program → program = base) :
    (d'.openProgram id).Ready base where
  sound := hpending.sound
  heading := nofun
  typed := hpending.typed
  dependent := hpending.dependent
  tables := hpending.tables
  awaited := hpending.awaited
  programs program hprog := by
    rcases mem_cons.mp hprog with heq | hprog
    · subst heq
      exact ⟨hbase, hmade.lt, hmade.kind⟩
    · exact hopened.programs program hprog
  scopes scope hscope := by
    rcases mem_cons.mp hscope with heq | hscope
    · subst heq
      exact ⟨hbase, hmade.lt, congrArg SymbolKind.isProgramLike hmade.kind⟩
    · exact hopened.scopes scope hscope
  decreasing := by
    refine pairwise_cons.mpr ⟨fun scope hscope => ?_, hopened.decreasing⟩
    rw [hmade.id_eq]
    exact hold scope hscope
  outermost := houtermost
  closed := nofun

theorem ready_report_openProgram {taken : Bool} (hpending : d'.Pending base) (hopened : d'.Opened base)
    (hmade : Made d d' id .program) (hbase : base ≤ id) (hold : ∀ scope ∈ d'.scopes, scope < d.table.size)
    (houtermost : ∀ program, (id :: d'.openPrograms).getLast? = some program → program = base) :
    ((if taken then d'.report (.duplicateProgram header.name) header.position else d').openProgram id).Ready base := by
  cases taken with
  | false => exact ready_openProgram hpending hopened hmade hbase hold houtermost
  | true =>
    have hpending' : (d'.report (.duplicateProgram header.name) header.position).Pending base :=
      ⟨hpending.toQueues.extends hpending.sound (Extends.refl _) rfl rfl rfl rfl, hpending.awaited⟩
    have hopened' : (d'.report (.duplicateProgram header.name) header.position).Opened base :=
      hopened.extends (Extends.refl _) (List.Subset.refl _) (Sublist.refl _)
    exact ready_openProgram hpending' hopened' (hmade.extends (Extends.refl _)) hbase hold houtermost

/-- A program that starts is the innermost one; when none is open it is the outermost one as well. -/
theorem Ready.startProgram (h : d.Ready base) (header : ProgramHeader) :
    ∃ base', (d.startProgram header).2.Ready base' := by
  unfold Declarations.startProgram
  cases hprogs : d.openPrograms with
  | cons program rest =>
    obtain ⟨hbase, hlt, hkind⟩ := h.programs program (by simp [hprogs])
    have hmoves := declareNested_moves hlt hbase hkind header
    have hmade : Made d (d.declareNested program header).2.2 (d.declareNested program header).1 .program :=
      made_declareNested program header
    have hold : ∀ scope ∈ (d.declareNested program header).2.2.scopes, scope < d.table.size := by
      rw [hmoves.stack.1]
      exact fun scope hscope => (h.scopes scope hscope).2.1
    have houtermost : ∀ outer, ((d.declareNested program header).1 ::
        (d.declareNested program header).2.2.openPrograms).getLast? = some outer → outer = base := by
      rw [hmoves.stack.2, hprogs, getLast?_cons_cons, ← hprogs]
      exact h.outermost
    have hid : base ≤ (d.declareNested program header).1 := by
      rw [hmade.id_eq]
      exact hbase.trans hlt.le
    exact ⟨base, ready_report_openProgram header (hmoves.pending h.toPending) (h.toOpened.moves hmoves) hmade hid hold
      houtermost⟩
  | nil =>
    obtain ⟨hscopes, hheading, htyped, hdep, htables⟩ := h.closed hprogs
    have hfresh := ready_closed h.sound hprogs hscopes hheading htyped hdep htables
    have hroot := h.sound.root_isScope
    have hmoves := declareTopLevel_moves hroot h.sound.root_lt header
    have hmade : Made d (d.declareTopLevel header).2.2 (d.declareTopLevel header).1 .program :=
      made_declareTopLevel header
    have hold : ∀ scope ∈ (d.declareTopLevel header).2.2.scopes, scope < d.table.size := by
      simp [hmoves.stack.1, hscopes]
    have houtermost : ∀ outer, ((d.declareTopLevel header).1 ::
        (d.declareTopLevel header).2.2.openPrograms).getLast? = some outer → outer = d.table.size := by
      rw [hmoves.stack.2, hprogs]
      intro outer houter
      cases houter
      exact hmade.id_eq
    exact ⟨d.table.size, ready_report_openProgram header (hmoves.pending hfresh.toPending)
      (hfresh.toOpened.moves hmoves) hmade hmade.id_eq.symm.le hold houtermost⟩

/-- Reporting and opening a program leave the table as it is. -/
theorem startProgram_nested {program : SymbolId} (hprog : d.openPrograms.head? = some program)
    (header : ProgramHeader) :
    (d.startProgram header).2.table = (d.declareNested program header).2.2.table ∧
      (d.startProgram header).2.openPrograms =
        (d.declareNested program header).1 :: (d.declareNested program header).2.2.openPrograms ∧
      (d.startProgram header).2.programs = (d.declareNested program header).2.2.programs := by
  unfold Declarations.startProgram
  simp only [hprog]
  split <;> exact ⟨rfl, rfl, rfl⟩

theorem startProgram_topLevel (hprog : d.openPrograms.head? = none) (header : ProgramHeader) :
    (d.startProgram header).2.table = (d.declareTopLevel header).2.2.table ∧
      (d.startProgram header).2.openPrograms =
        (d.declareTopLevel header).1 :: (d.declareTopLevel header).2.2.openPrograms ∧
      (d.startProgram header).2.programs = d.programs ++ [d.table.size] := by
  have hlisted : (d.declareTopLevel header).2.2.programs = d.programs ++ [d.table.size] := by
    unfold declareTopLevel
    simp only
    split <;> rfl
  rw [← hlisted]
  unfold Declarations.startProgram
  simp only [hprog]
  split <;> exact ⟨rfl, rfl, rfl⟩

section

variable (h : d.Ready base)
include h

/-- A program that starts is made by moves and opened. A report of its name changes nothing that is told here. -/
theorem Ready.startProgram_cases (header : ProgramHeader) :
    ∃ base' program made, Moves base' d.table.size (some (.slot program .programs)) d made ∧
      Made d made (d.startProgram header).1 .program ∧ (d.startProgram header).2.table = made.table ∧
      (d.startProgram header).2.openPrograms = (d.startProgram header).1 :: made.openPrograms ∧
      (d.startProgram header).2.scopes = (d.startProgram header).1 :: made.scopes := by
  cases hprogs : d.openPrograms.head? with
  | some program =>
    obtain ⟨hbase, hlt, hkind⟩ := h.programs program (mem_of_mem_head? hprogs)
    refine ⟨base, program, (d.declareNested program header).2.2, declareNested_moves hlt hbase hkind header, ?_⟩
    unfold Declarations.startProgram
    simp only [hprogs]
    refine ⟨made_declareNested (d := d) program header, ?_⟩
    split <;> exact ⟨rfl, rfl, rfl⟩
  | none =>
    have hroot := h.sound.root_isScope
    refine ⟨d.table.size, rootId, (d.declareTopLevel header).2.2,
      declareTopLevel_moves hroot h.sound.root_lt header, ?_⟩
    unfold Declarations.startProgram
    simp only [hprogs]
    refine ⟨made_declareTopLevel (d := d) header, ?_⟩
    split <;> exact ⟨rfl, rfl, rfl⟩

/-- When the outermost program is left, nothing stays open. -/
theorem Ready.scopes_leaveProgram (hlast : d.leaveProgram.openPrograms = []) : d.leaveProgram.scopes = [] := by
  have hscopes : d.leaveProgram.scopes =
      (d.scopes.dropWhile fun scope => some scope != d.openPrograms.head?).tail := rfl
  rw [hscopes]
  cases hrest : d.scopes.dropWhile fun scope => some scope != d.openPrograms.head? with
  | nil => rfl
  | cons scope outer =>
    have hprog : some scope = d.openPrograms.head? := by
      have hfound := head?_dropWhile_not (fun scope => some scope != d.openPrograms.head?) d.scopes
      rw [hrest] at hfound
      simpa using hfound
    have hbase : scope = base := by
      have hlast' : d.openPrograms.tail = [] := hlast
      refine h.outermost scope ?_
      cases hopen : d.openPrograms with
      | nil => simp [hopen] at hprog
      | cons program rest =>
        rw [hopen] at hlast' hprog
        subst hlast'
        exact hprog.symm
    -- the scopes around the outermost program would be older than it
    have hsuffix : (scope :: outer).Sublist d.scopes := by
      rw [← hrest]
      exact (dropWhile_suffix _).sublist
    have hdecreasing := pairwise_cons.mp (h.decreasing.sublist hsuffix)
    cases houter : outer with
    | nil => rfl
    | cons around rest =>
      have hlt : around < scope := hdecreasing.1 around (by simp [houter])
      have hle : base ≤ around := (h.scopes around (hsuffix.subset (by simp [houter]))).1
      lia

theorem Ready.leaveProgram (hopen : d.leaveProgram.openPrograms ≠ []) : d.leaveProgram.Ready base := by
  have hpending : d.leaveProgram.Pending base :=
    ⟨⟨h.sound, nofun, h.typed, h.dependent, h.tables⟩, h.awaited⟩
  have hopened : d.leaveProgram.Opened base := by
    refine h.toOpened.extends (Extends.refl _) (tail_sublist _).subset ?_
    exact (tail_sublist _).trans (dropWhile_suffix _).sublist
  refine { hpending, hopened with outermost := ?_, closed := fun hnone => absurd hnone hopen }
  intro program hprog
  refine h.outermost program ?_
  have htail : d.leaveProgram.openPrograms = d.openPrograms.tail := rfl
  rw [htail] at hprog hopen
  cases hlist : d.openPrograms with
  | nil => simp [hlist] at hopen
  | cons first rest =>
    rw [hlist] at hprog hopen
    simp only [tail_cons] at hprog hopen
    cases rest with
    | nil => exact absurd rfl hopen
    | cons second rest => rw [getLast?_cons_cons, hprog]

theorem Ready.endProgram : ∃ base', d.endProgram.Ready base' := by
  unfold Declarations.endProgram
  simp only
  split
  · rename_i hempty
    have hlast : d.leaveProgram.openPrograms = [] := List.isEmpty_iff.mp hempty
    obtain ⟨hsound, _⟩ := link_sound (d := d.leaveProgram) h.sound
      (fun item hitem => ⟨(h.typed item hitem).1, (h.typed item hitem).2.2⟩) h.dependent
    exact ⟨_, ready_closed hsound hlast (h.scopes_leaveProgram hlast) rfl rfl rfl rfl⟩
  · rename_i hopen
    exact ⟨base, h.leaveProgram fun hnone => hopen (List.isEmpty_iff.mpr hnone)⟩

/-- Leaving a procedure leaves the scopes around it open. -/
theorem Ready.endProcedure : d.endProcedure.Ready base := by
  have hpending : d.endProcedure.Pending base :=
    ⟨⟨h.sound, nofun, h.typed, h.dependent, h.tables⟩, h.awaited⟩
  have hopened : d.endProcedure.Opened base :=
    h.toOpened.extends (Extends.refl _) (List.Subset.refl _) (tail_sublist _)
  refine { hpending, hopened with outermost := h.outermost, closed := ?_ }
  intro hnone
  obtain ⟨hscopes, _, htyped, hdep⟩ := h.closed hnone
  refine ⟨?_, rfl, htyped, hdep⟩
  simp [Declarations.endProcedure, hscopes]

end

/-- Opening a procedure that has just been made. -/
theorem Ready.openScope (h : d'.Ready base) (hopen : d'.openPrograms ≠ [])
    (hmade : Made d d' id .procedure) (hbase : base ≤ id) (hold : ∀ scope ∈ d'.scopes, scope < d.table.size) :
    ({ d' with scopes := id :: d'.scopes } : Declarations).Ready base := by
  refine { h with scopes := ?_, decreasing := ?_, closed := fun hnone => absurd hnone hopen }
  · intro scope hscope
    rcases mem_cons.mp hscope with heq | hscope
    · subst heq
      exact ⟨hbase, hmade.lt, congrArg SymbolKind.isProgramLike hmade.kind⟩
    · exact h.scopes scope hscope
  · refine pairwise_cons.mpr ⟨fun scope hscope => ?_, h.decreasing⟩
    rw [hmade.id_eq]
    exact hold scope hscope

theorem Ready.openProcedure (h : d.Ready base) (hscope : d.currentScope = some scope)
    (header : DeclaredProcedure) : (d.openProcedure header scope).2.Ready base := by
  have hscoped := h.scoped hscope
  have hmoves := procedure_moves hscoped header
  refine (h.moves (h.open_of_scope hscope) hmoves).openScope (h.open_of_scope hscope)
    (made_enter d (procedureSymbol header scope) (.slot scope .procedures)) ?_ ?_
  · exact hscoped.base_le.trans hscoped.lt.le
  · exact fun scope hscope => (h.scopes scope hscope).2.1

theorem startProcedure_of_none (h : d.currentScope = none) (header : DeclaredProcedure) (parameters : Forest) :
    d.startProcedure header parameters = (none, parameters, d) := by
  unfold Declarations.startProcedure
  simp only [h]

/-- A procedure that starts is the scope in which its parameters are made. -/
theorem Ready.scoped_linkage (h : d.Ready base) (hscope : d.currentScope = some scope) (header : DeclaredProcedure) :
    Scoped { (d.openProcedure header scope).2 with storage := some .linkage } base d.table.size := by
  have hscoped := (h.openProcedure hscope header).scoped rfl
  exact ⟨hscoped.ordered, hscoped.current, hscoped.lt, hscoped.base_le, hscoped.kind, hscoped.outside⟩

/-- The parameters of a procedure are made in its own linkage section. -/
theorem Ready.startProcedure_moves (h : d.Ready base) (hscope : d.currentScope = some scope)
    (header : DeclaredProcedure) (parameters : Forest) :
    Moves base (d.openProcedure header scope).2.table.size (some (.slot d.table.size .linkage))
      (d.openProcedure header scope).2 (d.startProcedure header parameters).2.2 := by
  have hscoped := h.scoped_linkage hscope header
  have hparams := declareParameters_moves parameters {} _ hscoped le_rfl
  unfold Declarations.startProcedure
  simp only [hscope]
  refine ((Move.note _ (some .linkage) _ fun _ hentry => .inl hentry).moves.trans (hparams.trans ?_)).trans
    (Move.note _ d.storage _ fun _ hentry => .inl hentry).moves
  exact (Move.setSignature _ d.table.size _ hscoped.base_le (hscoped.moves hparams).kind).moves

/-- What a step does: a program or a procedure starts or ends, something is made in the current scope, or nothing is. -/
inductive Course (base : Nat) (d : Declarations) : Declarations → Prop
  | startProgram (header : ProgramHeader) : Course base d (d.startProgram header).2
  | endProgram : Course base d d.endProgram
  | startProcedure (header : DeclaredProcedure) (parameters : Forest) {scope : SymbolId}
      (hscope : d.currentScope = some scope) : Course base d (d.startProcedure header parameters).2.2
  | endProcedure : Course base d d.endProcedure
  | inside {d' : Declarations} {parent : Option ScopeRef} {scope : SymbolId} (hscope : d.currentScope = some scope)
      (hmoves : Moves base d.table.size parent d d')
      (hparent : ∀ ref, parent = some ref → ∃ slot, ref = .slot scope slot) : Course base d d'
  | aside (storage : Option StorageSection) {pending : List (SymbolId × RenamesEntry)} {heading : Option SymbolId}
      (hpending : pending ⊆ d.pendingRenames) (hheading : heading = none ∨ heading = d.heading) :
      Course base d { d with storage, pendingRenames := pending, heading }

theorem Ready.course (h : d.Ready base) (hstep : Step d d') : Course base d d' := by
  have haside : ∀ storage, Course base d { d with storage } := fun storage => .aside storage (.refl _) (.inr rfl)
  cases hstep with
  | startProgram header => exact .startProgram header
  | endProgram => exact .endProgram
  | setStorage storage => exact haside storage
  | declareRecord tree =>
    cases hscope : d.currentScope with
    | none =>
      rw [declareRecord_of_none hscope]
      exact .aside d.storage (nil_subset _) (.inr rfl)
    | some scope =>
      refine .inside hscope (declareRecord_moves (h.scoped hscope) tree) fun ref href => ?_
      unfold topParent at href
      split at href
      · exact ⟨_, (Option.some.inj href).symm⟩
      · obtain ⟨kept, _, heq⟩ := Option.map_eq_some_iff.mp href
        exact ⟨_, heq.symm⟩
  | startProcedureDivision header =>
    cases hscope : d.currentScope with
    | none =>
      rw [startProcedureDivision_of_none hscope]
      exact haside none
    | some scope =>
      have hmoves : Moves base d.table.size none d _ := startProcedureDivision_moves (h.scoped hscope) header
      exact .inside hscope hmoves nofun
  | startProcedure header parameters =>
    cases hscope : d.currentScope with
    | none =>
      rw [startProcedure_of_none hscope]
      exact haside d.storage
    | some scope => exact .startProcedure header parameters hscope
  | endProcedure => exact .endProcedure
  | startHeading heading =>
    cases hscope : d.currentScope with
    | none =>
      rw [startHeading_of_none hscope]
      exact haside d.storage
    | some scope =>
      exact .inside hscope (startHeading_moves (h.scoped hscope) heading) fun _ href => ⟨_, (Option.some.inj href).symm⟩
  | endHeading => exact .aside d.storage (.refl _) (.inl rfl)
  | startParagraph heading =>
    cases hscope : d.currentScope with
    | none =>
      rw [startParagraph_of_none hscope]
      exact haside d.storage
    | some scope =>
      exact .inside hscope (startParagraph_moves (h.scoped hscope) h.heading heading) fun _ href =>
        ⟨_, (Option.some.inj href).symm⟩

/-- Every step keeps what holds between two steps. -/
theorem Step.ready (hstep : Step d d') (h : ∃ base, d.Ready base) : ∃ base', d'.Ready base' := by
  obtain ⟨base, h⟩ := h
  cases h.course hstep with
  | startProgram header => exact h.startProgram header
  | endProgram => exact h.endProgram
  | startProcedure header parameters hscope =>
    have hready := h.openProcedure hscope header
    exact ⟨base, hready.moves (h.open_of_scope hscope) (h.startProcedure_moves hscope header parameters)⟩
  | endProcedure => exact ⟨base, h.endProcedure⟩
  | inside hscope hmoves => exact ⟨base, h.moves (h.open_of_scope hscope) hmoves⟩
  | aside storage hpending hheading =>
    rcases hheading with rfl | rfl
    · refine ⟨base, { h with heading := nofun, closed := fun hnone => ?_ }⟩
      obtain ⟨hscopes, _, hqueues⟩ := h.closed hnone
      exact ⟨hscopes, rfl, hqueues⟩
    · exact ⟨base, { h with }⟩

/-- Whatever is read, the symbols of a unit leave a sound table. -/
theorem Steps.sound (hsteps : Steps d d') (h : ∃ base, d.Ready base) : d'.table.Sound d'.table.size := by
  obtain ⟨base, hready⟩ := hsteps.keep Step.ready h
  exact hready.sound.restart

end CobolSymbols.Declarations
