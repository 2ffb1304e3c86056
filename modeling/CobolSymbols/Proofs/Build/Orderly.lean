import CobolSymbols.Proofs.Build.ScopeGrowth
import CobolSymbols.Proofs.Table.Regular

/-!
# Reading a unit keeps the table regular

Every step of reading a unit adds settled symbols to the outermost open program, opens a new outermost program, or links
what has been read, which changes nothing that the table keeps about its symbols. So the table is regular after every
step.
-/

set_option autoImplicit false

namespace CobolSymbols

open List Table Symbol

namespace Table

variable {t t' : Table}

/-- The second table has one more symbol, a program that belongs to the root. -/
structure Opens (t t' : Table) : Prop extends Continues t t' where
  size_eq : t'.size = t.size + 1
  tidy : t'.Tidy
  owner : t'.OwnedBy t.size rootId
  present : (t'.ledger t.size).removed = false
  standing : t'.Standing t.size

theorem Opens.regular (hopens : Opens t t') (h : t.Regular) (hindexed : t'.Indexed) : t'.Regular where
  tidy := hopens.tidy
  standing id hid := by
    by_cases hold : id < t.size
    · exact (h.standing id hold).extends hopens.toExtends h.tidy.ordered hold hopens.kept
    · rw [hopens.size_eq] at hid
      have heq : id = t.size := by omega
      exact heq ▸ hopens.standing
  indexed := hindexed
  root := by
    rw [hopens.kept rootId (Nat.lt_of_le_of_lt (by decide) h.bottom_lt)]
    exact h.root
  bottom := by
    rw [hopens.kept bottomId h.bottom_lt]
    exact h.bottom

theorem Opens.gathered (hopens : Opens t t') : t'.Gathered t.size where
  owner := hopens.owner
  within id hbase hlt := by
    rw [hopens.size_eq] at hlt
    have heq : id = t.size := by omega
    rw [heq]
    exact Relation.ReflTransGen.refl
  present id hbase hlt := by
    rw [hopens.size_eq] at hlt
    have heq : id = t.size := by omega
    rw [heq]
    exact hopens.present

/-- A regular table stays regular when its ledger does. -/
theorem Regular.of_ledger (h : t.Regular) (hext : Extends t t') (hsize : t'.size = t.size)
    (hledger : t'.ledger = t.ledger) (hslots : t'.slots = t.slots) (hindexed : t'.Indexed)
    (hgroups : ∀ id, (t'.get id).fields?.isSome = (t.get id).fields?.isSome) : t'.Regular where
  tidy := by
    suffices hgrows : Grows 0 t t' from hgrows.tidy
    refine Grows.of_ledger h.tidy hext hsize hledger hslots ?_ ?_
    · intro id hid
      rw [hgroups, hid]
    · intro id hid
      rw [hgroups] at hid
      have hlt : id < t.size := lt_size_of_fields? hid
      rw [hext.kind hlt]
      exact h.tidy.groups id hid
  standing id hid := by
    rw [hsize] at hid
    exact (h.standing id hid).extends hext h.tidy.ordered hid fun x _ => by rw [hledger]
  indexed := hindexed
  root := by
    rw [hledger]
    exact h.root
  bottom := by
    rw [hledger]
    exact h.bottom

end Table

namespace Linker

/-- Linking marks items with restrictions at most. -/
theorem blind_stance : Blind Symbol.stance where
  bind _ type _ :=
    (stance_union _ SymbolFlags.neutral_restrictions.inter).trans (stance_mapType _ (DataType.fields?_bindReference type))
  list _ _ := stance_mapProgram _ fun _ => rfl
  object _ target := stance_mapType _ (DataType.fields?_bindDependingOn target)

theorem blind_fields? : Blind Symbol.fields? where
  bind s type flags := by
    unfold Symbol.fields?
    cases s.type <;> simp
  list s f := by simp [Symbol.fields?]
  object s target := by
    unfold Symbol.fields?
    cases s.type <;> simp

end Linker

namespace Declarations

variable {base old : Nat} {parent : Option ScopeRef} {d d' : Declarations}

theorem ledger_link (d : Declarations) : d.link.table.ledger = d.table.ledger := by
  obtain ⟨htypes, hprogs, _⟩ := d.registries_link
  refine ledger_congr ?_ htypes hprogs
  exact d.view_link Linker.blind_stance

theorem regular_link (h : d.table.Regular) : d.link.table.Regular := by
  refine h.of_ledger d.extends_link d.size_link d.ledger_link d.registries_link.2.2 (indexed_link h.indexed) ?_
  intro id
  rw [d.view_link Linker.blind_fields?]

/-- A program that is entered nowhere and cannot be found. -/
theorem standing_of_blank {t : Table} {id : SymbolId} {storage : Option StorageSection}
    (hkind : (t.get id).kind = .program) (hown : t.OwnedBy id rootId) (hroot : (t.get rootId).kind.isItem = false)
    (hblank : t.ledger id = { Ledger.blank with storage }) : t.Standing id := by
  have hnone : t.Unlisted id := fun c => congrArg (fun l => Ledger.listed l c) hblank
  have howner : ∀ owner, t.OwnedBy id owner → owner = rootId := fun owner hother =>
    Option.some.inj (hother.symm.trans hown)
  constructor
  case place => exact .inl hnone
  case closed => exact fun _ hentered => absurd hentered hnone.not_enteredIn
  case complete => exact fun _ _ owner hother => .inl (howner owner hother)
  case aside => exact fun _ => hnone
  case inner =>
    intro owner hother hitem
    rw [howner owner hother, hroot] at hitem
    cases hitem
  case below =>
    intro _ _ _
    rw [hblank]
    rfl
  case slot => simp [hblank, Ledger.blank, hkind, SymbolKind.isItem]
  case types => simp [hblank, Ledger.blank, hkind]
  case programs => simp [hblank, Ledger.blank]

section TopLevel

variable {s : Symbol}

theorem NewScope.opens_alloc (h : d.NewScope 0 s rootId) (hkind : s.kind = .program) :
    d.table.Opens (d.alloc s).2.table := by
  have hget := d.get_made s
  have hblank := h.ledger_alloc
  have hown := d.ownedBy_made h.joins.owner_eq
  refine ⟨⟨Extends.alloc d.table s, ?_⟩, Table.size_alloc d.table s, h.tidy_alloc, hown, ?_, ?_⟩
  · exact fun id hid => ledger_alloc_of_ne h.fresh.contents_eq hid.ne
  · exact congrArg Ledger.removed hblank
  · refine standing_of_blank ?_ hown ?_ hblank
    · rw [hget, hkind]
    · rw [h.alloc_moves.extends.kind h.joins.owner_lt, h.owner_kind]

theorem NewScope.opens_registered (h : d.NewScope 0 s rootId) (hkind : s.kind = .program)
    (hroot : (d.table.ledger rootId).removed = false)
    (hscope : (d.table.scope? (.slot rootId .programs)).isSome = true) :
    d.table.Opens (((d.alloc s).2.enterIn d.table.size (some (.slot rootId .programs))).registerProgram
      d.table.size).table := by
  have hgrows := h.registerProgram_grows hscope (by rw [hkind]; rfl)
  have hentered := Extends.enter (d.alloc s).2.table (.slot rootId .programs) d.table.size
  have hsize := size_enter (d.alloc s).2.table (.slot rootId .programs) d.table.size
  generalize hreg : ((d.alloc s).2.enterIn d.table.size (some (.slot rootId .programs))).registerProgram
    d.table.size = d' at hgrows ⊢
  have hext : (d.alloc s).2.table.Extends d'.table := by
    rw [← hreg]
    exact hentered.trans (Extends.of_get rfl fun _ => rfl)
  have hsize' : d'.table.size = d.table.size + 1 := by
    rw [← hreg]
    exact hsize.trans (Table.size_alloc d.table s)
  have hget := d.get_made s
  have hown := (hext.ownedBy_iff h.lt).mpr (d.ownedBy_made h.joins.owner_eq)
  have hkind' : (d'.table.get d.table.size).kind = .program := by rw [hext.kind h.lt, hget, hkind]
  have hsettled := hgrows.settled d.table.size le_rfl (by rw [hsize']; exact Nat.lt_succ_self _)
  refine ⟨hgrows.continues, hsize', hgrows.tidy, hown, hsettled.present, ?_⟩
  -- a program is entered into its owner
  refine hsettled.standing fun container _ hcont => ?_
  have heq : container = rootId := by
    rcases hcont.owner with howner | ⟨hparagraph, _⟩
    · exact Option.some.inj (howner.symm.trans hown)
    · rw [hkind'] at hparagraph
      cases hparagraph
  refine ⟨.inl heq, ?_⟩
  rw [heq, hgrows.kept _ h.joins.owner_lt, hroot]

/-- A program that belongs to the root is made; it can be found unless the unit has used its name. -/
theorem opens_declareTopLevel (h : d.table.Regular) (hsound : d.table.Sound base) (header : ProgramHeader) :
    d.table.Opens (d.declareTopLevel header).2.2.table := by
  have hroot := (hsound.root rootId).mpr rfl
  have hnew : ∀ place : SymbolFlag, place.tellsPlace = false → place.isTrait = false →
      d.NewScope 0 (programSymbol header rootId place) rootId := by
    intro place hplace hplain
    refine ⟨h.tidy, fresh_programSymbol header _ hplain, ?_, rfl,
      ⟨rfl, hsound.root_lt, .inl (Nat.zero_le _), ?_, nofun⟩, Nat.zero_le _, ?_⟩
    · exact SymbolFlags.avoids_single hplace .removed rfl
    · intro _
      rcases hroot with hroot | hroot <;> rw [hroot] <;> rfl
    · rcases hroot with hroot | hroot <;> rw [hroot] <;> rfl
  have hscope : (d.table.scope? (.slot rootId .programs)).isSome = true := by
    have hsome : ((d.table.get rootId).scope? .programs).isSome = true := by
      rw [isSome_scope?]
      rcases hroot with hroot | hroot <;> rw [hroot] <;> rfl
    exact hsome
  unfold declareTopLevel
  simp only
  have hplace : (if d.programs.isEmpty then SymbolFlag.mainProgram else SymbolFlag.stackedProgram).tellsPlace = false := by
    split <;> rfl
  have hplain : (if d.programs.isEmpty then SymbolFlag.mainProgram else SymbolFlag.stackedProgram).isTrait = false := by
    split <;> rfl
  split
  · exact (hnew _ hplace hplain).opens_alloc rfl
  · exact (hnew _ hplace hplain).opens_registered rfl h.root hscope

end TopLevel

section Steps

/-- No move changes the open procedure section, except for opening one. -/
theorem Move.heading_eq (h : Move base old parent d d') : d'.heading = d.heading ∨
    ∃ id, d'.heading = some id ∧ (d'.table.get id).kind = .heading := by
  rcases h.shape with ⟨_, _, _, _, rfl, _⟩ | ⟨_, _, rfl, _⟩ | ⟨id, rfl, hkind⟩ | ⟨_, rfl, _⟩
  · exact .inl rfl
  · exact .inl rfl
  · exact .inr ⟨id, rfl, hkind⟩
  · exact .inl rfl

theorem Move.programs_eq (h : Move base old parent d d') (hparent : parent ≠ some (.slot rootId .programs))
    (hold : rootId < old) : d'.programs = d.programs := by
  rcases h.shape with ⟨_, _, _, _, rfl, _⟩ | ⟨_, _, rfl, _⟩ | ⟨_, rfl, _⟩ | ⟨_, rfl, href⟩
  · rfl
  · rfl
  · rfl
  · exact absurd hold (href.resolve_left hparent).not_gt

theorem Moves.programs_eq (h : Moves base old parent d d') (hparent : parent ≠ some (.slot rootId .programs))
    (hold : rootId < old) : d'.programs = d.programs := by
  induction h with
  | refl => rfl
  | tail _ hmove ih => exact (hmove.programs_eq hparent hold).trans ih

/-- The programs of the unit are programs that belong to the root. -/
def Listed (d : Declarations) : Prop :=
  ∀ program ∈ d.programs, (d.table.get program).kind = .program ∧ d.table.OwnedBy program rootId

theorem Listed.extends (h : d.Listed) (hext : d.table.Extends d'.table) (hprogs : d'.programs = d.programs) :
    d'.Listed := by
  intro program hprog
  rw [hprogs] at hprog
  obtain ⟨hkind, hown⟩ := h program hprog
  exact ⟨(hext.kind hown.lt_size).trans hkind, (hext.ownedBy_iff hown.lt_size).mpr hown⟩

/-- The open procedure section is one. -/
def Headed (d : Declarations) : Prop := ∀ id, d.heading = some id → (d.table.get id).kind = .heading ∧ id < d.table.size

theorem Moves.headed (hmoves : Moves base old parent d d') (h : d.Headed) (hpending : d.Pending base) : d'.Headed := by
  induction hmoves with
  | refl => exact h
  | tail hfirst hmove ih =>
    intro id hid
    have hlt := (hmove.pending (Moves.pending hfirst hpending)).heading id hid
    refine ⟨?_, hlt.2⟩
    rcases hmove.heading_eq with heq | ⟨other, hother, hkind⟩
    · rw [heq] at hid
      rw [hmove.extends.kind (ih id hid).2, (ih id hid).1]
    · rw [hother] at hid
      exact Option.some.inj hid ▸ hkind

/-- What holds between two steps, the accounts of the table included. -/
structure Orderly (d : Declarations) (base : Nat) : Prop extends Ready d base where
  regular : d.table.Regular
  headed : d.Headed
  listed : d.Listed
  gathered : d.openPrograms ≠ [] → d.table.Gathered base
  outermost_listed : d.openPrograms ≠ [] → base ∈ d.programs

/-- A step leaves everything in order and goes on from the table that there was. What is new stays, and it lies in a
program that the unit lists. -/
structure Advances (d d' : Declarations) : Prop where
  orderly : ∃ base, d'.Orderly base
  continues : d.table.Continues d'.table
  programs : ∀ program ∈ d.programs, program ∈ d'.programs
  added : ∀ program ∈ d'.programs, program ∈ d.programs ∨ d.table.size ≤ program
  gathered : ∀ id, d.table.size ≤ id → id < d'.table.size →
    (d'.table.ledger id).removed = false ∧ ∃ program ∈ d'.programs, d'.table.Within program id

/-- A step that makes no symbol. -/
theorem advances_of_table (h : ∃ base, d'.Orderly base) (htable : d'.table = d.table)
    (hprogs : d'.programs = d.programs) : d.Advances d' where
  orderly := h
  continues := htable ▸ Continues.refl d.table
  programs _ hprog := hprogs ▸ hprog
  added _ hprog := .inl (hprogs ▸ hprog)
  gathered _ hle hlt := absurd hlt (htable ▸ hle).not_gt

theorem Advances.trans {d'' : Declarations} (h : d.Advances d') (h' : d'.Advances d'') : d.Advances d'' where
  orderly := h'.orderly
  continues := h.continues.trans h'.continues
  programs program hprog := h'.programs program (h.programs program hprog)
  added program hprog := by
    rcases h'.added program hprog with hold | hnew
    · exact h.added program hold
    · exact .inr (h.continues.size_le.trans hnew)
  gathered id hle hlt := by
    by_cases hid : id < d'.table.size
    · obtain ⟨hpresent, program, hprog, hwithin⟩ := h.gathered id hle hid
      obtain ⟨_, horderly⟩ := h.orderly
      refine ⟨?_, program, h'.programs program hprog, ?_⟩
      · rw [h'.continues.kept id hid]
        exact hpresent
      · exact (h'.continues.within_iff horderly.regular.tidy.ordered hid).mpr hwithin
    · exact h'.gathered id (not_lt.mp hid) hlt

/-- The outermost open program tells where the unit starts. -/
theorem Ready.base_eq {base' : Nat} (h : d.Ready base) (h' : d'.Ready base') (hopen : d.openPrograms ≠ [])
    (heq : d'.openPrograms.getLast? = d.openPrograms.getLast?) : base' = base := by
  cases hlast : d.openPrograms.getLast? with
  | none => exact absurd (getLast?_eq_none_iff.mp hlast) hopen
  | some program => rw [← h.outermost program hlast, h'.outermost program (heq.trans hlast)]

section

variable (h : d.Orderly base)
include h

/-- A step inside a program that adds settled symbols. -/
theorem Orderly.of_grows (hstep : Step d d') (hopen : d.openPrograms ≠ [])
    (hlast : d'.openPrograms.getLast? = d.openPrograms.getLast?) (hprogs : d'.programs = d.programs)
    (hheaded : d'.Headed) (hgrows : Table.Grows base d.table d'.table) : d.Advances d' := by
  obtain ⟨base', hready⟩ := hstep.ready ⟨base, h.toReady⟩
  have hbase := h.toReady.base_eq hready hopen hlast
  subst hbase
  have hgathered := h.gathered hopen
  have hgathered' := hgathered.grows h.regular.tidy.ordered hgrows
  have hlisted : base' ∈ d'.programs := hprogs ▸ h.outermost_listed hopen
  refine ⟨⟨base', ?_⟩, hgrows.continues, fun _ hprog => hprogs ▸ hprog,
    fun _ hprog => .inl (hprogs ▸ hprog), ?_⟩
  · exact { hready with
      regular := h.regular.grows hgathered hgrows (h.toReady.indexed_step h.regular.indexed hstep)
      headed := hheaded
      listed := h.listed.extends hgrows.toExtends hprogs
      gathered := fun _ => hgathered'
      outermost_listed := fun _ => hlisted }
  · intro id hle hlt
    have hbase : base' ≤ id := hgathered.owner.lt_size.le.trans hle
    exact ⟨hgathered'.present id hbase hlt, base', hlisted, hgathered'.within id hbase hlt⟩

theorem Orderly.of_table (hstep : Step d d') (htable : d'.table = d.table)
    (hlast : d'.openPrograms.getLast? = d.openPrograms.getLast?) (hprogs : d'.programs = d.programs)
    (hheaded : d'.Headed) : d.Advances d' := by
  have hlisted : d'.Listed := h.listed.extends (htable ▸ Extends.refl d.table) hprogs
  by_cases hopen : d.openPrograms = []
  · obtain ⟨base', hready⟩ := hstep.ready ⟨base, h.toReady⟩
    rw [hopen, getLast?_nil, getLast?_eq_none_iff] at hlast
    exact advances_of_table ⟨base', { hready with
      regular := htable ▸ h.regular
      headed := hheaded
      listed := hlisted
      gathered := absurd hlast
      outermost_listed := absurd hlast }⟩ htable hprogs
  · refine h.of_grows hstep hopen hlast hprogs hheaded ?_
    rw [htable]
    exact Table.Grows.refl h.regular.tidy

theorem Orderly.startProgram (header : ProgramHeader) : d.Advances (d.startProgram header).2 := by
  have hstep := Step.startProgram d header
  have hheaded : (d.startProgram header).2.Headed := nofun
  cases hhead : d.openPrograms.head? with
  | some program =>
    obtain ⟨hbase, hlt, hkind⟩ := h.programs program (mem_of_mem_head? hhead)
    obtain ⟨htable, hprogs, hlisted⟩ := startProgram_nested hhead header
    have hmoves := declareNested_moves hlt hbase hkind header
    have hopen : d.openPrograms ≠ [] := ne_nil_of_mem (mem_of_mem_head? hhead)
    have hroot : rootId < d.table.size := (Nat.zero_le _).trans_lt hlt
    refine h.of_grows hstep hopen ?_ ?_ hheaded ?_
    · rw [hprogs, hmoves.stack.2, getLast?_cons, getLast?_eq_some_getLast hopen]
      rfl
    · rw [hlisted]
      refine hmoves.programs_eq ?_ hroot
      intro heq
      cases heq
      exact absurd hbase h.sound.root_lt_base.not_ge
    · rw [htable]
      exact declareNested_grows h.regular.tidy hlt hbase hkind header
  | none =>
    obtain ⟨htable, hprogs, hlisted⟩ := startProgram_topLevel hhead header
    have hopens := opens_declareTopLevel h.regular h.sound header
    have hmade : Made d (d.declareTopLevel header).2.2 (d.declareTopLevel header).1 .program :=
      made_declareTopLevel header
    obtain ⟨base', hready⟩ := hstep.ready ⟨base, h.toReady⟩
    -- the program that is opened is the outermost one, and the first symbol of the unit
    have hbase : base' = d.table.size := by
      have hempty : d.openPrograms = [] := head?_eq_none_iff.mp hhead
      have hroot := h.sound.root_isScope
      rw [← hmade.id_eq]
      refine (hready.outermost (d.declareTopLevel header).1 ?_).symm
      rw [hprogs, (declareTopLevel_moves hroot h.sound.root_lt header).stack.2, hempty]
      rfl
    subst hbase
    have hindexed := h.toReady.indexed_step h.regular.indexed hstep
    rw [← htable] at hopens
    have hmem : d.table.size ∈ (d.startProgram header).2.programs := by simp [hlisted]
    refine ⟨⟨d.table.size, { hready with
      regular := hopens.regular h.regular hindexed
      headed := hheaded
      listed := ?_
      gathered := fun _ => hopens.gathered
      outermost_listed := fun _ => hmem }⟩, hopens.toContinues, fun program hprog => by simp [hlisted, hprog], ?_, ?_⟩
    · intro program hprog
      rw [hlisted] at hprog
      rcases mem_append.mp hprog with hold | hnew
      · obtain ⟨hkind, hown⟩ := h.listed program hold
        exact ⟨(hopens.kind hown.lt_size).trans hkind, (hopens.ownedBy_iff hown.lt_size).mpr hown⟩
      · rw [mem_singleton.mp hnew]
        refine ⟨?_, hopens.owner⟩
        rw [htable, ← hmade.id_eq]
        exact hmade.kind
    · intro program hprog
      rw [hlisted] at hprog
      rcases mem_append.mp hprog with hold | hnew
      · exact .inl hold
      · exact .inr (mem_singleton.mp hnew).symm.le
    · intro id hle hlt
      exact ⟨hopens.gathered.present id hle hlt, d.table.size, hmem, hopens.gathered.within id hle hlt⟩

theorem Orderly.endProgram : d.Advances d.endProgram := by
  have hstep := Step.endProgram d
  obtain ⟨base', hready⟩ := hstep.ready ⟨base, h.toReady⟩
  have hheaded : d.endProgram.Headed := by
    unfold Declarations.endProgram
    simp only
    split <;> exact nofun
  by_cases hlast : d.leaveProgram.openPrograms = []
  · have hend : d.endProgram = d.leaveProgram.link := by
      unfold Declarations.endProgram
      simp [hlast]
    have hclosed : d.endProgram.openPrograms = [] := by
      rw [hend]
      exact hlast
    refine ⟨⟨base', { hready with
      regular := ?_
      headed := hheaded
      listed := ?_
      gathered := absurd hclosed
      outermost_listed := absurd hclosed }⟩, ?_, ?_, ?_, ?_⟩
    · rw [hend]
      exact regular_link (d := d.leaveProgram) h.regular
    · rw [hend]
      exact h.listed.extends (extends_link d.leaveProgram) rfl
    · rw [hend]
      exact ⟨d.leaveProgram.extends_link, fun _ _ => congrFun (ledger_link _) _⟩
    · rw [hend]
      exact fun _ hprog => hprog
    · rw [hend]
      exact fun _ hprog => .inl hprog
    · intro id hle hlt
      have hsize : d.endProgram.table.size = d.table.size := by
        rw [hend]
        exact d.leaveProgram.size_link
      exact absurd (hsize ▸ hlt) hle.not_gt
  · have hend : d.endProgram = d.leaveProgram := by
      unfold Declarations.endProgram
      simp [hlast]
    refine h.of_table hstep (by rw [hend]; rfl) ?_ (by rw [hend]; rfl) hheaded
    have htail : d.leaveProgram.openPrograms = d.openPrograms.tail := rfl
    rw [hend]
    rw [htail] at hlast ⊢
    cases hopen : d.openPrograms with
    | nil => rfl
    | cons program rest =>
      rw [hopen] at hlast
      cases rest with
      | nil => exact absurd rfl hlast
      | cons outer rest => rw [tail_cons, getLast?_cons_cons]

end

theorem topParent_ne_programs (d : Declarations) (tree : Tree) (scope owner : SymbolId) :
    d.topParent tree scope ≠ some (.slot owner .programs) := by
  unfold topParent
  split
  · simp
  · cases d.storage with
    | none => simp
    | some storage => cases storage <;> simp [StorageSection.slot]

/-- Every step keeps the table regular. -/
theorem Orderly.step (h : d.Orderly base) (hstep : Step d d') : d.Advances d' := by
  -- outside of programs nothing is declared
  have hinside : ∀ {old : Nat} {parent : Option ScopeRef} {scope : SymbolId}, d.currentScope = some scope →
      Moves base old parent d d' → base ≤ old → parent ≠ some (.slot rootId .programs) →
      Table.Grows base d.table d'.table → d.Advances d' := by
    intro old parent scope hscope hmoves hold hparent hgrows
    refine h.of_grows hstep (h.toReady.open_of_scope hscope) ?_ ?_ (hmoves.headed h.headed h.toPending) hgrows
    · rw [hmoves.stack.2]
    · exact hmoves.programs_eq hparent (h.sound.root_lt_base.trans_le hold)
  have hbase : ∀ {scope : SymbolId}, d.currentScope = some scope → base ≤ d.table.size := fun hscope =>
    (h.toReady.scoped hscope).base_le.trans (h.toReady.scoped hscope).lt.le
  cases hstep with
  | startProgram header => exact h.startProgram header
  | endProgram => exact h.endProgram
  | setStorage storage => exact h.of_table (.setStorage d storage) rfl rfl rfl h.headed
  | declareRecord tree =>
    cases hscope : d.currentScope with
    | none =>
      rw [declareRecord_of_none hscope]
      exact advances_of_table ⟨base, { h with }⟩ rfl rfl
    | some scope =>
      have hscoped := h.toReady.scoped hscope
      exact hinside hscope (declareRecord_moves hscoped tree) (hbase hscope) (d.topParent_ne_programs tree scope _)
        (declareRecord_grows hscoped h.regular.tidy tree).toGrows
  | startProcedureDivision header =>
    cases hscope : d.currentScope with
    | none =>
      rw [startProcedureDivision_of_none hscope]
      exact advances_of_table ⟨base, { h with }⟩ rfl rfl
    | some scope =>
      have hmoves : Moves base base none d (d.startProcedureDivision header) :=
        startProcedureDivision_moves (h.toReady.scoped hscope) header
      exact hinside hscope hmoves le_rfl nofun (startProcedureDivision_grows h.regular.tidy header)
  | startProcedure header parameters =>
    cases hscope : d.currentScope with
    | none =>
      rw [startProcedure_of_none hscope]
      exact advances_of_table ⟨base, h⟩ rfl rfl
    | some scope =>
      have hopened := procedure_moves (h.toReady.scoped hscope) header
      have hrest := h.toReady.startProcedure_moves hscope header parameters
      refine h.of_grows (.startProcedure d header parameters) (h.toReady.open_of_scope hscope) ?_ ?_ ?_
        (h.toReady.startProcedure_grows hscope h.regular.tidy header parameters)
      · rw [hrest.stack.2]
        exact congrArg List.getLast? hopened.stack.2
      · have hsize : rootId < d.table.size := h.sound.root_lt_base.trans_le (hbase hscope)
        have hfirst := hopened.programs_eq (by simp) hsize
        have hgrown := (h.toReady.openProcedure hscope header).scoped rfl
        exact (hrest.programs_eq (by simp) ((Nat.zero_le _).trans_lt hgrown.lt)).trans hfirst
      · have hheaded : (d.openProcedure header scope).2.Headed := hopened.headed h.headed h.toPending
        exact hrest.headed hheaded (h.toReady.openProcedure hscope header).toPending
  | endProcedure => exact h.of_table (.endProcedure d) rfl rfl rfl nofun
  | startHeading heading =>
    cases hscope : d.currentScope with
    | none =>
      rw [startHeading_of_none hscope]
      exact advances_of_table ⟨base, h⟩ rfl rfl
    | some scope =>
      have hscoped := h.toReady.scoped hscope
      exact hinside hscope (startHeading_moves hscoped heading) (hbase hscope) (by simp)
        (startHeading_grows hscoped h.regular.tidy heading)
  | endHeading => exact h.of_table (.endHeading d) rfl rfl rfl nofun
  | startParagraph heading =>
    cases hscope : d.currentScope with
    | none =>
      rw [startParagraph_of_none hscope]
      exact advances_of_table ⟨base, h⟩ rfl rfl
    | some scope =>
      have hscoped := h.toReady.scoped hscope
      have hheading : ∀ id, d.heading = some id →
          base ≤ id ∧ id < d.table.size ∧ (d.table.get id).kind = .heading := fun id hid =>
        ⟨(h.heading id hid).1, (h.headed id hid).2, (h.headed id hid).1⟩
      exact hinside hscope (startParagraph_moves hscoped h.heading heading) (hbase hscope) (by simp)
        (startParagraph_grows hscoped h.regular.tidy hheading heading)

/-- Any number of steps keeps the table regular. -/
theorem Orderly.steps (h : d.Orderly base) (hsteps : Steps d d') : d.Advances d' :=
  hsteps.keep (P := d.Advances)
    (fun hstep hadvanced => by
      obtain ⟨_, hd⟩ := hadvanced.orderly
      exact hadvanced.trans (hd.step hstep))
    (advances_of_table ⟨base, h⟩ rfl rfl)

/-- A unit is read into a regular table with nothing open. -/
theorem orderly_start {c : Context} (hsound : c.table.Sound c.table.size) (hregular : c.table.Regular) :
    ({ context := c } : Declarations).Orderly c.table.size := by
  have hready := ready_closed (d := { context := c }) hsound rfl rfl rfl rfl rfl rfl
  exact { hready with
    regular := hregular
    headed := nofun
    listed := nofun
    gathered := fun hopen => absurd rfl hopen
    outermost_listed := fun hopen => absurd rfl hopen }

end Steps

end Declarations

end CobolSymbols
