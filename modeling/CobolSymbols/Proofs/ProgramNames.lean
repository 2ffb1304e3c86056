import CobolSymbols.Proofs.Session.InPlace
import CobolSymbols.Proofs.Session.Isolation
import CobolSymbols.Proofs.Session.Removal

/-!
# Program names are unique on each level

The first program of a name wins: on each nesting level it is entered into the scope of its owner. A later one of the
same name is refused. Inside another program it is kept among the duplicates of that program, outside of programs it is
only listed among the programs of the unit, and its name is reported once. Nothing else that is read changes these lists.
-/

set_option autoImplicit false

namespace CobolSymbols

open List Symbol Table

namespace Symbol

/-- The nested programs that a program refuses. -/
def duplicates (s : Symbol) : List SymbolId := (s.program?.map ProgramData.duplicates).getD []

/-- The programs that a symbol lists, and those that it refuses. -/
def roster (s : Symbol) : List SymbolId × List SymbolId := (s.listing .programs, s.duplicates)

variable {s s' : Symbol}

theorem roster_of_body (h : s'.body = s.body) : s'.roster = s.roster := by
  unfold roster listing duplicates scope? program?
  rw [h]

theorem roster_mapItem (s : Symbol) (f : ItemData → ItemData) : (s.mapItem f).roster = s.roster := by
  unfold roster duplicates
  rw [listing_congr (s.scope?_mapItem f), mapItem_program?]

theorem roster_mapProgram (s : Symbol) {f : ProgramData → ProgramData} (hscopes : ∀ data, (f data).scopes = data.scopes)
    (hdups : ∀ data, (f data).duplicates = data.duplicates) : (s.mapProgram f).roster = s.roster := by
  unfold roster duplicates
  rw [s.listing_mapProgram hscopes, mapProgram_program?, Option.map_map]
  congr 2
  exact congrArg (fun g => s.program?.map g) (funext hdups)

theorem duplicates_mapScopes (s : Symbol) (f : Scopes → Scopes) : (s.mapScopes f).duplicates = s.duplicates := by
  unfold duplicates
  rw [mapScopes_program?, Option.map_map]
  rfl

theorem roster_mapScopes (s : Symbol) {slot : ScopeSlot} (h : slot ≠ .programs) (f : Scope SymbolId → Scope SymbolId) :
    (s.mapScopes fun scopes => scopes.modify slot f).roster = s.roster := by
  have hscope : (s.mapScopes fun scopes => scopes.modify slot f).scope? .programs = s.scope? .programs := by
    rw [scope?_mapScopes]
    simp [Ne.symm h]
  unfold roster listing
  rw [hscope, duplicates_mapScopes]

theorem Fresh.roster_eq (h : s.Fresh) : s.roster = ([], []) := by
  have hlisting : s.listing .programs = [] := congrFun (congrArg Prod.snd h.stock_eq) .programs
  have hdups : s.duplicates = [] := by
    unfold duplicates
    cases hprog : s.program? with
    | none => rfl
    | some data =>
      rw [h.program data hprog]
      rfl
  exact Prod.ext hlisting hdups

theorem duplicates_addDuplicate (h : s.kind.isProgramLike = true) (id : SymbolId) :
    (s.mapProgram fun data => { data with duplicates := data.duplicates ++ [id] }).duplicates =
      s.duplicates ++ [id] := by
  obtain ⟨data, hdata⟩ := Option.isSome_iff_exists.mp (s.isSome_program?.trans h)
  unfold duplicates
  rw [mapProgram_program?, hdata]
  rfl

theorem duplicates_subset (s : Symbol) : s.duplicates ⊆ s.contents := by
  intro id hid
  refine mem_append_left _ ?_
  unfold duplicates program? at hid
  unfold members
  cases hbody : s.body with
  | program data | procedure data =>
    rw [hbody] at hid
    exact mem_append_right _ hid
  | _ =>
    rw [hbody] at hid
    exact absurd hid not_mem_nil

theorem blind_roster : Linker.Blind roster where
  bind _ _ _ := roster_of_body rfl
  list s _ := s.roster_mapProgram (fun _ => rfl) fun _ => rfl
  object _ _ := roster_of_body rfl

end Symbol

namespace Declarations

variable {base old start : Nat} {parent : Option ScopeRef} {d d' d'' : Declarations}

section Frame

variable {id scope : SymbolId}

/-- A move that enters no program leaves the lists of programs alone. -/
theorem Move.roster (h : Move base old parent d d') (hparent : ∀ o, parent ≠ some (.slot o .programs))
    (hold : id < old) (hlt : id < d.table.size) : (d'.table.get id).roster = (d.table.get id).roster := by
  have hnew : ¬ old ≤ id := hold.not_ge
  generalize hs : d'.table.get id = s
  cases hs ▸ h.edit hlt with
  | same => rfl
  | type | flags | field => exact roster_of_body rfl
  | refer type hother => exact absurd hother hnew
  | item f => exact roster_mapItem _ f
  | domain => exact roster_mapProgram _ (fun _ => rfl) fun _ => rfl
  | duplicate item hother => exact absurd (hother.resolve_right hnew) (hparent id)
  | enter slot f hother =>
    refine roster_mapScopes _ ?_ f
    rintro rfl
    exact hparent id (hother.resolve_right hnew)

theorem Moves.roster (h : Moves base old parent d d') (hparent : ∀ o, parent ≠ some (.slot o .programs))
    (hold : id < old) (hlt : id < d.table.size) : (d'.table.get id).roster = (d.table.get id).roster := by
  induction h with
  | refl => rfl
  | tail hfirst hmove ih =>
    exact (hmove.roster hparent hold (hlt.trans_le (Moves.extends hfirst).size_le)).trans ih

/-- No program is made, listed, refused or reported. -/
structure SparesPrograms (d d' : Declarations) : Prop where
  grown : d.table.Extends d'.table
  kinds : ∀ id, d.table.size ≤ id → (d'.table.get id).kind ≠ .program
  roster : ∀ id, id < d.table.size → (d'.table.get id).roster = (d.table.get id).roster
  programs : d'.programs = d.programs
  repeats : d'.context.repeats = d.context.repeats

theorem SparesPrograms.trans (h : SparesPrograms d d') (h' : SparesPrograms d' d'') : SparesPrograms d d'' where
  grown := h.grown.trans h'.grown
  kinds id hid := by
    by_cases hlt : id < d'.table.size
    · rw [h'.grown.kind hlt]
      exact h.kinds id hid
    · exact h'.kinds id (not_lt.mp hlt)
  roster id hid := (h'.roster id (hid.trans_le h.grown.size_le)).trans (h.roster id hid)
  programs := h'.programs.trans h.programs
  repeats := h'.repeats.trans h.repeats

theorem kind_ne_program_of_le {t : Table} (h : t.size ≤ id) : (t.get id).kind ≠ .program := fun hkind =>
  absurd (lt_size_of_program hkind) h.not_gt

theorem sparesPrograms_of_table (htable : d'.table = d.table) (hprogs : d'.programs = d.programs)
    (hrepeats : d'.context.repeats = d.context.repeats) : SparesPrograms d d' where
  grown := htable ▸ Extends.refl _
  kinds id hid := by
    rw [htable]
    exact kind_ne_program_of_le hid
  roster id _ := by rw [htable]
  programs := hprogs
  repeats := hrepeats

/-- Moves that enter no program make none either, if no new symbol is one. -/
theorem Moves.sparesPrograms (h : Moves base d.table.size parent d d')
    (hparent : ∀ o, parent ≠ some (.slot o .programs)) (hroot : rootId < d.table.size)
    (hkinds : ∀ id, d.table.size ≤ id → (d'.table.get id).kind ≠ .program) : SparesPrograms d d' where
  grown := h.extends
  kinds := hkinds
  roster _ hid := h.roster hparent hid hid
  programs := h.programs_eq (hparent _) hroot
  repeats := h.repeats

theorem Made.kinds {kind : SymbolKind} (h : Made d d' id kind) (hsize : d'.table.size = d.table.size + 1)
    (hkind : kind ≠ .program) (v : SymbolId) (hv : d.table.size ≤ v) : (d'.table.get v).kind ≠ .program := by
  by_cases hlt : v < d'.table.size
  · have heq : v = id := by
      rw [h.id_eq]
      exact (Nat.le_of_lt_succ (hlt.trans_eq hsize)).antisymm hv
    rw [heq, h.kind]
    exact hkind
  · exact kind_ne_program_of_le (not_lt.mp hlt)

theorem Lays.kinds {owner : SymbolId} {place : Placement} (h : Lays scope owner place d d') (v : SymbolId)
    (hv : d.table.size ≤ v) : (d'.table.get v).kind ≠ .program := by
  by_cases hlt : v < d'.table.size
  · exact (h.laid v ⟨hv, hlt⟩).item.kind_ne rfl
  · exact kind_ne_program_of_le (not_lt.mp hlt)

theorem alloc_enterIn_kinds {s : Symbol} (hkind : s.kind ≠ .program) (ref : ScopeRef) (v : SymbolId)
    (hv : d.table.size ≤ v) : (((d.alloc s).2.enterIn d.table.size (some ref)).table.get v).kind ≠ .program := by
  have hentered : (d.alloc s).2.table.Extends ((d.alloc s).2.enterIn d.table.size (some ref)).table :=
    Extends.enter (d.alloc s).2.table ref d.table.size
  exact ((Made.alloc d s).extends hentered).kinds (size_alloc_enterIn s ref) hkind v hv

/-- A procedure is made with its parameters, which are items. -/
theorem Ready.startProcedure_sparesPrograms (h : d.Ready base) (hplace : d.table.InPlace)
    (hscope : d.currentScope = some scope) (header : DeclaredProcedure) (parameters : Forest) :
    SparesPrograms d (d.startProcedure header parameters).2.2 := by
  have hready := h.openProcedure hscope header
  have hopened : SparesPrograms d (d.openProcedure header scope).2 := by
    have hmade := made_enter d (procedureSymbol header scope) (.slot scope .procedures)
    have hsize := size_alloc_enterIn (d := d) (procedureSymbol header scope) (.slot scope .procedures)
    have hmoves := (procedure_moves (h.scoped hscope) header).sparesPrograms (by simp) h.sound.root_lt
      (hmade.kinds hsize nofun)
    exact hmoves.trans (sparesPrograms_of_table rfl rfl rfl)
  have hmoves := h.startProcedure_moves hscope header parameters
  refine hopened.trans (hmoves.sparesPrograms (by simp) hready.sound.root_lt ?_)
  have hkinds := ((h.ground_linkage hplace hscope header).declareParameters_lays parameters {}).kinds
  unfold Declarations.startProcedure
  simp only [hscope]
  exact fun v hv hkind => hkinds v hv (((setSignature_quiet _).stamp v).kind.symm.trans hkind)

theorem sparesPrograms_link (d : Declarations) : SparesPrograms d d.link where
  grown := extends_link d
  kinds _ hid := kind_ne_program_of_le ((size_link d).le.trans hid)
  roster id _ := view_link blind_roster d id
  programs := rfl
  repeats := (Linker.linkUnit_changes { context := d.context } d.typedItems d.dependentTypes d.dependentTables).repeats

/-- Only a program that starts changes anything about programs. -/
theorem Ready.sparesPrograms_step (h : d.Ready base) (hplace : d.table.InPlace) (hstep : Step d d') :
    SparesPrograms d d' ∨ ∃ header, d' = (d.startProgram header).2 := by
  have hroot := h.sound.root_lt
  cases hstep with
  | startProgram header => exact .inr ⟨header, rfl⟩
  | endProgram =>
    left
    unfold Declarations.endProgram
    simp only
    split
    · have hleft : SparesPrograms d d.leaveProgram := sparesPrograms_of_table rfl rfl rfl
      exact hleft.trans (sparesPrograms_link d.leaveProgram)
    · exact sparesPrograms_of_table rfl rfl rfl
  | setStorage storage | endProcedure | endHeading => exact .inl (sparesPrograms_of_table rfl rfl rfl)
  | declareRecord tree =>
    left
    cases hscope : d.currentScope with
    | none =>
      rw [declareRecord_of_none hscope]
      exact sparesPrograms_of_table rfl rfl rfl
    | some scope =>
      have hscoped := h.scoped hscope
      have hlays := declareRecord_lays hscope hscoped.kind (hplace.global_of_program hscoped.kind) tree
      exact (declareRecord_moves hscoped tree).sparesPrograms (d.topParent_ne_programs tree scope) hroot hlays.kinds
  | startProcedureDivision header =>
    left
    cases hscope : d.currentScope with
    | none =>
      rw [startProcedureDivision_of_none hscope]
      exact sparesPrograms_of_table rfl rfl rfl
    | some scope =>
      have hmoves : Moves base d.table.size none d (d.startProcedureDivision header) :=
        startProcedureDivision_moves (h.scoped hscope) header
      exact hmoves.sparesPrograms nofun hroot fun v hv =>
        kind_ne_program_of_le ((startProcedureDivision_quiet header).size_eq.le.trans hv)
  | startProcedure header parameters =>
    left
    cases hscope : d.currentScope with
    | none =>
      rw [startProcedure_of_none hscope]
      exact sparesPrograms_of_table rfl rfl rfl
    | some scope => exact h.startProcedure_sparesPrograms hplace hscope header parameters
  | startHeading heading =>
    left
    cases hscope : d.currentScope with
    | none =>
      rw [startHeading_of_none hscope]
      exact sparesPrograms_of_table rfl rfl rfl
    | some scope =>
      refine (startHeading_moves (h.scoped hscope) heading).sparesPrograms (by simp) hroot ?_
      unfold startHeading
      simp only [hscope]
      exact alloc_enterIn_kinds (s := headingSymbol heading scope) nofun _
  | startParagraph heading =>
    left
    cases hscope : d.currentScope with
    | none =>
      rw [startParagraph_of_none hscope]
      exact sparesPrograms_of_table rfl rfl rfl
    | some scope =>
      refine (startParagraph_moves (h.scoped hscope) h.heading heading).sparesPrograms (by simp) hroot ?_
      unfold startParagraph
      simp only [hscope]
      exact alloc_enterIn_kinds (s := d.paragraphSymbol heading scope) nofun _

end Frame

end Declarations

namespace Table

variable {t t' : Table} {start : Nat} {p q : SymbolId}

theorem OwnedBy.iff_eq {owner : SymbolId} (h : t.OwnedBy p owner) : t.OwnedBy p q ↔ owner = q :=
  ⟨fun h' => Option.some.inj (h.symm.trans h'), fun heq => heq ▸ h⟩

theorem Regular.lt_of_mem_contents (h : t.Regular) (hp : p ∈ (t.get q).contents) : p < t.size :=
  h.lt_size_of_entered (h.enteredIn hp)

/-- What is listed is made after the symbol that lists it. -/
theorem Indexed.lt_of_listed {slot : ScopeSlot} (h : t.Indexed) (hp : p ∈ t.listed q slot) : q < p := by
  unfold listed Symbol.listing at hp
  cases hscope : (t.get q).scope? slot with
  | none => simp [hscope] at hp
  | some scope =>
    rw [hscope] at hp
    exact (h.scopes q slot scope hscope).after p hp

/-- The programs that have been made since the table had `start` symbols. -/
def madePrograms (t : Table) (start : Nat) : List SymbolId :=
  (List.range t.size).filter fun p => start ≤ p && (t.get p).kind == .program

/-- Whether no program made earlier has the same owner and the same name. -/
def isFirst (t : Table) (start : Nat) (p : SymbolId) : Bool :=
  !(t.madePrograms start).any fun q => q < p && (t.get q).owner == (t.get p).owner && t.name q == t.name p

/-- Whether a program is set aside by its owner. -/
def isDuplicate (t : Table) (p : SymbolId) : Bool :=
  (t.get p).owner.any fun owner => (t.get owner).duplicates.contains p

/-- Those programs of a unit whose name the unit has used before. -/
def rejected (t : Table) (programs : List SymbolId) : List SymbolId :=
  programs.filter fun p => programs.any fun q => q < p && t.name q == t.name p

theorem mem_rejected {programs : List SymbolId} :
    p ∈ t.rejected programs ↔ p ∈ programs ∧ ∃ q ∈ programs, q < p ∧ t.name q = t.name p := by
  simp [rejected]

theorem mem_madePrograms : p ∈ t.madePrograms start ↔ start ≤ p ∧ (t.get p).kind = .program := by
  simp only [madePrograms, mem_filter, mem_range, Bool.and_eq_true, decide_eq_true_eq, beq_iff_eq]
  exact ⟨fun h => h.2, fun h => ⟨lt_size_of_program h.2, h⟩⟩

theorem lt_of_made (hp : p ∈ t.madePrograms start) : p < t.size :=
  lt_size_of_program (mem_madePrograms.mp hp).2

theorem isFirst_iff : t.isFirst start p = true ↔
    ∀ q ∈ t.madePrograms start, q < p → (t.get q).owner = (t.get p).owner → t.name q ≠ t.name p := by
  simp [isFirst]

theorem not_isFirst_iff : t.isFirst start p = false ↔
    ∃ q ∈ t.madePrograms start, q < p ∧ (t.get q).owner = (t.get p).owner ∧ t.name q = t.name p := by
  simp [isFirst, and_assoc]

/-- Where a name is taken there is a first program that took it. -/
theorem exists_first (hq : q ∈ t.madePrograms start) : ∃ r ∈ t.madePrograms start,
    r ≤ q ∧ (t.get r).owner = (t.get q).owner ∧ t.name r = t.name q ∧ t.isFirst start r = true := by
  induction q using Nat.strongRecOn with
  | ind q ih =>
    cases hfirst : t.isFirst start q with
    | true => exact ⟨q, hq, le_rfl, rfl, rfl, hfirst⟩
    | false =>
      obtain ⟨r, hr, hlt, howner, hname⟩ := not_isFirst_iff.mp hfirst
      obtain ⟨r', hr', hle, howner', hname', hfirst'⟩ := ih r hlt hr
      exact ⟨r', hr', hle.trans hlt.le, howner'.trans howner, hname'.trans hname, hfirst'⟩

variable (h : Extends t t') (hstart : start ≤ t.size)
include h hstart

/-- The programs of a table that grows are those that it had and the new ones. -/
theorem Extends.madePrograms_eq :
    t'.madePrograms start = t.madePrograms start ++
      (List.range' t.size (t'.size - t.size)).filter fun p => (t'.get p).kind == .program := by
  obtain ⟨more, hmore⟩ := Nat.exists_eq_add_of_le h.size_le
  have hrange : List.range t'.size = List.range t.size ++ List.range' t.size (t'.size - t.size) := by
    rw [hmore, Nat.add_sub_cancel_left, range_add, range'_eq_map_range]
  unfold madePrograms
  rw [hrange, filter_append]
  congr 1
  · refine filter_congr fun p hp => ?_
    rw [h.kind (mem_range.mp hp)]
  · refine filter_congr fun p hp => ?_
    have hle : start ≤ p := hstart.trans (mem_range'_1.mp hp).1
    simp [hle]

theorem Extends.madePrograms_of_none
    (hnone : ∀ id, t.size ≤ id → (t'.get id).kind ≠ .program) : t'.madePrograms start = t.madePrograms start := by
  rw [h.madePrograms_eq hstart, filter_eq_nil_iff.mpr, append_nil]
  intro p hp
  simp [hnone p (mem_range'_1.mp hp).1]

theorem Extends.madePrograms_of_one (hsize : t'.size = t.size + 1)
    (hkind : (t'.get t.size).kind = .program) : t'.madePrograms start = t.madePrograms start ++ [t.size] := by
  rw [h.madePrograms_eq hstart, hsize, Nat.add_sub_cancel_left]
  simp [hkind]

/-- Whether a program is the first of its name is told by the programs made before it. -/
theorem Extends.isFirst_eq (hp : p ∈ t.madePrograms start) : t'.isFirst start p = t.isFirst start p := by
  have hp := lt_of_made hp
  have hname : t'.name p = t.name p := h.name hp
  unfold isFirst
  rw [h.madePrograms_eq hstart, any_append]
  have hnew : ((List.range' t.size (t'.size - t.size)).filter fun q => (t'.get q).kind == .program).any (fun q =>
      q < p && (t'.get q).owner == (t'.get p).owner && t'.name q == t'.name p) = false := by
    rw [any_eq_false]
    intro q hq
    have hle := (mem_range'_1.mp (mem_filter.mp hq).1).1
    simp [(hp.le.trans hle).not_gt]
  rw [hnew, Bool.or_false]
  congr 1
  rw [Bool.eq_iff_iff, any_eq_true, any_eq_true]
  refine exists_congr fun q => and_congr_right fun hq => ?_
  have hlt := lt_of_made hq
  have hname' : t'.name q = t.name q := h.name hlt
  rw [h.owner hlt, h.owner hp, hname, hname']

end Table

namespace Declarations

variable {base start : Nat} {d d' : Declarations} {name : String} {o p : SymbolId}

/-- The lists of programs are in order: for each level the first program of a name is listed by its owner, and the
others are refused and reported. -/
structure Roll (d : Declarations) (start : Nat) : Prop where
  owned : ∀ p ∈ d.table.madePrograms start, ∃ o, d.table.OwnedBy p o
  placed : ∀ p ∈ d.table.madePrograms start, ∀ o, d.table.OwnedBy p o →
    (p ∈ d.table.listed o .programs ↔ d.table.isFirst start p = true) ∧
      (p ∈ (d.table.get o).duplicates ↔ o ≠ rootId ∧ d.table.isFirst start p = false)
  housed : ∀ o, o = rootId ∨ (d.table.get o).kind = .program → ∀ p ∈ d.table.listed o .programs, start ≤ p →
    (d.table.get p).kind = .program ∧ d.table.OwnedBy p o
  programs : ∀ p, p ∈ d.programs ↔ p ∈ d.table.madePrograms start ∧ d.table.OwnedBy p rootId
  repeats : d.context.repeats.length = (d.table.madePrograms start).countP fun p => !d.table.isFirst start p

/-- What leaves programs alone keeps their lists in order. -/
theorem Roll.spared (h : d.Roll start) (hspares : SparesPrograms d d') (ht : d.table.Ordered)
    (hroot : rootId < d.table.size) (hstart : start ≤ d.table.size) : d'.Roll start := by
  have hmade := hspares.grown.madePrograms_of_none hstart hspares.kinds
  have hlisted : ∀ {o}, o < d.table.size → d'.table.listed o .programs = d.table.listed o .programs := fun ho =>
    congrArg Prod.fst (hspares.roster _ ho)
  have hdups : ∀ {o}, o < d.table.size → (d'.table.get o).duplicates = (d.table.get o).duplicates := fun ho =>
    congrArg Prod.snd (hspares.roster _ ho)
  refine ⟨?_, ?_, ?_, ?_, ?_⟩
  · rw [hmade]
    intro p hp
    obtain ⟨o, hown⟩ := h.owned p hp
    exact ⟨o, (hspares.grown.ownedBy_iff (lt_of_made hp)).mpr hown⟩
  · rw [hmade]
    intro p hp o hown
    have hown' := (hspares.grown.ownedBy_iff (lt_of_made hp)).mp hown
    have ho := (ht p o hown').trans (lt_of_made hp)
    rw [hspares.grown.isFirst_eq hstart hp, hlisted ho, hdups ho]
    exact h.placed p hp o hown'
  · intro o ho p hp hle
    have holt : o < d.table.size := by
      rcases ho with rfl | hkind
      · exact hroot
      · by_contra hge
        exact hspares.kinds o (not_lt.mp hge) hkind
    rw [hlisted holt] at hp
    rw [hspares.grown.kind holt] at ho
    obtain ⟨hkind, hown⟩ := h.housed o ho p hp hle
    exact ⟨(hspares.grown.kind hown.lt_size).trans hkind, (hspares.grown.ownedBy_iff hown.lt_size).mpr hown⟩
  · intro p
    rw [hspares.programs, hmade, h.programs]
    exact and_congr_right fun hp => (hspares.grown.ownedBy_iff (lt_of_made hp)).symm
  · rw [hspares.repeats, hmade, h.repeats]
    exact countP_congr fun p hp => by rw [hspares.grown.isFirst_eq hstart hp]

/-- A program is made with an owner and a name, and entered or refused. -/
structure Enrolls (d d' : Declarations) (owner : SymbolId) (name : String) (taken : Bool) : Prop where
  grown : d.table.Extends d'.table
  size_eq : d'.table.size = d.table.size + 1
  kind : (d'.table.get d.table.size).kind = .program
  owned : d'.table.OwnedBy d.table.size owner
  named : d'.table.name d.table.size = name
  owner_lt : owner < d.table.size
  empty : (d'.table.get d.table.size).roster = ([], [])
  listed : ∀ id, id < d.table.size → d'.table.listed id .programs =
    d.table.listed id .programs ++ if id = owner ∧ taken = false then [d.table.size] else []
  duplicates : ∀ id, id < d.table.size → (d'.table.get id).duplicates =
    (d.table.get id).duplicates ++ if id = owner ∧ owner ≠ rootId ∧ taken = true then [d.table.size] else []
  programs : d'.programs = d.programs ++ if owner = rootId then [d.table.size] else []
  repeats : d'.context.repeats.length = d.context.repeats.length + if taken then 1 else 0

theorem Enrolls.isFirst_eq {owner : SymbolId} {taken : Bool} (h : Enrolls d d' owner name taken)
    (hstart : start ≤ d.table.size)
    (htaken : taken = true ↔ ∃ q ∈ d.table.madePrograms start, d.table.OwnedBy q owner ∧ d.table.name q = name) :
    d'.table.isFirst start d.table.size = !taken := by
  have hsame : d'.table.isFirst start d.table.size = false ↔ taken = true := by
    rw [not_isFirst_iff, htaken, h.named, h.grown.madePrograms_of_one hstart h.size_eq h.kind]
    constructor
    · rintro ⟨q, hq, hlt, howner, hname⟩
      rw [h.owned, h.grown.owner hlt] at howner
      have hq' := (mem_append.mp hq).resolve_right fun heq => hlt.ne (mem_singleton.mp heq)
      exact ⟨q, hq', howner, (h.grown.name hlt).symm.trans hname⟩
    · rintro ⟨q, hq, hown, hname⟩
      have hlt := hown.lt_size
      refine ⟨q, mem_append_left _ hq, hlt, ?_, (h.grown.name hlt).trans hname⟩
      rw [h.owned, h.grown.owner hlt]
      exact hown
  cases taken with
  | true => exact hsame.mpr rfl
  | false => simpa using hsame

/-- A new program whose name is taken is refused, and any other one is entered. -/
theorem Roll.enrolled {owner : SymbolId} {taken : Bool} (h : d.Roll start)
    (henrolls : Enrolls d d' owner name taken) (ht : d.table.Regular) (hstart : start ≤ d.table.size)
    (htaken : taken = true ↔ ∃ q ∈ d.table.madePrograms start, d.table.OwnedBy q owner ∧ d.table.name q = name) :
    d'.Roll start := by
  have hmade := henrolls.grown.madePrograms_of_one hstart henrolls.size_eq henrolls.kind
  have hnew := henrolls.isFirst_eq hstart htaken
  -- nothing that was entered before is the new program
  have habsent : d.table.size ∉ (d.table.get owner).contents := fun hmem =>
    Nat.lt_irrefl _ (ht.lt_of_mem_contents hmem)
  have hnotListed : d.table.size ∉ d.table.listed owner .programs := fun hmem =>
    habsent ((listing_sublist _ _).subset hmem)
  have hnotRefused : d.table.size ∉ (d.table.get owner).duplicates := fun hmem =>
    habsent (duplicates_subset _ hmem)
  refine ⟨?_, ?_, ?_, ?_, ?_⟩
  · rw [hmade]
    intro p hp
    rcases mem_append.mp hp with hp | hp
    · obtain ⟨o, hown⟩ := h.owned p hp
      exact ⟨o, (henrolls.grown.ownedBy_iff (lt_of_made hp)).mpr hown⟩
    · exact ⟨owner, mem_singleton.mp hp ▸ henrolls.owned⟩
  · rw [hmade]
    intro p hp o hown
    rcases mem_append.mp hp with hp | hp
    · have hown' := (henrolls.grown.ownedBy_iff (lt_of_made hp)).mp hown
      have ho := (ht.tidy.ordered p o hown').trans (lt_of_made hp)
      have hne : p ≠ d.table.size := (lt_of_made hp).ne
      rw [henrolls.grown.isFirst_eq hstart hp, henrolls.listed o ho, henrolls.duplicates o ho,
        ← (h.placed p hp o hown').1, ← (h.placed p hp o hown').2]
      constructor <;> split <;> simp [hne]
    · rw [mem_singleton.mp hp] at hown ⊢
      obtain rfl := hown.unique henrolls.owned
      rw [hnew, henrolls.listed o henrolls.owner_lt, henrolls.duplicates o henrolls.owner_lt]
      cases taken <;> simp [hnotListed, hnotRefused]
  · intro o ho p hp hle
    by_cases holt : o < d.table.size
    · rw [henrolls.listed o holt] at hp
      rcases mem_append.mp hp with hp | hp
      · rw [henrolls.grown.kind holt] at ho
        obtain ⟨hkind, hown⟩ := h.housed o ho p hp hle
        exact ⟨(henrolls.grown.kind hown.lt_size).trans hkind, (henrolls.grown.ownedBy_iff hown.lt_size).mpr hown⟩
      · split at hp
        · rename_i howner
          rw [mem_singleton.mp hp, howner.1]
          exact ⟨henrolls.kind, henrolls.owned⟩
        · cases hp
    · have heq : o = d.table.size := by
        rcases ho with rfl | hkind
        · exact absurd ((Nat.zero_le _).trans_lt henrolls.owner_lt) holt
        · have hlt' := (lt_size_of_program hkind).trans_eq henrolls.size_eq
          exact (Nat.le_of_lt_succ hlt').antisymm (not_lt.mp holt)
      have hempty : d'.table.listed o .programs = [] := by
        rw [heq]
        exact congrArg Prod.fst henrolls.empty
      rw [hempty] at hp
      cases hp
  · intro p
    rw [henrolls.programs, hmade, mem_append, mem_append, h.programs, or_and_right]
    refine or_congr (and_congr_right fun hp => (henrolls.grown.ownedBy_iff (lt_of_made hp)).symm) ?_
    split
    · rename_i howner
      refine ⟨fun hp => ⟨hp, ?_⟩, fun hp => hp.1⟩
      rw [mem_singleton.mp hp, ← howner]
      exact henrolls.owned
    · rename_i howner
      refine ⟨fun hp => absurd hp not_mem_nil, fun ⟨hp, hown⟩ => absurd ?_ howner⟩
      rw [mem_singleton.mp hp] at hown
      exact Option.some.inj (henrolls.owned.symm.trans hown)
  · rw [henrolls.repeats, hmade, countP_append, h.repeats]
    congr 1
    · exact countP_congr fun p hp => by rw [henrolls.grown.isFirst_eq hstart hp]
    · simp [hnew]

section Enroll

variable {s : Symbol} {owner : SymbolId} {taken : Bool}

/-- What is done with a new program changes the lists of its owner only. -/
theorem enrolls_of_alloc (hfresh : s.Fresh) (hkind : s.kind = .program) (howner : s.owner = some owner)
    (hlt : owner < d.table.size) (hext : (d.alloc s).2.table.Extends d'.table)
    (hsize : d'.table.size = (d.alloc s).2.table.size)
    (hlisted : ∀ id, d'.table.listed id .programs = (d.alloc s).2.table.listed id .programs ++
      if id = owner ∧ taken = false then [d.table.size] else [])
    (hdups : ∀ id, (d'.table.get id).duplicates = ((d.alloc s).2.table.get id).duplicates ++
      if id = owner ∧ owner ≠ rootId ∧ taken = true then [d.table.size] else [])
    (hprogs : d'.programs = d.programs ++ if owner = rootId then [d.table.size] else [])
    (hrepeats : d'.context.repeats.length = d.context.repeats.length + if taken then 1 else 0) :
    Enrolls d d' owner s.name taken := by
  have hget := d.get_made s
  have hold : ∀ {id}, id < d.table.size → (d.alloc s).2.table.get id = d.table.get id := fun hid =>
    get_alloc_of_lt s hid
  have hnew := d.lt_size_alloc s
  have hne : d.table.size ≠ owner := hlt.ne'
  refine ⟨(Extends.alloc d.table s).trans hext, hsize.trans (Table.size_alloc d.table s), ?_, ?_, ?_, hlt,
    ?_, ?_, ?_, hprogs, hrepeats⟩
  · rw [hext.kind hnew, hget, hkind]
  · exact (hext.ownedBy_iff hnew).mpr (d.ownedBy_made howner)
  · exact (hext.name hnew).trans (congrArg Symbol.name hget)
  · have hempty := hfresh.roster_eq
    refine Prod.ext ((hlisted d.table.size).trans ?_) ((hdups d.table.size).trans ?_)
    · rw [if_neg fun h => hne h.1, append_nil, Table.listed, hget]
      exact congrArg Prod.fst hempty
    · rw [if_neg fun h => hne h.1, append_nil, hget]
      exact congrArg Prod.snd hempty
  · intro id hid
    rw [hlisted, Table.listed, Table.listed, hold hid]
  · intro id hid
    rw [hdups, hold hid]

theorem enrolls_entered (hfresh : s.Fresh) (hkind : s.kind = .program) (howner : s.owner = some owner)
    (hlt : owner < d.table.size) (hscope : ((d.table.get owner).scope? .programs).isSome = true)
    (htable : d'.table =
      (((d.alloc s).2.enterIn d.table.size (some (.slot owner .programs))).registerProgram d.table.size).table)
    (hprogs : d'.programs = d.programs ++ if owner = rootId then [d.table.size] else [])
    (hrepeats : d'.context.repeats.length = d.context.repeats.length) : Enrolls d d' owner s.name false := by
  have hentered : ((d.alloc s).2.enterIn d.table.size (some (.slot owner .programs))).table =
      (d.alloc s).2.table.enter (.slot owner .programs) d.table.size := rfl
  have hget : ∀ id, d'.table.get id = ((d.alloc s).2.table.enter (.slot owner .programs) d.table.size).get id := by
    intro id
    rw [htable]
    rfl
  have hscope' : (((d.alloc s).2.table.get owner).scope? .programs).isSome = true := by
    have hold : (d.alloc s).2.table.get owner = d.table.get owner := get_alloc_of_lt s hlt
    rw [hold, hscope]
  refine enrolls_of_alloc hfresh hkind howner hlt ?_ ?_ ?_ ?_ hprogs hrepeats
  · rw [htable]
    exact (Extends.enter (d.alloc s).2.table (.slot owner .programs) d.table.size).trans
      (Extends.of_get rfl fun _ => rfl)
  · rw [htable]
    exact size_enter (d.alloc s).2.table (.slot owner .programs) d.table.size
  · intro id
    have hlisted := listed_enterIn_slot (d := (d.alloc s).2) d.table.size owner .programs id .programs
    rw [hentered] at hlisted
    rw [Table.listed, hget, ← Table.listed, hlisted]
    simp [hscope']
  · intro id
    rw [hget, enter_slot]
    simp only [Bool.false_eq_true, and_false, if_false, append_nil]
    split
    · exact view_modify Symbol.duplicates (duplicates_mapScopes _ _) id
    · rfl

theorem enrolls_refused (hfresh : s.Fresh) (hkind : s.kind = .program) (howner : s.owner = some owner)
    (hlt : owner < d.table.size) (hprog : (d.table.get owner).kind = .program) (hroot : owner ≠ rootId)
    (htable : d'.table = ((d.alloc s).2.addDuplicate owner d.table.size).table) (hprogs : d'.programs = d.programs)
    (hrepeats : d'.context.repeats.length = d.context.repeats.length + 1) : Enrolls d d' owner s.name true := by
  have hquiet : Quiet (d.alloc s).2 ((d.alloc s).2.addDuplicate owner d.table.size) :=
    addDuplicate_quiet owner d.table.size
  have hold : (d.alloc s).2.table.get owner = d.table.get owner := get_alloc_of_lt s hlt
  refine enrolls_of_alloc hfresh hkind howner hlt ?_ ?_ ?_ ?_ ?_ hrepeats
  · rw [htable]
    exact extends_modify _ owner (identity_mapProgram _ _)
  · rw [htable]
    exact hquiet.size_eq
  · intro id
    rw [htable, hquiet.listed]
    simp
  · intro id
    rw [htable]
    by_cases hid : id = owner
    · subst hid
      have hnew : id < (d.alloc s).2.table.size := hlt.trans_le (Extends.alloc d.table s).size_le
      have hadded : ((d.alloc s).2.addDuplicate id d.table.size).table.get id =
          ((d.alloc s).2.table.get id).mapProgram fun data =>
            { data with duplicates := data.duplicates ++ [d.table.size] } :=
        get_modify_self _ hnew
      rw [hadded, hold, duplicates_addDuplicate (by rw [hprog]; rfl)]
      simp [hroot]
    · have hkept : ((d.alloc s).2.addDuplicate owner d.table.size).table.get id = (d.alloc s).2.table.get id :=
        get_modify_of_ne _ hid
      rw [hkept]
      simp [hid]
  · rw [hprogs, if_neg hroot, append_nil]

theorem enrolls_passed (hfresh : s.Fresh) (hkind : s.kind = .program) (howner : s.owner = some rootId)
    (hlt : rootId < d.table.size) (htable : d'.table = (d.alloc s).2.table)
    (hprogs : d'.programs = d.programs ++ [d.table.size])
    (hrepeats : d'.context.repeats.length = d.context.repeats.length + 1) : Enrolls d d' rootId s.name true := by
  refine enrolls_of_alloc hfresh hkind howner hlt ?_ (congrArg Table.size htable) ?_ ?_ ?_ hrepeats
  · rw [htable]
    exact Extends.refl _
  · intro id
    rw [htable]
    simp
  · intro id
    rw [htable]
    simp
  · rw [hprogs, if_pos rfl]

theorem length_repeats_open (d : Declarations) (taken : Bool) (header : ProgramHeader) (id : SymbolId) :
    ((if taken then d.report (.duplicateProgram header.name) header.position else d).openProgram
      id).context.repeats.length = d.context.repeats.length + if taken then 1 else 0 := by
  cases taken with
  | false => rfl
  | true =>
    have hrepeats : ((d.report (.duplicateProgram header.name) header.position).openProgram id).context.repeats =
        d.context.repeats ++ [⟨.duplicateProgram header.name, .error, ⟨d.context.file, header.position⟩⟩] := by
      simp [openProgram, report, Context.report, Context.push, Context.repeats, Problem.isRepeat]
    simp [hrepeats]

theorem taken_iff_listed (ht : d.table.Indexed) (hlt : owner < d.table.size) (name : String) :
    (((d.alloc s).2.table.scope? (.slot owner .programs)).any fun scope => !(scope.lookup name).isEmpty) = true ↔
      ∃ q ∈ d.table.listed owner .programs, d.table.name q = name := by
  have hold : (d.alloc s).2.table.scope? (.slot owner .programs) = (d.table.get owner).scope? .programs :=
    congrArg (Symbol.scope? · .programs) (get_alloc_of_lt s hlt)
  rw [hold]
  unfold Table.listed Symbol.listing
  cases hscope : (d.table.get owner).scope? .programs with
  | none => simp
  | some scope =>
    rw [Option.any_some, (ht.scopes owner .programs scope hscope).lookup]
    simp [filter_eq_nil_iff]

theorem Roll.exists_listed_iff (h : d.Roll start) (ht : d.table.Indexed) (howner : (d.table.get owner).kind = .program)
    (hstart : start ≤ owner) (name : String) :
    (∃ q ∈ d.table.listed owner .programs, d.table.name q = name) ↔
      ∃ q ∈ d.table.madePrograms start, d.table.OwnedBy q owner ∧ d.table.name q = name := by
  constructor
  · rintro ⟨q, hq, hname⟩
    have hle : start ≤ q := hstart.trans (ht.lt_of_listed hq).le
    obtain ⟨hkind, hown⟩ := h.housed owner (.inr howner) q hq hle
    exact ⟨q, mem_madePrograms.mpr ⟨hle, hkind⟩, hown, hname⟩
  · rintro ⟨q, hq, hown, hname⟩
    obtain ⟨r, hr, _, howner', hname', hfirst⟩ := exists_first hq
    have hown' : d.table.OwnedBy r owner := howner'.trans hown
    exact ⟨r, (h.placed r hr owner hown').1.mpr hfirst, hname'.trans hname⟩

end Enroll

/-- A program that starts in another one is entered there, or refused when its name is taken. -/
theorem enrolls_nested {program : SymbolId} (hhead : d.openPrograms.head? = some program) (hlt : program < d.table.size)
    (hkind : (d.table.get program).kind = .program) (hroot : program ≠ rootId) (ht : d.table.Indexed)
    (header : ProgramHeader) : ∃ taken, Enrolls d (d.startProgram header).2 program header.name taken ∧
      (taken = true ↔ ∃ q ∈ d.table.listed program .programs, d.table.name q = header.name) := by
  have hfresh : (programSymbol header program .nestedProgram).Fresh := fresh_programSymbol header program rfl
  obtain ⟨htable, -, hprogs⟩ := startProgram_nested hhead header
  have hrepeats : (d.startProgram header).2.context.repeats.length =
      (d.declareNested program header).2.2.context.repeats.length +
        if (d.declareNested program header).2.1 then 1 else 0 := by
    unfold Declarations.startProgram
    simp only [hhead]
    exact length_repeats_open _ _ header _
  have htaken := taken_iff_listed (s := programSymbol header program .nestedProgram) ht hlt header.name
  by_cases hcond : ((d.alloc (programSymbol header program .nestedProgram)).2.table.scope?
      (.slot program .programs)).any (fun scope => !(scope.lookup header.name).isEmpty) = true
  · have hmade : d.declareNested program header = (d.table.size, true,
        (d.alloc (programSymbol header program .nestedProgram)).2.addDuplicate program d.table.size) := if_pos hcond
    rw [hmade] at htable hprogs hrepeats
    exact ⟨true, enrolls_refused hfresh rfl rfl hlt hkind hroot htable hprogs hrepeats, fun _ => htaken.mp hcond,
      fun _ => rfl⟩
  · have hmade : d.declareNested program header = (d.table.size, false,
        ((d.alloc (programSymbol header program .nestedProgram)).2.enterIn d.table.size
          (some (.slot program .programs))).registerProgram d.table.size) := if_neg hcond
    rw [hmade] at htable hprogs hrepeats
    have hscope : ((d.table.get program).scope? .programs).isSome = true := by
      rw [isSome_scope?, hkind]
      rfl
    refine ⟨false, enrolls_entered hfresh rfl rfl hlt hscope htable ?_ hrepeats, nofun, fun h =>
      absurd (htaken.mpr h) hcond⟩
    rw [hprogs, if_neg hroot, append_nil]
    rfl

/-- A program that starts outside of programs is entered into the root, or refused when the unit has used its name. -/
theorem enrolls_topLevel (hhead : d.openPrograms.head? = none) (hroot : rootId < d.table.size)
    (hscope : ((d.table.get rootId).scope? .programs).isSome = true) (header : ProgramHeader) :
    ∃ taken, Enrolls d (d.startProgram header).2 rootId header.name taken ∧
      (taken = true ↔ ∃ q ∈ d.programs, d.table.name q = header.name) := by
  obtain ⟨htable, -, hprogs⟩ := startProgram_topLevel hhead header
  have hrepeats : (d.startProgram header).2.context.repeats.length =
      (d.declareTopLevel header).2.2.context.repeats.length + if (d.declareTopLevel header).2.1 then 1 else 0 := by
    unfold Declarations.startProgram
    simp only [hhead]
    exact length_repeats_open _ _ header _
  have htaken : (d.programs.any fun program => d.table.name program == header.name) = true ↔
      ∃ q ∈ d.programs, d.table.name q = header.name := by simp
  have hfresh : (programSymbol header rootId
      (if d.programs.isEmpty then .mainProgram else .stackedProgram)).Fresh :=
    fresh_programSymbol header _ (by split <;> rfl)
  by_cases hcond : (d.programs.any fun program => d.table.name program == header.name) = true
  · have hmade : (d.declareTopLevel header).2.1 = true ∧
        (d.declareTopLevel header).2.2.context.repeats = d.context.repeats ∧
        (d.declareTopLevel header).2.2.table = (d.alloc (programSymbol header rootId
          (if d.programs.isEmpty then .mainProgram else .stackedProgram))).2.table := by
      unfold declareTopLevel
      simp only [if_pos hcond]
      exact ⟨trivial, rfl, rfl⟩
    rw [hmade.1, hmade.2.1] at hrepeats
    rw [hmade.2.2] at htable
    exact ⟨true, enrolls_passed hfresh rfl rfl hroot htable hprogs hrepeats, fun _ => htaken.mp hcond,
      fun _ => rfl⟩
  · have hmade : (d.declareTopLevel header).2.1 = false ∧
        (d.declareTopLevel header).2.2.context.repeats = d.context.repeats ∧
        (d.declareTopLevel header).2.2.table = (((d.alloc (programSymbol header rootId
          (if d.programs.isEmpty then .mainProgram else .stackedProgram))).2.enterIn d.table.size
            (some (.slot rootId .programs))).registerProgram d.table.size).table := by
      unfold declareTopLevel
      simp only [if_neg hcond]
      exact ⟨trivial, rfl, rfl⟩
    rw [hmade.1, hmade.2.1] at hrepeats
    rw [hmade.2.2] at htable
    exact ⟨false, enrolls_entered hfresh rfl rfl hroot hscope htable hprogs hrepeats, nofun, fun h =>
      absurd (htaken.mpr h) hcond⟩

theorem Roll.startProgram (h : d.Roll start) (horderly : d.Orderly base) (hstart : start ≤ d.frontier)
    (header : ProgramHeader) : (d.startProgram header).2.Roll start := by
  have hsize : start ≤ d.table.size := hstart.trans horderly.toReady.frontier_le_size
  have hindexed := horderly.regular.indexed
  cases hhead : d.openPrograms.head? with
  | some program =>
    have hmem : program ∈ d.openPrograms := mem_of_mem_head? hhead
    obtain ⟨hbase, hlt, hkind⟩ := horderly.programs program hmem
    have hroot : program ≠ rootId := (horderly.sound.root_lt_base.trans_le hbase).ne'
    rw [horderly.toReady.frontier_eq (ne_nil_of_mem hmem)] at hstart
    obtain ⟨taken, henrolls, htaken⟩ := enrolls_nested hhead hlt hkind hroot hindexed header
    exact h.enrolled henrolls horderly.regular hsize
      (htaken.trans (h.exists_listed_iff hindexed hkind (hstart.trans hbase) header.name))
  | none =>
    have hroot : rootId < d.table.size := horderly.sound.root_lt
    have hscope : ((d.table.get rootId).scope? .programs).isSome = true := by
      rcases (horderly.sound.root rootId).mpr rfl with hkind | hkind <;> rw [isSome_scope?, hkind] <;> rfl
    obtain ⟨taken, henrolls, htaken⟩ := enrolls_topLevel hhead hroot hscope header
    refine h.enrolled henrolls horderly.regular hsize (htaken.trans (exists_congr fun q => ?_))
    rw [h.programs, and_assoc]

/-- Every step keeps the lists of programs in order. -/
theorem Roll.step (h : d.Roll start) (horderly : d.Orderly base) (hplace : d.table.InPlace)
    (hstart : start ≤ d.frontier) (hstep : Step d d') : d'.Roll start := by
  rcases horderly.toReady.sparesPrograms_step hplace hstep with hspares | ⟨header, rfl⟩
  · exact h.spared hspares horderly.regular.tidy.ordered horderly.sound.root_lt
      (hstart.trans horderly.toReady.frontier_le_size)
  · exact h.startProgram horderly hstart header

theorem Roll.steps (h : d.Roll start) (horderly : d.Orderly base) (hplace : d.table.InPlace)
    (hstart : start ≤ d.frontier) (hsteps : Steps d d') : d'.Roll start := by
  have hkept := hsteps.keep
    (P := fun d' => (∃ base, d'.Orderly base) ∧ d'.table.InPlace ∧ start ≤ d'.frontier ∧ d'.Roll start)
    (fun hstep ⟨⟨base', hd⟩, hplace, hle, hroll⟩ =>
      ⟨(hd.step hstep).orderly, hd.toReady.inPlace_step hplace hstep, hle.trans (hd.step_spares hstep).2,
        hroll.step hd hplace hle hstep⟩)
    ⟨⟨base, horderly⟩, hplace, hstart, h⟩
  exact hkept.2.2.2

/-- Before anything is read there are no programs of the unit. -/
theorem roll_start {c : Context} (ht : c.table.Regular) (hrepeats : c.repeats = []) :
    ({ context := c } : Declarations).Roll c.table.size := by
  have hmade : ({ context := c } : Declarations).table.madePrograms c.table.size = [] := by
    rw [eq_nil_iff_forall_not_mem]
    intro p hp
    obtain ⟨hle, hkind⟩ := mem_madePrograms.mp hp
    exact absurd (lt_size_of_program hkind) hle.not_gt
  refine ⟨?_, ?_, ?_, ?_, ?_⟩
  · simp [hmade]
  · simp [hmade]
  · intro o _ p hp hle
    exact absurd (ht.lt_of_mem_contents ((listing_sublist _ _).subset hp)) hle.not_gt
  · simp [hmade]
  · rw [hmade]
    exact congrArg List.length hrepeats

variable (h : d.Roll start)
include h

/-- What a level of programs lists of the unit has distinct names. -/
theorem Roll.nodup_names (ht : d.table.Regular) (ho : o = rootId ∨ (d.table.get o).kind = .program) :
    (((d.table.listed o .programs).filter (start ≤ ·)).map d.table.name).Nodup := by
  -- of two programs with one name the later one is not the first
  have hfirst : ∀ p ∈ d.table.listed o .programs, start ≤ p → ∀ q ∈ d.table.listed o .programs, start ≤ q →
      d.table.name p = d.table.name q → ¬ p < q := by
    intro p hp hple q hq hqle hname hlt
    obtain ⟨hpkind, hpown⟩ := h.housed o ho p hp hple
    obtain ⟨hqkind, hqown⟩ := h.housed o ho q hq hqle
    have hqfirst := (h.placed q (mem_madePrograms.mpr ⟨hqle, hqkind⟩) o hqown).1.mp hq
    exact isFirst_iff.mp hqfirst p (mem_madePrograms.mpr ⟨hple, hpkind⟩) hlt (hpown.trans hqown.symm) hname
  have hnodup : (d.table.listed o .programs).Nodup := (ht.nodup_contents o).sublist (listing_sublist _ _)
  refine (hnodup.filter _).map_on fun p hp q hq hname => ?_
  obtain ⟨hp, hple⟩ := mem_filter.mp hp
  obtain ⟨hq, hqle⟩ := mem_filter.mp hq
  have hple : start ≤ p := of_decide_eq_true hple
  have hqle : start ≤ q := of_decide_eq_true hqle
  exact (not_lt.mp (hfirst q hq hqle p hp hple hname.symm)).antisymm
    (not_lt.mp (hfirst p hp hple q hq hqle hname))

theorem Roll.unique_entries (ht : d.table.Regular)
    (hp : p ∈ d.table.madePrograms start) : ∃ scope, (d.table.get p).scope? .programs = some scope ∧
      (scope.order.map d.table.name).Nodup ∧ ∀ name, (scope.lookup name).length ≤ 1 := by
  obtain ⟨hle, hkind⟩ := mem_madePrograms.mp hp
  have hsome : ((d.table.get p).scope? .programs).isSome = true := by
    rw [isSome_scope?, hkind]
    rfl
  obtain ⟨scope, hscope⟩ := Option.isSome_iff_exists.mp hsome
  have hlisted : d.table.listed p .programs = scope.order := by
    unfold Table.listed Symbol.listing
    rw [hscope]
    rfl
  have hnodup := h.nodup_names ht (.inr hkind)
  have hall : (d.table.listed p .programs).filter (start ≤ ·) = d.table.listed p .programs :=
    filter_eq_self.mpr fun q hq => decide_eq_true (hle.trans (ht.indexed.lt_of_listed hq).le)
  rw [hall, hlisted] at hnodup
  refine ⟨scope, hscope, hnodup, fun name => ?_⟩
  rw [(ht.indexed.scopes p .programs scope hscope).lookup, ← countP_eq_length_filter]
  have hcount := nodup_iff_count_le_one.mp hnodup name
  rwa [List.count, countP_map] at hcount

theorem Roll.mem_rejected_iff : p ∈ d.table.rejected d.programs ↔
    p ∈ d.table.madePrograms start ∧ d.table.OwnedBy p rootId ∧ d.table.isFirst start p = false := by
  rw [mem_rejected, h.programs, not_isFirst_iff, and_assoc]
  refine and_congr_right fun _ => and_congr_right fun hown => exists_congr fun q => ?_
  rw [h.programs, hown, and_assoc]
  exact and_congr_right fun _ => and_left_comm

theorem Roll.place (hp : p ∈ d.table.madePrograms start) (hown : d.table.OwnedBy p o) :
    [decide (p ∈ d.table.listed o .programs), decide (p ∈ (d.table.get o).duplicates),
      decide (p ∈ d.table.rejected d.programs)].count true = 1 := by
  simp only [h.placed p hp o hown, h.mem_rejected_iff, hp, hown.iff_eq, true_and]
  by_cases ho : o = rootId <;> cases d.table.isFirst start p <;> simp [ho]

theorem Roll.set_aside (hp : p ∈ d.table.madePrograms start) :
    (d.table.isDuplicate p || (d.table.rejected d.programs).contains p) = !d.table.isFirst start p := by
  obtain ⟨o, hown⟩ := h.owned p hp
  have hdup : d.table.isDuplicate p = decide (p ∈ (d.table.get o).duplicates) := by
    unfold Table.isDuplicate
    rw [hown, Option.any_some, contains_eq_mem]
  simp only [hdup, contains_eq_mem, h.placed p hp o hown, h.mem_rejected_iff, hp, hown.iff_eq, true_and]
  by_cases ho : o = rootId <;> cases d.table.isFirst start p <;> simp [ho]

end Declarations

namespace Session

/-- Programs of one level have different names. The first program of a name is entered into its owner, and those that
follow are set aside and reported. -/
theorem program_names_unique (options : Options) (actions : List Action) (file : FileId) (events : List Event) :
    let s := reached options actions
    let built := (s.compile file events).1
    let t := (s.compile file events).2.table
    let made := t.madePrograms s.table.size
    (∀ program ∈ made, ∃ scope, (t.get program).scope? .programs = some scope ∧
      (scope.order.map t.name).Nodup ∧ ∀ name, (scope.lookup name).length ≤ 1) ∧
    (((t.listed rootId .programs).filter (s.table.size ≤ ·)).map t.name).Nodup ∧
    (∀ program ∈ made, ∃ owner, t.OwnedBy program owner ∧
      [decide (program ∈ t.listed owner .programs), decide (program ∈ (t.get owner).duplicates),
        decide (program ∈ t.rejected built.programs)].count true = 1 ∧
      (program ∈ t.listed owner .programs ↔ t.isFirst s.table.size program = true)) ∧
    built.diagnostics.countP (fun diagnostic => diagnostic.problem.isRepeat) =
      made.countP fun program => t.isDuplicate program || (t.rejected built.programs).contains program := by
  intro s built t made
  have hregular : s.Regular := regular_reached options actions
  have horderly := Declarations.orderly_start (c := { s.context with file }) hregular.sound hregular.table
  have hsteps := Build.unit_steps { s.context with file } events
  obtain ⟨_, hclosed⟩ := (horderly.steps hsteps).orderly
  have hrepeats : ({ s.context with file } : Context).repeats = [] := by
    unfold Context.repeats
    rw [(context_reached options actions).2]
    rfl
  have hroll := (Declarations.roll_start (c := { s.context with file }) hregular.table hrepeats).steps horderly
    (inPlace_reached options actions) (Nat.le_refl _) hsteps
  refine ⟨?_, hroll.nodup_names hclosed.regular (.inl rfl), ?_, ?_⟩
  · exact fun program hprogram => hroll.unique_entries hclosed.regular hprogram
  · intro program hprogram
    obtain ⟨owner, hown⟩ := hroll.owned program hprogram
    exact ⟨owner, hown, hroll.place hprogram hown, (hroll.placed program hprogram owner hown).1⟩
  · rw [countP_eq_length_filter]
    refine hroll.repeats.trans (countP_congr fun program hprogram => ?_)
    exact Bool.eq_iff_iff.mp (hroll.set_aside hprogram).symm

end Session

/-- A program with two programs of one name in it, and after it another program of its own name. -/
def repeatedPrograms : List Event :=
  [.startProgram { name := "P", position := ⟨1, 8⟩ },
    .startProgram { name := "Q", position := ⟨2, 8⟩ }, .endProgram none,
    .startProgram { name := "Q", position := ⟨3, 8⟩ }, .endProgram none, .endProgram none,
    .startProgram { name := "P", position := ⟨4, 8⟩ },
    .startProgram { name := "Q", position := ⟨5, 8⟩ }, .endProgram none, .endProgram none]

theorem program_names_unique_repeated :
    let s := Session.reached {} [.build ⟨false, 0, repeatedPrograms⟩]
    let unit := s.compile 1 repeatedPrograms
    unit.2.table.madePrograms s.table.size = [15, 16, 17, 18, 19] ∧
      (∃ owner, unit.2.table.OwnedBy 17 owner ∧ 17 ∉ unit.2.table.listed owner .programs) ∧
      unit.1.diagnostics.countP (fun diagnostic => diagnostic.problem.isRepeat) = 2 := by
  intro s unit
  have hmade : unit.2.table.madePrograms s.table.size = [15, 16, 17, 18, 19] := by decide +kernel
  obtain ⟨-, -, hplaces, hcount⟩ :=
    Session.program_names_unique {} [.build ⟨false, 0, repeatedPrograms⟩] 1 repeatedPrograms
  have hlater : unit.2.table.isFirst s.table.size 17 = false := by decide +kernel
  obtain ⟨owner, hown, -, hfirst⟩ := hplaces 17 (by decide +kernel)
  have htwo : (unit.2.table.madePrograms s.table.size).countP (fun program =>
      unit.2.table.isDuplicate program || (unit.2.table.rejected unit.1.programs).contains program) = 2 := by
    decide +kernel
  refine ⟨hmade, ⟨owner, hown, fun hlisted => Bool.eq_false_iff.mp hlater (hfirst.mp hlisted)⟩, ?_⟩
  rw [hcount]
  exact htwo

end CobolSymbols
