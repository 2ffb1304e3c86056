import CobolSymbols.Proofs.Build.Growth
import CobolSymbols.Proofs.Build.Ready

/-!
# Programs and procedures grow by settled symbols

A record is settled in the program or procedure that is being read, and so are the parameters of a procedure, sections,
paragraphs, procedures and nested programs. A program that lies in no other one belongs to the root; it is settled but
for that. Linking a unit changes nothing that the ledger tells.
-/

set_option autoImplicit false

namespace CobolSymbols

open Symbol Table SymbolKind

namespace Declarations

variable {base : Nat} {d d' : Declarations} {id scope : SymbolId}

section Records

section

variable (h : d.Scoped base scope)
include h

theorem Scoped.isSome_scope? {slot : ScopeSlot} (hslot : slot ≠ .namespaces) :
    (d.table.scope? (.slot scope slot)).isSome = true := by
  have hscope : ((d.table.get scope).scope? slot).isSome = true := by
    rw [Symbol.isSome_scope?]
    exact hasScope_of_isProgramLike h.kind hslot
  exact hscope

theorem Scoped.lodges_types : d.Lodges ⟨some (.slot scope .types), none⟩ scope where
  scope ref href := by
    cases href
    exact h.isSome_scope? (by simp)
  outside := nofun
  stored o slot href hslot := by
    cases href
    exact absurd rfl hslot
  field := nofun

theorem Scoped.lodges_section {kept : StorageSection} (hstorage : d.storage = some kept) :
    d.Lodges ⟨some (.slot scope kept.slot), none⟩ scope where
  scope ref href := by
    cases href
    refine h.isSome_scope? ?_
    cases kept <;> simp [StorageSection.slot]
  outside := nofun
  stored _ _ _ _ := ⟨by simp [hstorage], rfl⟩
  field := nofun

theorem Scoped.lodges_top {tree : Tree}
    (hkind : ∀ entry, tree.node.kind ≠ .typeDefinition entry) : d.Lodges ⟨d.topParent tree scope, none⟩ scope := by
  rw [topParent_of_item hkind]
  cases hstorage : d.storage with
  | none =>
    refine ⟨nofun, fun _ => ⟨hstorage, h.kind⟩, nofun, nofun⟩
  | some kept => exact h.lodges_section hstorage

theorem declareTop_grows (ht : d.table.Tidy) (tree : Tree) : Grows base d (d.declareTop tree scope).2 := by
  by_cases htype : ∃ entry, tree.node.kind = .typeDefinition entry
  · obtain ⟨entry, hkind⟩ := htype
    rw [declareTop_of_type hkind]
    exact declareItem_grows (h.accepts_type _ _) h.lodges_types ht nofun tree.children
      (fieldsGrow_declareFields tree.children _ _) (fieldsMove_declareFields tree.children _ _)
  · have hkind : ∀ entry, tree.node.kind ≠ .typeDefinition entry := fun entry heq => htype ⟨entry, heq⟩
    rw [declareTop_of_item hkind]
    exact declareNode_grows (h.fits_top hkind) (h.lodges_top hkind) ht (topParent_ne_types hkind scope) tree.node
      tree.children (fieldsGrow_declareFields tree.children _ _) (fieldsMove_declareFields tree.children _ _)

end

theorem Checks.grows (h : Checks d d') (ht : d.table.Tidy) : Grows base d d' := by
  induction h with
  | refl => exact Grows.refl ht
  | report _ c htold ih => exact ih.trans (context_grows ih.tidy htold.table)
  | range _ pair _ range ih =>
    refine ih.trans (modify_grows_of_fields ih.tidy (identity_mapItem _ _ (ItemData.setRange_level range)
      (ItemData.setRange_core range)) (stance_mapItem _ fun data => ?_)
      (congrArg (Option.bind · DataType.fields?) (mapItem_type _ _)))
    unfold ItemData.setRange
    split <;> rfl

theorem clearRenames_grows (ht : d.table.Tidy) : Grows base d d.clearRenames := ⟨Table.Grows.refl ht, rfl⟩

/-- A record is settled in the program or procedure being read. -/
theorem declareRecord_grows (h : d.Scoped base scope) (ht : d.table.Tidy) (tree : Tree) :
    Grows base d (d.declareRecord tree).2 := by
  have hclear : Grows base d d.clearRenames := clearRenames_grows ht
  have hmoves : Moves base d.table.size none d d.clearRenames := clearRenames_moves d
  have hscoped := h.moves hmoves
  have htop := hclear.trans (declareTop_grows hscoped hclear.tidy tree)
  have hchecked := htop.trans ((checkRenames_checks _).grows htop.tidy)
  rw [declareRecord_of_some h.current]
  exact hchecked.trans (clearRenames_grows hchecked.tidy)

end Records

section Parameters

theorem declareParameters_grows (forest : Forest) (signature : Signature) (d : Declarations) (h : d.Scoped base scope)
    (ht : d.table.Tidy) (hstorage : d.storage = some .linkage) :
    Grows base d (declareParameters (.slot scope .linkage) forest signature d).2.2 := by
  induction forest generalizing signature d with
  | nil => exact Grows.refl ht
  | cons node children siblings _ ih =>
    unfold declareParameters
    split
    · rename_i entry direction _
      have hitem : Grows base d (d.declareItem entry .plain ⟨some (.slot scope .linkage), none⟩ children
          fun place d => declareFields children place d).2.2 :=
        declarePlain_grows h.fits_linkage (h.lodges_section hstorage) ht (by simp) (show ItemKind.plain.isType = false ∧ ItemKind.plain.symbolKind ≠ .renames from ⟨rfl, nofun⟩)
          nofun children
          (fieldsGrow_declareFields children _ _) (fieldsMove_declareFields children _ _)
      obtain ⟨hmoves, hlt⟩ := parameter_moves h entry children
      have hflags := @addFlags_grows base _ (d.declareItem entry .plain ⟨some (.slot scope .linkage), none⟩ children
          fun place d => declareFields children place d).1 hitem.tidy _ (avoids_parameterFlag direction).neutral
      have hflagged := hitem.trans hflags
      refine hflagged.trans (ih _ _ ?_ hflagged.tidy (hflagged.storage.trans hstorage))
      have hmoves' := hmoves.trans (addFlags_moves (h.base_le.trans h.lt.le) hlt
        (avoids_parameterFlag direction))
      exact h.moves hmoves'
    · exact ih signature d h ht hstorage

theorem Resolves.grows (h : Resolves scope d d') (ht : d.table.Tidy) : Grows base d d' := by
  induction h with
  | refl => exact Grows.refl ht
  | report _ c htold ih => exact ih.trans (context_grows ih.tidy htold.table)
  | flag _ id flags _ hpassing ih => exact ih.trans (addFlags_grows ih.tidy hpassing.neutral)

theorem setSignature_grows (ht : d.table.Tidy) (hkind : (d.table.get id).kind.isProgramLike = true)
    (signature : Signature) : Grows base d (d.setSignature id signature) := by
  have hnone : (d.table.get id).fields? = none := by
    cases hfields : (d.table.get id).fields? with
    | none => rfl
    | some fields => exact absurd hkind (not_isProgramLike_of_isItem (ht.groups id (by simp [hfields])))
  refine modify_grows ht rfl (stance_setType ?_) ?_ (by cases ·)
  · have hbefore : (d.table.get id).fieldList = [] := by simp [fieldList, hnone]
    rw [hbefore]
    rfl
  · rw [hnone]
    simp

/-- A procedure division makes no symbols. -/
theorem startProcedureDivision_grows (ht : d.table.Tidy) (header : ProcedureHeader) :
    Table.Grows base d.table (d.startProcedureDivision header).table := by
  rcases startProcedureDivision_cases d header with heq | ⟨scope, found, signature, _, hkind, hfound, heq⟩
  · rw [heq]
    exact Table.Grows.refl ht
  · have hprog : (d.table.get scope).kind.isProgramLike = true := by rw [hkind]; rfl
    have hgrown : Grows base { d with storage := none } found := hfound.grows ht
    rw [heq]
    refine (hgrown.trans (setSignature_grows hgrown.tidy ?_ signature)).toGrows
    rw [hgrown.kind (lt_size_of_isProgramLike hprog)]
    exact hprog

end Parameters

section Scopes

variable {container owner : SymbolId} {programs : String → Nat} {s : Symbol} {slot : ScopeSlot}

/-- A symbol that is no data item and tells that it is entered once is settled. -/
theorem settled_of_ledger {t : Table}
    {storage : Option StorageSection} (hitem : (t.get id).kind.isItem = false) (hown : t.OwnedBy id owner)
    (hbase : base ≤ owner) (howner : (t.get owner).kind.isItem = false) (hcont : base ≤ container)
    (hlt : container < id)
    (hentered : owner = container ∨ (t.get id).kind = .paragraph ∧ (t.get container).kind.isProgramLike = true)
    (hledger : t.ledger id =
      { Ledger.blank with listed := fun c => if c = container then 1 else 0, programs, storage })
    (hprogs : ∀ name, programs name ≤
      if (t.get id).kind.isProgramLike = true ∧ name = t.name id then 1 else 0) : t.Settled base id where
  present := by
    rw [hledger]
    rfl
  owner := ⟨owner, hown, hbase, fun h => absurd h (by simp [howner])⟩
  entered _ := by
    refine ⟨container, hcont, ?_, hlt, ?_⟩
    · intro c
      rw [hledger]
    · rcases hentered with heq | hparagraph
      · exact .inl (heq ▸ hown)
      · exact .inr hparagraph
  aside h := absurd h.item (by simp [hitem])
  slot := by
    rw [hledger]
    simp [Ledger.blank, hitem]
  types name := by
    have hkind : (t.get id).kind ≠ .typeDefinition := by
      intro hkind
      rw [hkind] at hitem
      cases hitem
    rw [hledger]
    simp [Ledger.blank, hkind]
  programs name := by
    rw [hledger]
    exact hprogs name

/-- What is known of a new symbol that is no data item. -/
structure NewScope (d : Declarations) (base : Nat) (s : Symbol) (owner : SymbolId) : Prop where
  tidy : d.table.Tidy
  fresh : s.Fresh
  present : s.isRemoved = false
  item : s.kind.isItem = false
  joins : d.table.Joins base s owner
  base_le : base ≤ owner
  owner_kind : (d.table.get owner).kind.isItem = false

section

variable (h : d.NewScope base s owner)
include h

theorem NewScope.ledger_alloc :
    (d.alloc s).2.table.ledger d.table.size = { Ledger.blank with storage := s.flags.storage? } :=
  h.tidy.ledger_alloc h.fresh.contents_eq h.fresh.slot?_eq h.present

theorem NewScope.alloc_moves : Moves base d.table.size none d (d.alloc s).2 :=
  (Move.alloc d s owner h.fresh h.joins fun _ htarget => by
    have hitem := h.item
    rw [kind_of_redefined? htarget] at hitem
    cases hitem).moves

theorem NewScope.tidy_alloc :
    (d.alloc s).2.table.Tidy := Declarations.tidy_alloc h.tidy h.fresh (h.alloc_moves.ordered h.tidy.ordered)

end

theorem NewScope.lt (_ : d.NewScope base s owner) : d.table.size < (d.alloc s).2.table.size :=
  d.lt_size_alloc s

section

variable (h : d.NewScope base s owner)
include h

/-- A new symbol is settled once it is entered into a symbol of the unit. -/
theorem NewScope.grows
    (htouches : Touches d.table.size (d.alloc s).2.table d'.table) (hcont : base ≤ container)
    (hlt : container < d.table.size)
    (hentered : owner = container ∨ s.kind = .paragraph ∧ (d.table.get container).kind.isProgramLike = true)
    (hledger : d'.table.ledger d.table.size = { (d.alloc s).2.table.ledger d.table.size with
      listed := fun c => ((d.alloc s).2.table.ledger d.table.size).listed c + if c = container then 1 else 0
      programs := programs })
    (hprogs : ∀ name, programs name ≤ if s.kind.isProgramLike = true ∧ name = s.name then 1 else 0) :
    Table.Grows base d.table d'.table := by
  have hget := d.get_made s
  have hext := h.alloc_moves.extends.trans htouches.toExtends
  have hkind : (d'.table.get d.table.size).kind = s.kind := by rw [htouches.kind h.lt, hget]
  refine Table.Grows.settle h.fresh.contents_eq (Table.Grows.refl h.tidy_alloc) htouches ?_
  have hplaced : d'.table.ledger d.table.size =
      { Ledger.blank with
        listed := fun c => if c = container then 1 else 0
        programs
        storage := s.flags.storage? } := by
    rw [hledger, h.ledger_alloc]
    simp [Ledger.blank]
  refine settled_of_ledger ?_ ?_ h.base_le ?_ hcont hlt ?_ hplaced ?_
  · rw [hkind, h.item]
  · exact (htouches.ownedBy_iff h.lt).mpr (d.ownedBy_made h.joins.owner_eq)
  · rw [hext.kind h.joins.owner_lt, h.owner_kind]
  · rw [hkind, hext.kind hlt]
    exact hentered
  · intro name
    have hname : d'.table.name d.table.size = s.name := by
      rw [Table.name, htouches.name h.lt, hget]
    rw [hkind, hname]
    exact hprogs name

/-- A new symbol that is found among no programs. -/
theorem NewScope.programs_eq (name : String) : ((d.alloc s).2.table.ledger d.table.size).programs name = 0 := by
  rw [h.ledger_alloc]
  rfl

theorem NewScope.enterIn_grows (hcont : base ≤ container)
    (hscope : (d.table.scope? (.slot container slot)).isSome = true)
    (hentered : owner = container ∨ s.kind = .paragraph ∧ (d.table.get container).kind.isProgramLike = true) :
    Table.Grows base d.table ((d.alloc s).2.enterIn d.table.size (some (.slot container slot))).table := by
  have hscope' := isSome_scope?_alloc s hscope
  have hledger := ledger_enter hscope' d.table.size d.table.size
  rw [if_pos rfl] at hledger
  refine h.grows (h.tidy_alloc.enter hscope' h.lt) hcont (lt_size_of_scope? hscope) hentered hledger ?_
  intro name
  rw [h.programs_eq]
  exact Nat.zero_le _

/-- A new program or procedure is entered into the scope of its owner and can be found by name. -/
theorem NewScope.registerProgram_grows
    (hscope : (d.table.scope? (.slot owner slot)).isSome = true) (hkind : s.kind.isProgramLike = true) :
    Table.Grows base d.table
      (((d.alloc s).2.enterIn d.table.size (some (.slot owner slot))).registerProgram d.table.size).table := by
  have hscope' := isSome_scope?_alloc s hscope
  have hentered := h.tidy_alloc.enter hscope' h.lt
  have hlt := hentered.size_eq ▸ h.lt
  have hledger := ledger_registerProgram ((d.alloc s).2.table.enter (.slot owner slot) d.table.size)
    d.table.size d.table.size
  rw [if_pos rfl, ledger_enter hscope', if_pos rfl] at hledger
  refine h.grows (hentered.trans (hentered.tidy.register hlt).2) h.base_le h.joins.owner_lt (.inl rfl) hledger ?_
  intro name
  have hname : ((d.alloc s).2.table.enter (.slot owner slot) d.table.size).name d.table.size = s.name := by
    rw [Table.name, hentered.name h.lt]
    exact congrArg Symbol.name (get_alloc_self d.table s)
  have hnone := h.programs_eq name
  simp only [Ledger.list, hname, hnone, hkind]
  simp

/-- A nested program that is refused is kept by the program around it. -/
theorem NewScope.addDuplicate_grows (hkind : (d.table.get owner).kind.isProgramLike = true) :
    Table.Grows base d.table ((d.alloc s).2.addDuplicate owner d.table.size).table := by
  have hkind' : ((d.alloc s).2.table.get owner).kind.isProgramLike = true := by
    rw [h.alloc_moves.extends.kind h.joins.owner_lt, hkind]
  have hledger := ledger_addDuplicate hkind' d.table.size d.table.size
  rw [if_pos rfl] at hledger
  refine h.grows (h.tidy_alloc.addDuplicate hkind' h.lt) h.base_le h.joins.owner_lt (.inl rfl) hledger ?_
  intro name
  rw [h.programs_eq]
  exact Nat.zero_le _

end

section

variable (h : d.Scoped base scope) (ht : d.table.Tidy)
include h ht

theorem Scoped.newScope (hfresh : s.Fresh) (hpresent : s.isRemoved = false) (hitem : s.kind.isItem = false)
    (howner : s.owner = some scope) (htype : s.kind ≠ .typeDefinition) : d.NewScope base s scope where
  tidy := ht
  fresh := hfresh
  present := hpresent
  item := hitem
  joins := ⟨howner, h.lt, .inl h.base_le, fun _ => isScope_of_isProgramLike h.kind,
    fun hkind => absurd hkind htype⟩
  base_le := h.base_le
  owner_kind := by
    cases hkind : (d.table.get scope).kind.isItem with
    | false => rfl
    | true => exact absurd h.kind (not_isProgramLike_of_isItem hkind)

theorem startHeading_grows (heading : SectionHeading) : Table.Grows base d.table (d.startHeading heading).2.table := by
  unfold startHeading
  simp only [h.current]
  have hnew : d.NewScope base (headingSymbol heading scope) scope :=
    h.newScope ht (fresh_of_body (.inl rfl) (.inl rfl) SymbolFlags.avoids_empty) (FlagSet.has_empty _) rfl rfl nofun
  exact hnew.enterIn_grows h.base_le (h.isSome_scope? (by simp)) (.inl rfl)

/-- A paragraph is entered into the program or procedure, and belongs to the open section if there is one. -/
theorem startParagraph_grows
    (hheading : ∀ id, d.heading = some id → base ≤ id ∧ id < d.table.size ∧ (d.table.get id).kind = .heading)
    (heading : ParagraphHeading) : Table.Grows base d.table (d.startParagraph heading).2.table := by
  have hnew : d.NewScope base (d.paragraphSymbol heading scope) (d.heading.getD scope) := by
    cases hopen : d.heading with
    | none =>
      refine h.newScope ht (fresh_of_body (.inl rfl) (.inr (.inl ⟨_, rfl⟩)) SymbolFlags.avoids_empty) (FlagSet.has_empty _) rfl ?_ (by cases ·)
      simp [paragraphSymbol, hopen]
    | some id =>
      obtain ⟨hbase, hlt, hkind⟩ := hheading id hopen
      refine ⟨ht, fresh_of_body (.inl rfl) (.inr (.inl ⟨_, rfl⟩)) SymbolFlags.avoids_empty, FlagSet.has_empty _, rfl,
        ⟨?_, hlt, .inl hbase, (by cases ·), (by cases ·)⟩, hbase, ?_⟩
      · simp [paragraphSymbol, hopen]
      · have hkind' : (d.table.get ((some id).getD scope)).kind = .heading := hkind
        rw [hkind']
        rfl
  unfold startParagraph
  simp only [h.current]
  exact hnew.enterIn_grows h.base_le (h.isSome_scope? (by simp)) (.inr ⟨rfl, h.kind⟩)

theorem procedure_grows (header : DeclaredProcedure) :
    Table.Grows base d.table (d.openProcedure header scope).2.table := by
  have hpresent : (procedureSymbol header scope).isRemoved = false := by
    have hflags : (procedureSymbol header scope).flags = .single header.visibility.flag := rfl
    rw [Symbol.isRemoved, hflags, SymbolFlag.has_single]
    cases header.visibility <;> rfl
  exact (h.newScope ht (fresh_procedureSymbol header scope) hpresent rfl rfl (by cases ·)).registerProgram_grows
    (h.isSome_scope? (by simp)) rfl

end

theorem Ready.startProcedure_grows (h : d.Ready base) (hscope : d.currentScope = some scope) (ht : d.table.Tidy)
    (header : DeclaredProcedure) (parameters : Forest) :
    Table.Grows base d.table (d.startProcedure header parameters).2.2.table := by
  have hopen := procedure_grows (h.scoped hscope) ht header
  have hscoped := h.scoped_linkage hscope header
  have hparams := declareParameters_grows parameters {} _ hscoped hopen.tidy rfl
  have hmoves := declareParameters_moves parameters {} _ hscoped le_rfl
  unfold Declarations.startProcedure
  simp only [hscope]
  exact hopen.trans hopen.tidy.ordered
    (hparams.trans (setSignature_grows hparams.tidy (hscoped.moves hmoves).kind _)).toGrows

theorem declareNested_grows {program : SymbolId} (ht : d.table.Tidy) (hlt : program < d.table.size) (hbase : base ≤ program)
    (hkind : (d.table.get program).kind = .program) (header : ProgramHeader) :
    Table.Grows base d.table (d.declareNested program header).2.2.table := by
  have hprog : (d.table.get program).kind.isProgramLike = true := by rw [hkind]; rfl
  have hnew : d.NewScope base (programSymbol header program .nestedProgram) program := by
    refine ⟨ht, fresh_programSymbol header program rfl, ?_, rfl,
      ⟨rfl, hlt, .inl hbase, ?_, nofun⟩, hbase, ?_⟩
    · have hflags : (programSymbol header program .nestedProgram).flags = .single .nestedProgram := rfl
      rw [Symbol.isRemoved, hflags, SymbolFlag.has_single]
      rfl
    · exact fun _ => isScope_of_isProgramLike hprog
    · rw [hkind]
      rfl
  have hscope : (d.table.scope? (.slot program .programs)).isSome = true := by
    have hsome : ((d.table.get program).scope? .programs).isSome = true := by
      rw [isSome_scope?]
      exact hasScope_of_isProgramLike hprog (by simp)
    exact hsome
  unfold declareNested
  simp only
  split
  · exact hnew.addDuplicate_grows hprog
  · exact hnew.registerProgram_grows hscope rfl

end Scopes

end Declarations

end CobolSymbols
