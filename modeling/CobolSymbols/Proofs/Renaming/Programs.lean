import CobolSymbols.Proofs.Renaming.Data
import CobolSymbols.Proofs.Renaming.Link

/-!
# Programs and procedures under other numbers

Opening and closing programs and procedures leaves declarations alike. A nested program looks for its name among the
programs of the one around it; that is never the root, whose programs may differ.
-/

set_option autoImplicit false

namespace CobolSymbols.Declarations.Alike

open List Option Table

variable {ρ : SymbolId → SymbolId} {base : Nat} {d d' : Declarations}

section Programs

variable (h : d.Alike ρ d')
include h

theorem alloc_program (header : ProgramHeader) (owner : SymbolId) (place : SymbolFlag) :
    Returns ρ (Alike ρ) (d.alloc (programSymbol header owner place)) (d'.alloc (programSymbol header (ρ owner) place)) :=
  h.alloc ⟨rfl, rfl, rfl, rfl, rfl, .program {}⟩

theorem addDuplicate (parent id : SymbolId) :
    (d.addDuplicate parent id).Alike ρ (d'.addDuplicate (ρ parent) (ρ id)) := by
  refine h.modify ((h.table.get parent).mapProgram fun data => ?_)
  simp [ProgramData.rename]

theorem declareNested {parent : SymbolId} (hlt : parent < d.table.size)
    (hkind : (d.table.get parent).kind = .program) (header : ProgramHeader) :
    (d'.declareNested (ρ parent) header).1 = ρ (d.declareNested parent header).1 ∧
      (d'.declareNested (ρ parent) header).2.1 = (d.declareNested parent header).2.1 ∧
      (d.declareNested parent header).2.2.Alike ρ (d'.declareNested (ρ parent) header).2.2 := by
  obtain ⟨hid, hmade⟩ := h.alloc_program header parent .nestedProgram
  have hget : (d.alloc (programSymbol header parent .nestedProgram)).2.table.get parent = d.table.get parent :=
    get_alloc_of_lt _ hlt
  have hslot : ∀ owner slot, ScopeRef.slot parent .programs = .slot owner slot →
      slot ≠ .programs ∧ slot ≠ .namespaces ∨
        ((d.alloc (programSymbol header parent .nestedProgram)).2.table.get owner).kind ≠ .root := by
    intro owner slot href
    cases href
    rw [hget, hkind]
    exact .inr nofun
  have hscope := hmade.table.scope? hslot
  have htaken : ((d'.alloc (programSymbol header (ρ parent) .nestedProgram)).2.table.scope? (.slot (ρ parent) .programs)).any
        (fun scope => !(scope.lookup header.name).isEmpty) =
      ((d.alloc (programSymbol header parent .nestedProgram)).2.table.scope? (.slot parent .programs)).any
        fun scope => !(scope.lookup header.name).isEmpty := by
    rw [show ScopeRef.slot (ρ parent) .programs = (ScopeRef.slot parent .programs).rename ρ from rfl, hscope,
      Option.any_map]
    congr 1
    funext scope
    simp only [Scope.lookup_map, isEmpty_map]
  unfold Declarations.declareNested
  simp only [htaken, hid]
  split
  · exact ⟨rfl, rfl, hmade.addDuplicate parent _⟩
  · exact ⟨rfl, rfl, (hmade.enterIn _ (some (.slot parent .programs))).registerProgram _⟩

theorem declareTopLevel (header : ProgramHeader) :
    (d'.declareTopLevel header).1 = ρ (d.declareTopLevel header).1 ∧
      (d'.declareTopLevel header).2.1 = (d.declareTopLevel header).2.1 ∧
      (d.declareTopLevel header).2.2.Alike ρ (d'.declareTopLevel header).2.2 := by
  have hempty : d'.programs.isEmpty = d.programs.isEmpty := by rw [h.programs, isEmpty_map]
  have htaken : (d'.programs.any fun program => d'.table.name program == header.name) =
      d.programs.any fun program => d.table.name program == header.name := by
    rw [h.programs, List.any_map]
    congr 1
    funext program
    exact congrArg (· == header.name) (h.table.name program)
  unfold Declarations.declareTopLevel
  simp only [hempty, htaken]
  generalize (if d.programs.isEmpty then SymbolFlag.mainProgram else SymbolFlag.stackedProgram) = place
  obtain ⟨hid, hmade⟩ := h.alloc_program header rootId place
  rw [h.table.root] at hid hmade
  have hlisted : ({ (d.alloc (programSymbol header rootId place)).2 with
        programs := (d.alloc (programSymbol header rootId place)).2.programs ++
          [(d.alloc (programSymbol header rootId place)).1] } : Declarations).Alike ρ
      { (d'.alloc (programSymbol header rootId place)).2 with
        programs := (d'.alloc (programSymbol header rootId place)).2.programs ++
          [ρ (d.alloc (programSymbol header rootId place)).1] } := by
    refine { hmade with programs := ?_ }
    simp only [hmade.programs, map_append, map_cons, map_nil]
  have hentered := (hlisted.enterIn (d.alloc (programSymbol header rootId place)).1
    (some (.slot rootId .programs))).registerProgram (d.alloc (programSymbol header rootId place)).1
  simp only [map_some, ScopeRef.rename, h.table.root] at hentered
  simp only [hid]
  split
  · exact ⟨rfl, rfl, hlisted⟩
  · exact ⟨rfl, rfl, hentered⟩

theorem openProgram (id : SymbolId) : (d.openProgram id).Alike ρ (d'.openProgram (ρ id)) :=
  { h with
    openPrograms := congrArg (ρ id :: ·) h.openPrograms
    scopes := congrArg (ρ id :: ·) h.scopes
    storage := rfl
    heading := rfl }

theorem startProgram (hready : d.Ready base) (header : ProgramHeader) :
    Returns ρ (Alike ρ) (d.startProgram header) (d'.startProgram header) := by
  have hopen : ∀ {made made' : SymbolId × Bool × Declarations}, made'.1 = ρ made.1 → made'.2.1 = made.2.1 →
      made.2.2.Alike ρ made'.2.2 →
      ((if made.2.1 then made.2.2.report (.duplicateProgram header.name) header.position else made.2.2).openProgram
        made.1).Alike ρ
      ((if made'.2.1 then made'.2.2.report (.duplicateProgram header.name) header.position else made'.2.2).openProgram
        made'.1) := by
    intro made made' hid htaken hmade
    rw [hid, htaken]
    split
    · exact (hmade.report _ _).openProgram made.1
    · exact hmade.openProgram made.1
  unfold Declarations.startProgram
  rw [h.openPrograms, head?_map]
  cases hhead : d.openPrograms.head? with
  | some parent =>
    obtain ⟨_, hlt, hkind⟩ := hready.programs parent (mem_of_mem_head? hhead)
    obtain ⟨hid, htaken, hmade⟩ := h.declareNested hlt hkind header
    exact ⟨hid, hopen hid htaken hmade⟩
  | none =>
    obtain ⟨hid, htaken, hmade⟩ := h.declareTopLevel header
    exact ⟨hid, hopen hid htaken hmade⟩

theorem leaveProgram : d.leaveProgram.Alike ρ d'.leaveProgram := by
  have hother : ((fun scope => some scope != (d.openPrograms.map ρ).head?) ∘ ρ) =
      fun scope => some scope != d.openPrograms.head? := by
    funext scope
    rw [head?_map]
    cases d.openPrograms.head? with
    | none => rfl
    | some program =>
      apply Bool.eq_iff_iff.mpr
      simp [h.table.injective.eq_iff]
  refine { h with openPrograms := ?_, scopes := ?_, storage := rfl, heading := rfl, pendingRenames := rfl }
  · simp only [Declarations.leaveProgram, h.openPrograms, map_tail]
  · simp only [Declarations.leaveProgram, h.openPrograms, h.scopes, dropWhile_map, hother, map_tail]

theorem link (hpending : d.Pending base) : d.link.Alike ρ d'.link := by
  have hstart : ({ context := d.context } : Linker).Alike ρ { context := d'.context } := ⟨h.context, rfl, rfl⟩
  have hlinked := hstart.linkUnit (Linker.inside_start hpending.sound.toFormed)
    (fun item hitem => (hpending.typed item hitem).1) hpending.dependent fun item hitem => (hpending.tables item hitem).1
  unfold Declarations.link
  rw [h.typedItems, h.dependentTypes, h.dependentTables]
  exact { h with context := hlinked.context, typedItems := rfl, dependentTypes := rfl, dependentTables := rfl }

theorem endProgram (hready : d.Ready base) : d.endProgram.Alike ρ d'.endProgram := by
  have hleft := h.leaveProgram
  have hpending : d.leaveProgram.Pending base :=
    ⟨⟨hready.sound, nofun, hready.typed, hready.dependent, hready.tables⟩, hready.awaited⟩
  unfold Declarations.endProgram
  simp only [hleft.openPrograms, isEmpty_map]
  split
  · exact hleft.link hpending
  · exact hleft

end Programs

section Procedures

theorem signature_add (signature : Signature) (id : SymbolId) (direction : Option Direction) :
    (signature.rename ρ).add (ρ id) direction = (signature.add id direction).rename ρ := by
  cases direction <;> simp [Signature.add, Signature.rename]

theorem declareParameters (linkage : SymbolId) (forest : Forest) (signature : Signature) (h : d.Alike ρ d') :
    Returns (Forest.rename ρ) (Returns (Signature.rename ρ) (Alike ρ))
      (Declarations.declareParameters (.slot linkage .linkage) forest signature d)
      (Declarations.declareParameters (.slot (ρ linkage) .linkage) (forest.rename ρ) (signature.rename ρ) d') := by
  induction forest generalizing signature d d' with
  | nil => exact ⟨rfl, rfl, h⟩
  | cons node children siblings _ ih =>
    have hkind : (node.rename ρ).kind = node.kind := rfl
    unfold Forest.rename Declarations.declareParameters
    rw [hkind]
    cases node.kind with
    | parameter entry direction =>
      obtain ⟨hid, hbelow, hmade⟩ := h.declareItem (fieldsAlike_declareFields children) entry .plain
        ⟨some (.slot linkage .linkage), none⟩ children
      simp only [ItemKind.rename, Placement.rename, map_some, map_none, ScopeRef.rename] at hid hbelow hmade
      obtain ⟨hforest, hsignature, hnext⟩ := ih (signature.add _ direction)
        (hmade.addFlags _ (.single (parameterFlag direction)))
      simp only [hid, hbelow, signature_add]
      refine ⟨?_, hsignature, hnext⟩
      rw [hforest]
      rfl
    | _ =>
      obtain ⟨hforest, hsignature, hnext⟩ := ih signature h
      refine ⟨?_, hsignature, hnext⟩
      simp only [hforest, Forest.rename]

section

variable (h : d.Alike ρ d')
include h

theorem setSignature (id : SymbolId) (signature : Signature) :
    (d.setSignature id signature).Alike ρ (d'.setSignature (ρ id) (signature.rename ρ)) :=
  h.modify ((h.table.get id).setType rfl)

theorem openProcedure (header : DeclaredProcedure) (scope : SymbolId) :
    Returns ρ (Alike ρ) (d.openProcedure header scope) (d'.openProcedure header (ρ scope)) := by
  have hs : (procedureSymbol header scope).Alike ρ (procedureSymbol header (ρ scope)) :=
    ⟨rfl, rfl, rfl, rfl, rfl, .procedure {}⟩
  obtain ⟨hid, hmade⟩ := h.alloc hs
  have hentered := (hmade.enterIn (d.alloc (procedureSymbol header scope)).1
    (some (.slot scope .procedures))).registerProgram (d.alloc (procedureSymbol header scope)).1
  refine ⟨hid, ?_⟩
  unfold Declarations.openProcedure
  simp only [hid]
  exact { hentered with scopes := congrArg (_ :: ·) hentered.scopes }

theorem startProcedure (header : DeclaredProcedure) (parameters : Forest) :
    Returns (Option.map ρ) (Returns (Forest.rename ρ) (Alike ρ)) (d.startProcedure header parameters)
      (d'.startProcedure header (parameters.rename ρ)) := by
  unfold Declarations.startProcedure
  rw [h.currentScope]
  cases d.currentScope with
  | none => exact ⟨rfl, rfl, h⟩
  | some scope =>
    obtain ⟨hid, hopened⟩ := h.openProcedure header scope
    have hstored : ({ (d.openProcedure header scope).2 with storage := some .linkage } : Declarations).Alike ρ
        { (d'.openProcedure header (ρ scope)).2 with storage := some .linkage } := { hopened with storage := rfl }
    obtain ⟨hforest, hsignature, hnext⟩ := declareParameters (d.openProcedure header scope).1 parameters {} hstored
    have hsigned := hnext.setSignature (d.openProcedure header scope).1
      (Declarations.declareParameters (.slot (d.openProcedure header scope).1 .linkage) parameters {}
        { (d.openProcedure header scope).2 with storage := some .linkage }).2.1
    rw [← hsignature] at hsigned
    rw [← hid] at hforest hsigned
    exact ⟨congrArg some hid, hforest, { hsigned with storage := h.storage }⟩

theorem setStorage (storage : Option StorageSection) :
    ({ d with storage } : Declarations).Alike ρ { d' with storage } := { h with storage := rfl }

theorem endHeading : ({ d with heading := none } : Declarations).Alike ρ { d' with heading := none } :=
  { h with heading := rfl }

theorem endProcedure : d.endProcedure.Alike ρ d'.endProcedure := by
  refine { h with scopes := ?_, storage := rfl, heading := rfl }
  simp only [Declarations.endProcedure, h.scopes, map_tail]

theorem resolveParameter (scope : SymbolId) (parameter : CallParameter) :
    Returns (Option.map ρ) (Alike ρ) (d.resolveParameter scope parameter) (d'.resolveParameter (ρ scope) parameter) := by
  have hslot : ∀ owner slot, ScopeRef.slot scope .linkage = .slot owner slot →
      slot ≠ .programs ∧ slot ≠ .namespaces ∨ (d.table.get owner).kind ≠ .root := by
    intro owner slot href
    cases href
    exact .inl ⟨nofun, nofun⟩
  have hscope := h.table.scope? hslot
  have hfound : ((d'.table.scope? (.slot (ρ scope) .linkage)).bind fun linkage =>
        (linkage.lookup parameter.target.name).head?) =
      ((d.table.scope? (.slot scope .linkage)).bind fun linkage =>
        (linkage.lookup parameter.target.name).head?).map ρ := by
    rw [show ScopeRef.slot (ρ scope) .linkage = (ScopeRef.slot scope .linkage).rename ρ from rfl, hscope]
    cases d.table.scope? (.slot scope .linkage) with
    | none => rfl
    | some linkage => simp only [map_some, bind_some, Scope.lookup_map, head?_map]
  unfold Declarations.resolveParameter
  simp only [hfound, h.context.options]
  cases (d.table.scope? (.slot scope .linkage)).bind fun linkage => (linkage.lookup parameter.target.name).head? with
  | none => exact ⟨rfl, h.setContext (h.context.reportAt _ _ _)⟩
  | some id => exact ⟨rfl, h.addFlags id _⟩

end

theorem resolveParameters (scope : SymbolId) (parameters : List CallParameter) (h : d.Alike ρ d') :
    Returns (List.map ρ) (Alike ρ) (Declarations.resolveParameters scope parameters d)
      (Declarations.resolveParameters (ρ scope) parameters d') := by
  induction parameters generalizing d d' with
  | nil => exact ⟨rfl, h⟩
  | cons parameter rest ih =>
    obtain ⟨hfound, hnext⟩ := h.resolveParameter scope parameter
    obtain ⟨hothers, hlast⟩ := ih hnext
    refine ⟨?_, hlast⟩
    unfold Declarations.resolveParameters
    simp only [hfound, hothers, map_append]
    cases (d.resolveParameter scope parameter).1 <;> rfl

variable (h : d.Alike ρ d')
include h

theorem resolveReturning (scope : SymbolId) (reference : Option Reference) :
    Returns (Option.map ρ) (Alike ρ) (d.resolveReturning scope reference) (d'.resolveReturning (ρ scope) reference) := by
  cases reference with
  | none => exact ⟨rfl, h⟩
  | some reference =>
    obtain ⟨hfound, hnext⟩ := h.resolveParameter scope { target := reference }
    unfold Declarations.resolveReturning
    simp only
    revert hfound hnext
    generalize d.resolveParameter scope { target := reference } = found
    generalize d'.resolveParameter (ρ scope) { target := reference } = found'
    obtain ⟨id, d₁⟩ := found
    obtain ⟨id', d₁'⟩ := found'
    intro hfound hnext
    subst hfound
    cases id with
    | none => exact ⟨rfl, hnext⟩
    | some id => exact ⟨rfl, hnext.addFlags id _⟩

theorem startProcedureDivision (header : ProcedureHeader) :
    (d.startProcedureDivision header).Alike ρ (d'.startProcedureDivision header) := by
  have hleft : ({ d with storage := none } : Declarations).Alike ρ { d' with storage := none } :=
    { h with storage := rfl }
  unfold Declarations.startProcedureDivision
  simp only [hleft.currentScope]
  cases ({ d with storage := none } : Declarations).currentScope with
  | none => exact hleft
  | some scope =>
    simp only [map_some, (hleft.table.get scope).kind]
    split
    · exact hleft
    · obtain ⟨hparams, hnext⟩ := resolveParameters scope header.parameters hleft
      obtain ⟨hreturning, hlast⟩ := hnext.resolveReturning scope header.returning
      simp only [hparams, hreturning]
      exact hlast.setSignature scope ⟨_, _⟩

theorem startHeading (heading : SectionHeading) :
    Returns (Option.map ρ) (Alike ρ) (d.startHeading heading) (d'.startHeading heading) := by
  unfold Declarations.startHeading
  rw [h.currentScope]
  cases d.currentScope with
  | none => exact ⟨rfl, h⟩
  | some scope =>
    have hs : (headingSymbol heading scope).Alike ρ (headingSymbol heading (ρ scope)) :=
      ⟨rfl, rfl, rfl, rfl, rfl, .heading⟩
    obtain ⟨hid, hmade⟩ := h.alloc hs
    have hentered := hmade.enterIn (d.alloc (headingSymbol heading scope)).1 (some (.slot scope .sections))
    rw [← hid] at hentered
    exact ⟨congrArg some hid, { hentered with heading := congrArg some hid }⟩

theorem startParagraph (heading : ParagraphHeading) :
    Returns (Option.map ρ) (Alike ρ) (d.startParagraph heading) (d'.startParagraph heading) := by
  unfold Declarations.startParagraph
  rw [h.currentScope]
  cases d.currentScope with
  | none => exact ⟨rfl, h⟩
  | some scope =>
    have howner : d'.heading.getD (ρ scope) = ρ (d.heading.getD scope) := by
      rw [h.heading]
      cases d.heading <;> rfl
    have hbody : SymbolBody.Alike ρ (.paragraph d.heading) (.paragraph d'.heading) := by
      rw [h.heading]
      exact .paragraph d.heading
    have hs : (d.paragraphSymbol heading scope).Alike ρ (d'.paragraphSymbol heading (ρ scope)) :=
      ⟨rfl, rfl, congrArg some howner, rfl, rfl, hbody⟩
    obtain ⟨hid, hmade⟩ := h.alloc hs
    have hentered := hmade.enterIn (d.alloc (d.paragraphSymbol heading scope)).1 (some (.slot scope .paragraphs))
    rw [← hid] at hentered
    exact ⟨congrArg some hid, hentered⟩

end Procedures

end CobolSymbols.Declarations.Alike
