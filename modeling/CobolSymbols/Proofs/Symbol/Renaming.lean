import CobolSymbols.Proofs.Symbol.Views

/-!
# Symbols under other numbers

A symbol speaks of other symbols by their numbers. `rename` puts other numbers in their place, and everything that is read
from a type, a scope or a symbol is read with the other numbers too.

Two symbols are alike when one is the other under other numbers. The slots of variables do not count, and of the root
nothing counts but the types that it declares: these are what the units of a session have in common.
-/

set_option autoImplicit false

namespace CobolSymbols

open Option

section Maps

variable {α β γ : Type} (f : α → β)

/-- The domain with every value changed. -/
def Domain.map (d : Domain α) : Domain β := ⟨d.entries.map fun entry => (entry.1, entry.2.map f)⟩

theorem Domain.map_enter (d : Domain α) (name : String) (value : α) :
    (d.enter name value).map f = (d.map f).enter name (f value) := by
  obtain ⟨entries⟩ := d
  simp only [enter, map, mk.injEq]
  induction entries with
  | nil => rfl
  | cons entry rest ih =>
    obtain ⟨key, bucket⟩ := entry
    simp only [enterBucket, List.map_cons]
    by_cases hkey : key = name
    · simp [hkey]
    · simp [hkey, ih]

theorem Domain.lookup_map (d : Domain α) (name : String) : (d.map f).lookup name = (d.lookup name).map f := by
  obtain ⟨entries⟩ := d
  simp only [lookup, map]
  induction entries with
  | nil => rfl
  | cons entry rest ih =>
    obtain ⟨key, bucket⟩ := entry
    simp only [List.map_cons, List.lookup_cons]
    split
    · rfl
    · exact ih

theorem Domain.map_map (g : β → γ) (d : Domain α) : (d.map f).map g = d.map (g ∘ f) := by
  simp [map]

/-- The scope with every value changed. -/
def Scope.map (s : Scope α) : Scope β := ⟨s.domain.map f, s.order.map f⟩

theorem Scope.map_enter (s : Scope α) (name : String) (value : α) :
    (s.enter name value).map f = (s.map f).enter name (f value) := by
  simp [enter, map, Domain.map_enter]

theorem Scope.lookup_map (s : Scope α) (name : String) : (s.map f).lookup name = (s.lookup name).map f :=
  Domain.lookup_map f s.domain name

@[simp] theorem Scope.order_map (s : Scope α) : (s.map f).order = s.order.map f := rfl

theorem Scope.map_map (g : β → γ) (s : Scope α) : (s.map f).map g = s.map (g ∘ f) := by
  simp [map, Domain.map_map]

end Maps

section Rename

variable (ρ : SymbolId → SymbolId)

/-- The scopes under other numbers. -/
def Scopes.rename (s : Scopes) : Scopes where
  types := s.types.map ρ
  fileData := s.fileData.map ρ
  globalStorage := s.globalStorage.map ρ
  workingStorage := s.workingStorage.map ρ
  localStorage := s.localStorage.map ρ
  linkage := s.linkage.map ρ
  sections := s.sections.map ρ
  paragraphs := s.paragraphs.map ρ
  programs := s.programs.map ρ
  procedures := s.procedures.map ρ
  namespaces := s.namespaces.map ρ

theorem Scopes.rename_modify (s : Scopes) (slot : ScopeSlot) {f f' : Scope SymbolId → Scope SymbolId}
    (h : ∀ scope, f' (scope.map ρ) = (f scope).map ρ) : (s.rename ρ).modify slot f' = (s.modify slot f).rename ρ := by
  cases slot <;> simp [modify, rename, h]

/-- What a program holds, under other numbers. -/
def ProgramData.rename (d : ProgramData) : ProgramData where
  scopes := d.scopes.rename ρ
  duplicates := d.duplicates.map ρ
  domain := d.domain.map ρ
  references := d.references.map fun entry => (ρ entry.1, entry.2.map ρ)

/-- The bytes of a level-66 item, under other numbers. -/
def RenamesRange.rename (r : RenamesRange) : RenamesRange :=
  { r with first := ρ r.first, thru := r.thru.map ρ }

/-- The kind of an item, under other numbers. -/
def ItemKind.rename : ItemKind → ItemKind
  | .plain => .plain
  | .typeDefinition restriction typedItems => .typeDefinition restriction (typedItems.map ρ)
  | .redefines target => .redefines (target.map ρ)
  | .renames first thru range => .renames first thru (range.map (·.rename ρ))
  | .index indexed => .index (ρ indexed)

@[simp] theorem ItemKind.isType_rename (k : ItemKind) : (k.rename ρ).isType = k.isType := by
  cases k <;> rfl

/-- A DEPENDING ON object, under other numbers. -/
def DependingOn.rename (o : DependingOn) : DependingOn := { o with target := o.target.map ρ }

/-- A reference to a type, under other numbers. -/
def TypeReference.rename (r : TypeReference) : TypeReference := { r with target := r.target.map ρ }

/-- The parameters of a program, under other numbers. -/
def Signature.rename (s : Signature) : Signature := ⟨s.parameters.map ρ, s.returning.map ρ⟩

/-- The reference to a scope, under other numbers. -/
def ScopeRef.rename : ScopeRef → ScopeRef
  | .slot owner place => .slot (ρ owner) place
  | .fields owner => .fields (ρ owner)

@[simp] theorem ScopeRef.owner_rename (r : ScopeRef) : (r.rename ρ).owner = ρ r.owner := by
  cases r <;> rfl

namespace DataType

variable (type : DataType)

/-- The type, under other numbers. -/
def rename : DataType → DataType
  | .usage format => .usage format
  | .picture clause => .picture clause
  | .group fields leading owner =>
    .group (fields.map ρ)
      (match leading with
      | some type => some type.rename
      | none => none) (ρ owner)
  | .array element min max dependingOn => .array element.rename min max (dependingOn.map (·.rename ρ))
  | .named reference => .named (reference.rename ρ)
  | .condition => .condition
  | .signature parameters => .signature (parameters.rename ρ)

theorem rename_group (fields : Scope SymbolId) (leading : Option DataType) (owner : SymbolId) :
    (group fields leading owner).rename ρ = .group (fields.map ρ) (leading.map (rename ρ)) (ρ owner) := by
  cases leading <;> rfl

theorem fields?_rename : ∀ type : DataType, (type.rename ρ).fields? = type.fields?.map (Scope.map ρ)
  | .usage _ | .picture _ | .named _ | .condition | .signature _ => rfl
  | .group _ _ _ => by rw [rename_group]; rfl
  | .array element _ _ _ => fields?_rename element

theorem mapFields_rename {f f' : Scope SymbolId → Scope SymbolId} (h : ∀ scope, f' (scope.map ρ) = (f scope).map ρ) :
    ∀ type : DataType, (type.rename ρ).mapFields f' = (type.mapFields f).rename ρ
  | .usage _ | .picture _ | .named _ | .condition | .signature _ => rfl
  | .group _ _ _ => by simp only [rename_group, mapFields, h]
  | .array element _ _ _ => by simp only [mapFields, rename, mapFields_rename h element]

theorem setLeading_rename (leading : Option DataType) (type : DataType) :
    (type.rename ρ).setLeading (leading.map (rename ρ)) = (type.setLeading leading).rename ρ := by
  cases type with
  | group fields before owner => simp only [rename_group, setLeading]
  | _ => rfl

theorem reference?_rename : ∀ type : DataType, (type.rename ρ).reference? = type.reference?.map (·.rename ρ)
  | .usage _ | .picture _ | .named _ | .condition | .signature _ => rfl
  | .group _ _ _ => by rw [rename_group]; rfl
  | .array element _ _ _ => reference?_rename element

theorem bindReference_rename (target : SymbolId) :
    ∀ type : DataType, (type.rename ρ).bindReference (ρ target) = (type.bindReference target).rename ρ
  | .usage _ | .picture _ | .named _ | .condition | .signature _ => rfl
  | .group _ _ _ => by simp only [rename_group, bindReference]
  | .array element _ _ _ => by simp only [bindReference, rename, bindReference_rename target element]

@[simp] theorem isArray_rename : (type.rename ρ).isArray = type.isArray := by
  cases type with
  | group => rw [rename_group]; rfl
  | _ => rfl

@[simp] theorem isCondition_rename : (type.rename ρ).isCondition = type.isCondition := by
  cases type with
  | group => rw [rename_group]; rfl
  | _ => rfl

theorem dependingOn?_rename : (type.rename ρ).dependingOn? = type.dependingOn?.map (·.rename ρ) := by
  cases type with
  | group => rw [rename_group]; rfl
  | _ => rfl

theorem bindDependingOn_rename (target : SymbolId) (type : DataType) :
    (type.rename ρ).bindDependingOn (ρ target) = (type.bindDependingOn target).rename ρ := by
  cases type with
  | group => simp only [rename_group, bindDependingOn]
  | array element min max object => cases object <;> rfl
  | _ => rfl

/-- An elementary type speaks of no other symbols. -/
theorem rename_of_isElementary {type : DataType} (h : type.IsElementary) : type.rename ρ = type := by
  cases type with
  | usage _ => rfl
  | picture _ => rfl
  | _ => cases h

end DataType

end Rename

section Alike

variable (ρ : SymbolId → SymbolId)

/-- Items that are the same under other numbers, whichever slots they have. -/
structure ItemData.Alike (data data' : ItemData) : Prop where
  level : data'.level = data.level
  value : data'.value = data.value
  kind : data'.kind = data.kind.rename ρ
  slot : data'.variableSlot.isSome = data.variableSlot.isSome

/-- Symbols that stand for the same under other numbers. Of the root only the types count. -/
inductive SymbolBody.Alike : SymbolBody → SymbolBody → Prop
  | root {scopes scopes' : Scopes} (htypes : scopes'.types = scopes.types.map ρ) : Alike (.root scopes) (.root scopes')
  | program (data : ProgramData) : Alike (.program data) (.program (data.rename ρ))
  | procedure (data : ProgramData) : Alike (.procedure data) (.procedure (data.rename ρ))
  | item {data data' : ItemData} (hdata : data.Alike ρ data') : Alike (.item data) (.item data')
  | paragraph (heading : Option SymbolId) : Alike (.paragraph heading) (.paragraph (heading.map ρ))
  | heading : Alike .heading .heading

/-- Symbols that are the same under other numbers. -/
structure Symbol.Alike (s s' : Symbol) : Prop where
  name : s'.name = s.name
  flags : s'.flags = s.flags
  owner : s'.owner = s.owner.map ρ
  type : s'.type = s.type.map (DataType.rename ρ)
  position : s'.position = s.position
  body : s.body.Alike ρ s'.body

end Alike

namespace Symbol.Alike

variable {ρ : SymbolId → SymbolId} {s s' : Symbol}

section Reading

variable (h : s.Alike ρ s')
include h

theorem kind : s'.kind = s.kind := by
  have hbody := h.body
  unfold Symbol.kind
  generalize s.body = body at hbody
  generalize s'.body = body' at hbody
  cases hbody with
  | item hdata =>
    rename_i data data'
    simp only [hdata.kind]
    cases data.kind <;> rfl
  | _ => rfl

theorem isScope : s'.isScope = s.isScope := by
  rw [isScope_eq, isScope_eq, h.kind]

/-- Items are alike in everything but their slots. -/
theorem item? :
    s.item? = none ∧ s'.item? = none ∨ ∃ data data', s.item? = some data ∧ s'.item? = some data' ∧ data.Alike ρ data' := by
  have hbody := h.body
  unfold Symbol.item?
  generalize s.body = body at hbody
  generalize s'.body = body' at hbody
  cases hbody with
  | item hdata => exact .inr ⟨_, _, rfl, rfl, hdata⟩
  | _ => exact .inl ⟨rfl, rfl⟩

theorem level? : s'.level? = s.level? := by
  unfold Symbol.level?
  rcases h.item? with ⟨hs, hs'⟩ | ⟨data, data', hs, hs', hdata⟩
  · rw [hs, hs']
  · rw [hs, hs', map_some, map_some, hdata.level]

theorem isSome_item? : s'.item?.isSome = s.item?.isSome := by
  rw [Symbol.isSome_item?, Symbol.isSome_item?, h.kind]

theorem typedItems : s'.typedItems = s.typedItems.map ρ := by
  unfold Symbol.typedItems
  rcases h.item? with ⟨hs, hs'⟩ | ⟨data, data', hs, hs', hdata⟩
  · rw [hs, hs']
    rfl
  · rw [hs, hs', map_some, map_some, hdata.kind]
    cases data.kind <;> rfl

theorem program? : s'.program? = s.program?.map (·.rename ρ) := by
  have hbody := h.body
  unfold Symbol.program?
  generalize s.body = body at hbody
  generalize s'.body = body' at hbody
  cases hbody <;> rfl

theorem fields? : s'.fields? = s.fields?.map (Scope.map ρ) := by
  unfold Symbol.fields?
  rw [h.type]
  cases s.type with
  | none => rfl
  | some type => exact DataType.fields?_rename ρ type

theorem fieldList : s'.fieldList = s.fieldList.map ρ := by
  unfold Symbol.fieldList
  rw [h.fields?]
  cases s.fields? <;> rfl

theorem reference? : s'.reference? = s.reference?.map (·.rename ρ) := by
  unfold Symbol.reference?
  rw [h.type]
  cases s.type with
  | none => rfl
  | some type => exact DataType.reference?_rename ρ type

/-- A scope of a program or procedure, whatever it holds, and any scope for data. -/
theorem scope? (slot : ScopeSlot) (hslot : slot ≠ .programs ∧ slot ≠ .namespaces ∨ s.kind ≠ .root) :
    s'.scope? slot = (s.scope? slot).map (Scope.map ρ) := by
  have hbody := h.body
  unfold Symbol.scope?
  unfold Symbol.kind at hslot
  generalize s.body = body at hbody hslot
  generalize s'.body = body' at hbody
  cases hbody with
  | root htypes =>
    cases slot with
    | types => exact congrArg some htypes
    | programs => simp at hslot
    | namespaces => simp at hslot
    | _ => rfl
  | program data => cases slot <;> rfl
  | procedure data => cases slot <;> rfl
  | _ => rfl

theorem isSome_scope? (slot : ScopeSlot) : (s'.scope? slot).isSome = (s.scope? slot).isSome := by
  have hbody := h.body
  unfold Symbol.scope?
  generalize s.body = body at hbody
  generalize s'.body = body' at hbody
  cases hbody <;> cases slot <;> rfl

end Reading

section Changing

variable (h : s.Alike ρ s')
include h

theorem setBody {body body' : SymbolBody} (hbody : body.Alike ρ body') :
    ({ s with body } : Symbol).Alike ρ { s' with body := body' } :=
  { h with body := hbody }

theorem mapItem {f f' : ItemData → ItemData}
    (hf : ∀ data data' : ItemData, data.Alike ρ data' → (f data).Alike ρ (f' data')) :
    (s.mapItem f).Alike ρ (s'.mapItem f') := by
  have hbody := h.body
  unfold Symbol.mapItem
  generalize s.body = body at hbody ⊢
  generalize s'.body = body' at hbody ⊢
  cases hbody with
  | item hdata => exact h.setBody (.item (hf _ _ hdata))
  | _ => exact h

theorem mapProgram {f f' : ProgramData → ProgramData}
    (hf : ∀ data : ProgramData, f' (data.rename ρ) = (f data).rename ρ) :
    (s.mapProgram f).Alike ρ (s'.mapProgram f') := by
  have hbody := h.body
  unfold Symbol.mapProgram
  generalize s.body = body at hbody ⊢
  generalize s'.body = body' at hbody ⊢
  cases hbody with
  | program data =>
    simp only [hf]
    exact h.setBody (.program (f data))
  | procedure data =>
    simp only [hf]
    exact h.setBody (.procedure (f data))
  | _ => exact h

/-- A change of one scope. -/
theorem modifyScope (slot : ScopeSlot) {f f' : Scope SymbolId → Scope SymbolId}
    (hf : ∀ scope, f' (scope.map ρ) = (f scope).map ρ) :
    (s.mapScopes fun scopes => scopes.modify slot f).Alike ρ (s'.mapScopes fun scopes => scopes.modify slot f') := by
  have hbody := h.body
  have hprog : ∀ data : ProgramData, ({ data.rename ρ with scopes := (data.rename ρ).scopes.modify slot f' } : ProgramData) =
      ({ data with scopes := data.scopes.modify slot f } : ProgramData).rename ρ := by
    intro data
    simp only [ProgramData.rename, Scopes.rename_modify ρ data.scopes slot hf]
  unfold Symbol.mapScopes
  generalize s.body = body at hbody ⊢
  generalize s'.body = body' at hbody ⊢
  cases hbody with
  | root htypes =>
    refine h.setBody (.root ?_)
    cases slot with
    | types => exact (congrArg f' htypes).trans (hf _)
    | _ => exact htypes
  | program data =>
    simp only [hprog]
    exact h.setBody (.program _)
  | procedure data =>
    simp only [hprog]
    exact h.setBody (.procedure _)
  | _ => exact h

theorem setType {type type' : Option DataType} (htype : type' = type.map (DataType.rename ρ)) :
    ({ s with type } : Symbol).Alike ρ { s' with type := type' } :=
  { h with type := htype }

theorem mapType {f f' : DataType → DataType} (hf : ∀ type : DataType, f' (type.rename ρ) = (f type).rename ρ) :
    ({ s with type := s.type.map f } : Symbol).Alike ρ { s' with type := s'.type.map f' } := by
  refine h.setType ?_
  rw [h.type]
  cases s.type with
  | none => rfl
  | some type => exact congrArg some (hf type)

theorem addFlags (flags : SymbolFlags) : (s.addFlags flags).Alike ρ (s'.addFlags flags) := by
  unfold Symbol.addFlags
  rw [h.flags]
  exact { h with flags := rfl }

end Changing

end Symbol.Alike

section Composition

variable {ρ σ : SymbolId → SymbolId}

theorem Scopes.rename_rename (s : Scopes) : (s.rename σ).rename ρ = s.rename (ρ ∘ σ) := by
  simp only [rename, Scope.map_map]

theorem ProgramData.rename_rename (d : ProgramData) : (d.rename σ).rename ρ = d.rename (ρ ∘ σ) := by
  simp [rename, Scopes.rename_rename, Domain.map_map, Function.comp_def]

theorem ItemKind.rename_rename (k : ItemKind) : (k.rename σ).rename ρ = k.rename (ρ ∘ σ) := by
  cases k <;> simp [rename, RenamesRange.rename, Function.comp_def]

theorem DataType.rename_rename : ∀ type : DataType, (type.rename σ).rename ρ = type.rename (ρ ∘ σ)
  | .usage _ | .picture _ | .condition => rfl
  | .group fields none owner => by simp only [rename, Scope.map_map, Function.comp_apply]
  | .group fields (some leading) owner => by
    simp only [rename_group, map_some, Scope.map_map, rename_rename leading, Function.comp_apply]
  | .array element _ _ dependingOn => by
    simp only [rename, rename_rename element]
    cases dependingOn <;> simp [DependingOn.rename]
  | .named reference => by simp [rename, TypeReference.rename]
  | .signature parameters => by simp [rename, Signature.rename]

theorem SymbolBody.Alike.trans_comp {b b' b'' : SymbolBody} (h : b.Alike σ b') (h' : b.Alike (ρ ∘ σ) b'') :
    b'.Alike ρ b'' := by
  cases h with
  | root htypes =>
    cases h' with
    | root htypes' =>
      apply SymbolBody.Alike.root
      rw [htypes', htypes, Scope.map_map]
  | program data =>
    cases h'
    rw [← ProgramData.rename_rename]
    exact .program _
  | procedure data =>
    cases h'
    rw [← ProgramData.rename_rename]
    exact .procedure _
  | item hdata =>
    cases h' with
    | item hdata' =>
      apply SymbolBody.Alike.item
      refine ⟨hdata'.level.trans hdata.level.symm, hdata'.value.trans hdata.value.symm, ?_,
        hdata'.slot.trans hdata.slot.symm⟩
      rw [hdata'.kind, hdata.kind, ItemKind.rename_rename]
  | paragraph heading =>
    cases h'
    rw [← map_map]
    exact .paragraph _
  | heading =>
    cases h'
    exact .heading

/-- Two symbols that stand for the same third one stand for each other. -/
theorem Symbol.Alike.trans_comp {s s' s'' : Symbol} (h : s.Alike σ s') (h' : s.Alike (ρ ∘ σ) s'') : s'.Alike ρ s'' where
  name := h'.name.trans h.name.symm
  flags := h'.flags.trans h.flags.symm
  owner := by rw [h'.owner, h.owner, map_map]
  type := by
    rw [h'.type, h.type, map_map]
    congr 1
    funext type
    exact (DataType.rename_rename type).symm
  position := h'.position.trans h.position.symm
  body := h.body.trans_comp h'.body

end Composition

end CobolSymbols
