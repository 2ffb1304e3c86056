import CobolSymbols.Proofs.Build.Soundness
import CobolSymbols.Proofs.Table.Growth

/-!
# Declaring settles what it makes

Every function that makes symbols settles them before it returns: the symbols of a record with their indexes, the
parameters of a procedure, sections, paragraphs, procedures and nested programs. The symbols that exist are kept as they
are, except that new ones are entered into them.
-/

set_option autoImplicit false

namespace CobolSymbols

open FlagSet Symbol SymbolFlags Table

variable {s : Symbol} {flags : SymbolFlags}

theorem Symbol.Fresh.members_eq (h : s.Fresh) : s.members = [] := by
  have hprog := h.program
  obtain ⟨hroot, hnamespace⟩ := h.rooted
  unfold Symbol.program? at hprog
  unfold Symbol.kind at hroot hnamespace
  unfold Symbol.members
  cases hbody : s.body with
  | root scopes => simp [hbody] at hroot
  | namespaceBody scopes => simp [hbody] at hnamespace
  | program data | procedure data =>
    have hdata : data = {} := hprog data (by simp [hbody])
    rw [hdata]
    rfl
  | _ => rfl

theorem Symbol.Fresh.contents_eq (h : s.Fresh) : s.contents = [] := by
  rw [Symbol.contents, h.members_eq, h.fieldList_eq]
  rfl

theorem Symbol.Fresh.slot?_eq (h : s.Fresh) : s.slot? = none := by
  unfold Symbol.slot?
  cases hitem : s.item? with
  | none => rfl
  | some data => exact h.slot data hitem

/-- The storage section that flags tell, when they tell at most one. -/
theorem SymbolFlags.storage?_eq {origin : Option StorageSection}
    (h : ∀ s : StorageSection, flags.has s.flag = decide (origin = some s)) : flags.storage? = origin := by
  unfold SymbolFlags.storage?
  cases origin with
  | none => simp [h]
  | some kept => cases kept <;> simp [Labelled.all, List.find?, h]

/-- Whether symbols of a kind have a scope in a slot. -/
def SymbolKind.hasScope (kind : SymbolKind) (slot : ScopeSlot) : Bool :=
  match kind with
  | .root | .namespaceKind => slot == .types || slot == .programs || slot == .namespaces
  | .program | .procedure => slot != .namespaces
  | _ => false

theorem Symbol.isSome_scope? (s : Symbol) (slot : ScopeSlot) : (s.scope? slot).isSome = s.kind.hasScope slot := by
  unfold Symbol.scope? Symbol.kind
  cases s.body with
  | item data => cases hkind : data.kind <;> simp [hkind, SymbolKind.hasScope]
  | paragraph heading => rfl
  | heading => rfl
  | _ => cases slot <;> rfl

theorem SymbolKind.hasScope_of_isProgramLike {kind : SymbolKind} (h : kind.isProgramLike = true) {slot : ScopeSlot}
    (hslot : slot ≠ .namespaces) : kind.hasScope slot = true := by
  cases kind <;> simp [hasScope, isProgramLike, hslot] at h ⊢

/-- Scopes are there to stay. -/
theorem Table.Extends.isSome_scope? {t t' : Table} (h : t.Extends t')
    (hgroups : ∀ id, (t.get id).fields?.isSome = true → (t'.get id).fields?.isSome = true) {ref : ScopeRef}
    (href : (t.scope? ref).isSome = true) : (t'.scope? ref).isSome = true := by
  have hlt := lt_size_of_scope? href
  cases ref with
  | slot owner slot =>
    have hscope : ((t.get owner).scope? slot).isSome = true := href
    have hkind : (t'.get owner).kind = (t.get owner).kind := h.kind hlt
    have hscope' : ((t'.get owner).scope? slot).isSome = true := by
      rw [Symbol.isSome_scope?, hkind, ← Symbol.isSome_scope?, hscope]
    exact hscope'
  | fields owner => exact hgroups owner href

theorem SymbolFlags.Avoids.neutral (h : flags.Avoids fun f => !f.tellsPassing) : flags.Neutral :=
  h.mono fun f hf => by cases f <;> first | rfl | cases hf

namespace Declarations

section Flags

variable (d : Declarations) (origin : Option StorageSection) (entry : Option DataEntry)

theorem neutral_kindFlags (entry : DataEntry) (kind : ItemKind) : (kindFlags entry kind).Neutral := by
  cases kind with
  | redefines target => exact avoids_single rfl
  | typeDefinition restriction items =>
    refine Avoids.insertIf (avoids_ofList _ ?_) _ rfl
    intro flag hflag
    rcases List.mem_cons.mp hflag with hflag | hflag
    · rw [hflag]
      cases restriction <;> rfl
    · obtain ⟨visibility, _, hvisibility⟩ := List.mem_map.mp hflag
      rw [← hvisibility]
      cases visibility <;> rfl
  | _ => exact avoids_empty

theorem not_mem_placeMarks {flag : SymbolFlag} (h : flag.tellsPlace = true) : flag ∉ placeMarks := by
  have hall : ∀ other ∈ placeMarks, other.tellsPlace = false := by decide
  intro hmem
  rw [hall flag hmem] at h
  cases h

theorem has_origin (s : StorageSection) :
    (FlagSet.ofList (origin.toList.map StorageSection.flag)).has s.flag = decide (origin = some s) := by
  cases origin with
  | none => simp
  | some kept => cases kept <;> cases s <;> simp [SymbolFlag.has_single, StorageSection.flag]

theorem has_removed_origin : (FlagSet.ofList (origin.toList.map StorageSection.flag)).has .removed = false := by
  cases origin with
  | none => simp
  | some kept => cases kept <;> simp [SymbolFlag.has_single, StorageSection.flag]

variable {d}

/-- A data symbol that is placed tells the storage section being read. -/
theorem storage?_placed (place : Placement) {s : Symbol} (h : s.flags.Neutral) :
    (d.placed entry place s).flags.storage? = d.originOf place s.kind := by
  apply storage?_eq
  intro kept
  have hflags : (d.placed entry place s).flags = s.flags ∪ d.placeFlags entry place s.kind := rfl
  rw [hflags, has_union, h _ kept.tellsPlace_flag, Bool.false_or, has_placeFlags d _ _ _ (not_mem_placeMarks kept.tellsPlace_flag),
    has_origin]

theorem isRemoved_placed (place : Placement) {s : Symbol} (h : s.flags.Neutral) :
    (d.placed entry place s).isRemoved = false := by
  have hflags : (d.placed entry place s).flags = s.flags ∪ d.placeFlags entry place s.kind := rfl
  rw [Symbol.isRemoved, hflags, has_union, h _ rfl, Bool.false_or, has_placeFlags d _ _ _ (not_mem_placeMarks rfl),
    has_removed_origin]

/-- An index tells the storage section of the item that it belongs to. -/
theorem storage?_indexSymbol (indexed : SymbolId) (name : IndexName) :
    (d.indexSymbol indexed name).flags.storage? = (d.table.get indexed).flags.storage? := by
  apply storage?_congr
  intro kept
  have horigin : SymbolFlags.storageOrigin.has kept.flag = true := by
    cases kept <;> decide
  rw [flags_indexSymbol, has_inter, has_union, horigin, Bool.or_true, Bool.and_true]

theorem isRemoved_indexSymbol (indexed : SymbolId) (name : IndexName) :
    (d.indexSymbol indexed name).isRemoved = false := by
  have hnone : (FlagSet.ofList [SymbolFlag.global, .inTypeBody] ∪ SymbolFlags.storageOrigin).has .removed = false := by
    decide
  rw [Symbol.isRemoved, flags_indexSymbol, has_inter, hnone, Bool.and_false]

end Flags

/-- The declarations have grown by settled symbols, and the storage section being read is the same. -/
structure Grows (base : Nat) (d d' : Declarations) : Prop extends Table.Grows base d.table d'.table where
  storage : d'.storage = d.storage

variable {base : Nat} {d d' d'' : Declarations} {id : SymbolId} {typeBody : Option SymbolId}

theorem Grows.refl (ht : d.table.Tidy) : Grows base d d := ⟨Table.Grows.refl ht, rfl⟩

theorem Grows.trans (h : Grows base d d') (h' : Grows base d' d'') : Grows base d d'' :=
  ⟨h.toGrows.trans h.tidy.ordered h'.toGrows, h'.storage.trans h.storage⟩

section Quiet

variable (ht : d.table.Tidy)
include ht

/-- A change of one symbol that its ledger does not tell. -/
theorem modify_grows {f : Symbol → Symbol} (hidentity : (f (d.table.get id)).identity = (d.table.get id).identity)
    (hstance : (f (d.table.get id)).stance = (d.table.get id).stance)
    (hgroup : (d.table.get id).fields?.isSome = true → (f (d.table.get id)).fields?.isSome = true)
    (hitem : (f (d.table.get id)).fields?.isSome = true → (d.table.get id).kind.isItem = true) :
    Grows base d (d.modify id f) := by
  have htable : (d.modify id f).table = d.table.modify id f := rfl
  refine ⟨Table.Grows.of_ledger ht (extends_modify d id hidentity) (size_modify _ _ _)
    (ledger_congr (view_modify Symbol.stance hstance) rfl rfl) rfl ?_ ?_, rfl⟩
  · intro x hx
    rw [htable, get_modify]
    split
    · rename_i h
      rw [h.1] at hx ⊢
      exact hgroup hx
    · exact hx
  · intro x hx
    rw [htable, get_modify] at hx ⊢
    split at hx
    · rename_i h
      rw [if_pos h]
      have hkind : (f (d.table.get x)).kind = (d.table.get x).kind := by
        rw [h.1]
        exact congrArg (·.2.2.1) hidentity
      rw [hkind, h.1]
      exact hitem (h.1 ▸ hx)
    · rename_i h
      rw [if_neg h]
      exact ht.groups x hx

/-- A change that keeps the fields of a symbol. -/
theorem modify_grows_of_fields {f : Symbol → Symbol}
    (hidentity : (f (d.table.get id)).identity = (d.table.get id).identity)
    (hstance : (f (d.table.get id)).stance = (d.table.get id).stance)
    (hfields : (f (d.table.get id)).fields? = (d.table.get id).fields?) : Grows base d (d.modify id f) := by
  refine modify_grows ht hidentity hstance ?_ ?_
  · rw [hfields]
    exact fun h => h
  · rw [hfields]
    exact ht.groups id

/-- Reporting changes nothing in the table. -/
theorem context_grows {c : Context} (htable : c.table = d.context.table) : Grows base d { d with context := c } := by
  refine ⟨?_, rfl⟩
  rw [table_setContext htable]
  exact Table.Grows.refl ht

theorem setType_grows (hitem : (d.table.get id).kind.isItem = true) (hnone : (d.table.get id).type = none)
    {type : DataType} (htype : (type.fields?.map (·.order)).getD [] = []) : Grows base d (d.setType id type) := by
  refine modify_grows ht rfl (stance_setType ?_) ?_ fun _ => hitem
  · have hbefore : (d.table.get id).fieldList = [] := by simp [fieldList, Symbol.fields?, hnone]
    rw [hbefore]
    exact htype
  · intro h
    simp [Symbol.fields?, hnone] at h

theorem queueTyped_grows (typeBody : Option SymbolId) : Grows base d (d.queueTyped id typeBody) := by
  cases typeBody with
  | none => exact ⟨Table.Grows.refl ht, rfl⟩
  | some type =>
    refine modify_grows_of_fields ht (identity_mapItem _ _ (ItemData.addTypedItem_level id)
      (ItemData.addTypedItem_core id)) (stance_mapItem _ fun data => ?_)
      (congrArg (Option.bind · DataType.fields?) (mapItem_type _ _))
    unfold ItemData.addTypedItem
    split <;> rfl

theorem queueDependent_grows (typeBody : Option SymbolId) : Grows base d (d.queueDependent id typeBody) := by
  refine ⟨?_, ?_⟩
  · rw [queueDependent_table]
    exact Table.Grows.refl ht
  · unfold queueDependent
    cases typeBody with
    | none => rfl
    | some type =>
      simp only
      split <;> rfl

theorem elementaryType_grows (entry : DataEntry) : Grows base d (d.elementaryType entry).2 := by
  unfold elementaryType
  split
  · exact Grows.refl ht
  · split
    · exact Grows.refl ht
    · exact context_grows ht rfl

theorem setElementary_grows (hitem : (d.table.get id).kind.isItem = true) (hnone : (d.table.get id).type = none)
    (entry : DataEntry) (typeBody : Option SymbolId) : Grows base d (d.setElementary id entry typeBody) := by
  have hfirst : Grows base d (d.elementaryType entry).2 := elementaryType_grows ht entry
  have htable : (d.elementaryType entry).2.table = d.table := elementaryType_table entry
  refine hfirst.trans ?_
  unfold setElementary
  split
  · rename_i type d' heq
    have htype : type.IsElementary := elementaryType_isElementary (congrArg Prod.fst heq)
    rw [heq] at hfirst htable ⊢
    have hunconnected : type = .group {} none id ∨ type.IsElementary := .inr htype
    exact setType_grows hfirst.tidy (htable ▸ hitem) (htable ▸ hnone) (DataType.unconnected hunconnected).1
  · rename_i d' heq
    rw [heq] at hfirst htable ⊢
    split
    · rename_i reference hreference
      have hset : Grows base d' (d'.setType id (.named ⟨reference.name, reference.position, none⟩)) :=
        setType_grows hfirst.tidy (htable ▸ hitem) (htable ▸ hnone) rfl
      exact hset.trans (queueTyped_grows hset.tidy typeBody)
    · exact context_grows hfirst.tidy (Context.told_reportAt _ _ rfl _).table

theorem setLeading_grows (entry : DataEntry) : Grows base d (d.setLeading id entry) := by
  have hfirst : Grows base d (d.elementaryType entry).2 := elementaryType_grows ht entry
  have hfields : ∀ type : DataType, (type.setLeading (d.elementaryType entry).1).fields? = type.fields? :=
    DataType.fields?_setLeading _
  have hsame : ∀ s : Symbol,
      ({ s with type := s.type.map (DataType.setLeading (d.elementaryType entry).1) } : Symbol).fields? = s.fields? := by
    intro s
    unfold Symbol.fields?
    cases s.type with
    | none => rfl
    | some type => exact hfields type
  have hset : Grows base (d.elementaryType entry).2 ((d.elementaryType entry).2.modify id fun s =>
      { s with type := s.type.map (DataType.setLeading (d.elementaryType entry).1) }) :=
    modify_grows_of_fields hfirst.tidy rfl (stance_mapType _ hfields) (hsame _)
  exact hfirst.trans hset

/-- A table has the fields of its element. -/
theorem wrapArray_grows (entry : DataEntry) (typeBody : Option SymbolId) :
    Grows base d (d.wrapArray id entry typeBody) := by
  unfold wrapArray
  split
  · rename_i occurs element hoccurs htype
    split
    · exact Grows.refl ht
    · have hwrap : ∀ object, Grows base d (d.setType id (.array element occurs.min occurs.max object)) := by
        intro object
        have hsame : ({ d.table.get id with type := some (.array element occurs.min occurs.max object) } :
            Symbol).fields? = (d.table.get id).fields? := by
          unfold Symbol.fields?
          rw [htype]
          rfl
        refine modify_grows_of_fields ht rfl (stance_setType ?_) hsame
        unfold fieldList
        rw [hsame]
      simp only
      split
      · exact (hwrap _).trans (queueDependent_grows (hwrap _).tidy typeBody)
      · exact hwrap _
  · exact Grows.refl ht

theorem addToDomain_grows : Grows base d (d.addToDomain id) := by
  unfold addToDomain
  split
  · rename_i scope hscope
    exact @modify_grows_of_fields base d scope ht _ (identity_mapProgram _ _)
      (stance_mapProgram _ fun _ => rfl) (congrArg (Option.bind · DataType.fields?) (mapProgram_type _ _))
  · exact Grows.refl ht

theorem addFlags_grows {flags : SymbolFlags} (h : flags.Neutral) : Grows base d (d.addFlags id flags) :=
  modify_grows_of_fields ht rfl (stance_union _ h) rfl

end Quiet

section Settling

variable {owner : SymbolId} {parent : Option ScopeRef}

/-- A data item that has everything but its place in the table. -/
structure Awaits (d : Declarations) (base : Nat) (id owner : SymbolId) (parent : Option ScopeRef) : Prop where
  tidy : d.table.Tidy
  ledger : d.table.ledger id = { Ledger.blank with storage := (d.table.get id).flags.storage? }
  item : (d.table.get id).kind.isItem = true
  owned : d.table.OwnedBy id owner
  base_le : base ≤ owner
  scope : ∀ ref, parent = some ref → (d.table.scope? ref).isSome = true ∧ ref.owner = owner
  sectionless : d.table.Sectionless id ↔ parent = none

section

variable (h : d.Awaits base id owner parent)
include h

theorem Awaits.lt : id < d.table.size := h.owned.lt_size

/-- A data item is entered into its scope, if there is one. -/
theorem Awaits.enterIn :
    Touches id d.table (d.enterIn id parent).table ∧ (d.enterIn id parent).table.ledger id =
      { Ledger.blank with
        listed := fun c => if parent.map ScopeRef.owner = some c then 1 else 0
        storage := (d.table.get id).flags.storage? } := by
  cases parent with
  | none =>
    have hsame : Table.Grows base d.table d.table := Table.Grows.refl h.tidy
    refine ⟨hsame.touches rfl h.tidy, ?_⟩
    have hsame : (d.enterIn id none).table = d.table := rfl
    rw [hsame, h.ledger]
    simp [Ledger.blank]
  | some ref =>
    obtain ⟨hscope, _⟩ := h.scope ref rfl
    have htable : (d.enterIn id (some ref)).table = d.table.enter ref id := rfl
    rw [htable]
    refine ⟨h.tidy.enter hscope h.lt, ?_⟩
    rw [ledger_enter hscope, if_pos rfl, h.ledger]
    simp [Ledger.list, Ledger.blank, eq_comm]

/-- A data item whose ledger tells that it is in its scope is settled. -/
theorem Awaits.settled {t : Table} {ledger : Ledger}
    (htouches : Touches id d.table t) (hledger : t.ledger id = ledger)
    (hlisted : ∀ c, ledger.listed c = if parent.map ScopeRef.owner = some c then 1 else 0)
    (hstorage : ledger.storage = (d.table.get id).flags.storage?) (hremoved : ledger.removed = false)
    (hslot : ledger.slot.isSome = true ↔ d.table.Home id none)
    (htypes : ∀ name, ledger.types name =
      if (d.table.get id).kind = .typeDefinition ∧ name = d.table.name id then 1 else 0)
    (hprogs : ∀ name, ledger.programs name = 0) : t.Settled base id := by
  have hext := htouches.toExtends
  have hordered := h.tidy.ordered
  -- the item lies outside of every storage section as before
  have hsectionless : t.Sectionless id ↔ parent = none := by
    rw [hext.sectionless_iff hordered h.lt (by rw [hledger]; exact hstorage), h.sectionless]
  constructor
  case present => rw [hledger, hremoved]
  case owner =>
    refine ⟨owner, (hext.ownedBy_iff h.lt).mpr h.owned, h.base_le, fun _ => ?_⟩
    rw [hext.kind h.lt, h.item]
  case entered =>
    intro hsection
    rw [hsectionless] at hsection
    obtain ⟨ref, rfl⟩ := Option.ne_none_iff_exists'.mp hsection
    obtain ⟨_, howner⟩ := h.scope ref rfl
    refine ⟨owner, h.base_le, ?_, hordered id owner h.owned, .inl ((hext.ownedBy_iff h.lt).mpr h.owned)⟩
    intro c
    rw [hledger, hlisted, Option.map_some, howner]
    simp only [Option.some.injEq, eq_comm]
  case aside =>
    intro hsection c
    rw [hsectionless] at hsection
    rw [hledger, hlisted, hsection]
    simp
  case slot =>
    rw [hledger, hslot, hext.kind h.lt, hext.home_none_iff hordered h.lt]
    simp [h.item]
  case types =>
    intro name
    rw [hledger, htypes, hext.kind h.lt, Table.name, Table.name, hext.name h.lt]
  case programs =>
    intro name
    rw [hledger, hprogs]
    exact Nat.zero_le _

/-- A type definition is entered and registered. -/
theorem Awaits.registerType (htype : d.table.IsType id) :
    Touches id d.table ((d.enterIn id parent).registerType id).table ∧
      ((d.enterIn id parent).registerType id).table.Settled base id := by
  obtain ⟨hentered, hledger⟩ := h.enterIn
  have hlt : id < (d.enterIn id parent).table.size := hentered.size_eq ▸ h.lt
  have htable : ((d.enterIn id parent).registerType id).table = (d.enterIn id parent).table.registerType id := rfl
  have hreg := hentered.trans (hentered.tidy.register hlt).1
  rw [htable]
  refine ⟨hreg, ?_⟩
  have hname : (d.enterIn id parent).table.name id = d.table.name id := hentered.name h.lt
  refine h.settled hreg (ledger_registerType _ id id) ?_ ?_ ?_ ?_ ?_ ?_
  · simp [hledger]
  · simp [hledger]
  · simp [hledger, Ledger.blank]
  · have hin : ¬ d.table.Home id none := (Home.self htype).not_none
    simp [hledger, Ledger.blank, hin]
  · intro name
    have hkind : (d.table.get id).kind = .typeDefinition := htype
    simp [hledger, Ledger.blank, hname, hkind]
  · simp [hledger, Ledger.blank]

end

theorem storeVariable_storage (id : SymbolId) (typeBody : Option SymbolId) :
    (d.storeVariable id typeBody).storage = d.storage := by
  cases typeBody with
  | none =>
    have hdomain : (d.addToDomain id).storage = d.storage := by
      unfold addToDomain
      split <;> rfl
    exact hdomain
  | some type => rfl

theorem enterIn_storage (id : SymbolId) (parent : Option ScopeRef) : (d.enterIn id parent).storage = d.storage := by
  cases parent <;> rfl

/-- An item that is no type definition is entered and gets a slot, unless it lies in a type. -/
theorem Awaits.storeVariable (h : d.Awaits base id owner parent) (htype : ¬ d.table.IsType id)
    (hhome : d.table.Home id typeBody) :
    Touches id d.table ((d.enterIn id parent).storeVariable id typeBody).table ∧
      ((d.enterIn id parent).storeVariable id typeBody).table.Settled base id ∧
      (((d.enterIn id parent).storeVariable id typeBody).table.get id).flags.storage? =
        (d.table.get id).flags.storage? := by
  obtain ⟨hentered, hledger⟩ := h.enterIn
  have hkind : (d.table.get id).kind ≠ .typeDefinition := htype
  cases typeBody with
  | some type =>
    refine ⟨hentered, h.settled hentered hledger ?_ ?_ ?_ ?_ ?_ ?_, congrArg Ledger.storage hledger⟩
    · simp
    · simp
    · simp [Ledger.blank]
    · simp [Ledger.blank, hhome.not_none]
    · simp [Ledger.blank, hkind]
    · simp [Ledger.blank]
  | none =>
    have hdomain : Grows base (d.enterIn id parent) ((d.enterIn id parent).addToDomain id) :=
      addToDomain_grows hentered.tidy
    have hsize : ((d.enterIn id parent).addToDomain id).table.size = (d.enterIn id parent).table.size := by
      unfold addToDomain
      split
      · exact size_addToDomain _ _ _
      · rfl
    have hlt : id < (d.enterIn id parent).table.size := hentered.size_eq ▸ h.lt
    have hlisted := hentered.trans (hdomain.toGrows.touches hsize hentered.tidy)
    have hledger' := (hdomain.kept id hlt).trans hledger
    have hitem : (((d.enterIn id parent).addToDomain id).table.get id).kind.isItem = true := by
      rw [hlisted.kind h.lt, h.item]
    have hnone : (((d.enterIn id parent).addToDomain id).table.get id).slot? = none := by
      have heq : (((d.enterIn id parent).addToDomain id).table.get id).slot? = _ := congrArg Ledger.slot hledger'
      rw [heq]
      rfl
    have hstored := hlisted.trans (hlisted.tidy.addVariable hitem hnone (hlisted.size_eq ▸ h.lt))
    have htable : ((d.enterIn id parent).storeVariable id none).table =
        (((d.enterIn id parent).addToDomain id).table.addVariable id).2 := rfl
    have hfinal := ledger_addVariable hitem id
    rw [if_pos rfl, hledger'] at hfinal
    rw [htable]
    refine ⟨hstored, h.settled hstored hfinal ?_ ?_ ?_ ?_ ?_ ?_, congrArg Ledger.storage hfinal⟩
    · simp
    · simp
    · simp [Ledger.blank]
    · simp [hhome]
    · simp [Ledger.blank, hkind]
    · simp [Ledger.blank]

end Settling

section Items

variable {place : Placement} {owner : SymbolId} {kind : ItemKind} {ref : ScopeRef} {s : Symbol} {indexed : SymbolId}
  {fields : Placement → Declarations → Forest × Declarations} {entry : DataEntry} {isType : Bool}

/-- A new symbol takes no scope away. -/
theorem isSome_scope?_alloc (s : Symbol) (h : (d.table.scope? ref).isSome = true) :
    ((d.alloc s).2.table.scope? ref).isSome = true := by
  have hlt := lt_size_of_scope? h
  have hget := get_alloc_of_lt s hlt
  have hsame : (d.alloc s).2.table.scope? ref = d.table.scope? ref := by
    cases ref with
    | slot owner slot => exact congrArg (Symbol.scope? · slot) hget
    | fields owner => exact congrArg Symbol.fields? hget
  rw [hsame, h]

theorem tidy_alloc (ht : d.table.Tidy) (hfresh : s.Fresh) (hordered : (d.alloc s).2.table.Ordered) :
    (d.alloc s).2.table.Tidy := ht.alloc hfresh.contents_eq hfresh.slot?_eq hfresh.fields?_eq hordered

theorem not_isProgramLike_of_isItem {k : SymbolKind} (h : k.isItem = true) : ¬ k.isProgramLike = true := by
  intro hprog
  have hscope := SymbolKind.isScope_of_isProgramLike hprog
  rw [SymbolKind.isScope_of_isItem h] at hscope
  cases hscope

/-- A place goes with the storage section being read: the scope is there, an item that is placed in no scope lies outside
of every storage section, and one that is placed in a scope of a program, other than that of the types, does not. -/
structure Lodges (d : Declarations) (place : Placement) (owner : SymbolId) : Prop where
  scope : ∀ ref, place.parent = some ref → (d.table.scope? ref).isSome = true
  outside : place.parent = none →
    d.storage = none ∧ (d.table.get owner).kind.isProgramLike = true
  stored : ∀ o slot, place.parent = some (.slot o slot) → slot ≠ .types →
    d.storage.isSome = true ∧ place.typeBody = none
  field : ∀ group, place.parent = some (.fields group) → (d.table.get group).kind.isItem = true

theorem Lodges.grows (h : d.Lodges place owner) (hgrows : Grows base d d') (howner : owner < d.table.size) :
    d'.Lodges place owner where
  scope ref hparent := hgrows.toExtends.isSome_scope? hgrows.groups (h.scope ref hparent)
  outside hparent := by
    obtain ⟨hstorage, hkind⟩ := h.outside hparent
    exact ⟨hgrows.storage.trans hstorage, by rw [hgrows.kind howner, hkind]⟩
  stored o slot hparent hslot := by
    obtain ⟨hstorage, hbody⟩ := h.stored o slot hparent hslot
    exact ⟨by rw [hgrows.storage, hstorage], hbody⟩
  field group hparent := by
    have hgroup : group < d.table.size := lt_size_of_scope? (h.scope _ hparent)
    rw [hgrows.kind hgroup, h.field group hparent]

/-- The symbol of a data item that can be made in a place: it belongs to the owner of the place and tells the storage
section being read; types, and only they, are placed among the types. -/
structure Lodger (d : Declarations) (place : Placement) (owner : SymbolId) (s : Symbol) (isType : Bool) : Prop where
  fresh : s.Fresh
  present : s.isRemoved = false
  item : s.kind.isItem = true
  type : s.kind = .typeDefinition ↔ isType = true
  owner_eq : s.owner = some owner
  storage : s.flags.storage? = if place.typeBody.isNone && !isType then d.storage else none
  slot : ∀ ref, place.parent = some ref → ((∃ o, ref = .slot o .types) ↔ isType = true)
  plain : place.parent = none → isType = false

section Lodger

variable (h : d.Lodger place owner s isType)
include h

theorem Lodger.isType_iff (hext : (d.alloc s).2.table.Extends d'.table) :
    d'.table.IsType d.table.size ↔ isType = true := by
  unfold IsType
  rw [hext.kind (d.lt_size_alloc s), d.get_made s]
  exact h.type

theorem Lodger.ownedBy (hext : (d.alloc s).2.table.Extends d'.table) : d'.table.OwnedBy d.table.size owner :=
  (hext.ownedBy_iff (d.lt_size_alloc s)).mpr (d.ownedBy_made h.owner_eq)

theorem Lodger.storage?_eq (hgrown : Grows base (d.alloc s).2 d') : (d'.table.get d.table.size).flags.storage? =
    if place.typeBody.isNone && !isType then d.storage else none := by
  have hkept : (d'.table.get d.table.size).flags.storage? =
      ((d.alloc s).2.table.get d.table.size).flags.storage? :=
    congrArg Ledger.storage (hgrown.kept _ (d.lt_size_alloc s))
  rw [hkept, d.get_made s, h.storage]

variable (hfits : d.Fits base place owner) (hlodges : d.Lodges place owner)
include hfits

theorem Lodger.tidy_alloc (ht : d.table.Tidy) : (d.alloc s).2.table.Tidy :=
  Declarations.tidy_alloc ht h.fresh (ht.ordered.alloc h.owner_eq hfits.owner_lt)

include hlodges

/-- An item is outside of every storage section exactly when it is placed in no scope. -/
theorem Lodger.sectionless_iff (hgrown : Grows base (d.alloc s).2 d') :
    d'.table.Sectionless d.table.size ↔ place.parent = none := by
  have hown := h.ownedBy hgrown.toExtends
  have htype := h.isType_iff hgrown.toExtends
  have hstorage := h.storage?_eq hgrown
  have howner := ((Extends.alloc d.table s).trans hgrown.toExtends).kind hfits.owner_lt
  constructor
  · rintro ⟨_, hnot, ⟨o, ho, hprog⟩, hnone⟩
    rw [← hown.unique ho, howner] at hprog
    by_contra hparent
    obtain ⟨ref, hparent⟩ := Option.ne_none_iff_exists'.mp hparent
    have hplain : isType = false := Bool.eq_false_iff.mpr fun heq => hnot (htype.mpr heq)
    cases ref with
    | fields group =>
      have hgroup : group = owner := hfits.owner_of_parent hparent
      rw [← hgroup] at hprog
      exact not_isProgramLike_of_isItem (hlodges.field group hparent) hprog
    | slot o' slot =>
      have hslot' : slot ≠ .types := by
        rintro rfl
        have hyes := (h.slot _ hparent).mp ⟨o', rfl⟩
        rw [hplain] at hyes
        cases hyes
      obtain ⟨hsome, hbody⟩ := hlodges.stored o' slot hparent hslot'
      rw [hplain, hbody] at hstorage
      have hstorage' : (d'.table.get d.table.size).flags.storage? = d.storage := hstorage
      rw [← hstorage', hnone] at hsome
      cases hsome
  · intro hparent
    obtain ⟨hnone, hprog⟩ := hlodges.outside hparent
    refine ⟨?_, ?_, ⟨owner, hown, by rw [howner, hprog]⟩, ?_⟩
    · rw [hgrown.kind (d.lt_size_alloc s), d.get_made s]
      exact h.item
    · rw [htype, h.plain hparent]
      exact Bool.false_ne_true
    · rw [hstorage, hnone]
      split <;> rfl

variable (ht : d.table.Tidy) (hgrown : Grows base (d.alloc s).2 d')
include ht hgrown

/-- A new item with everything that lies in it waits for its place. -/
theorem Lodger.awaits : d'.Awaits base d.table.size owner place.parent := by
  have hlt := d.lt_size_alloc s
  have hkept := (hgrown.kept _ hlt).trans (ht.ledger_alloc h.fresh.contents_eq h.fresh.slot?_eq h.present)
  refine ⟨hgrown.tidy, ?_, ?_, h.ownedBy hgrown.toExtends, hfits.base_le, fun ref hparent => ⟨?_, ?_⟩,
    h.sectionless_iff hfits hlodges hgrown⟩
  · have hstorage : (d'.table.get d.table.size).flags.storage? = s.flags.storage? := congrArg Ledger.storage hkept
    rw [hstorage, hkept]
  · rw [hgrown.kind hlt, d.get_made s, h.item]
  · exact hgrown.toExtends.isSome_scope? hgrown.groups (isSome_scope?_alloc _ (hlodges.scope ref hparent))
  · exact hfits.owner_of_parent hparent

end Lodger

section Stored

variable (h : d.Lodger place owner s false) (hfits : d.Fits base place owner) (hlodges : d.Lodges place owner)
  (ht : d.table.Tidy)
include h hfits hlodges ht

/-- An item that is no type definition is settled when it is entered into its scope and stored. -/
theorem Lodger.stored (hgrown : Grows base (d.alloc s).2 d') (hhome : d'.table.Home d.table.size place.typeBody)
    {stored : Declarations}
    (hstored : stored = (d'.enterIn d.table.size place.parent).storeVariable d.table.size place.typeBody) :
    Grows base d stored ∧ stored.table.OwnedBy d.table.size owner ∧
      (stored.table.get d.table.size).flags.storage? = if place.typeBody.isNone then stored.storage else none := by
  have hawaits := h.awaits hfits hlodges ht hgrown
  have hnot : ¬ d'.table.IsType d.table.size := fun htype => nomatch (h.isType_iff hgrown.toExtends).mp htype
  obtain ⟨htouches, hsettled, hsame⟩ := hawaits.storeVariable hnot hhome
  have hstorage := (storeVariable_storage (d := d'.enterIn d.table.size place.parent) d.table.size place.typeBody).trans
    ((enterIn_storage d.table.size place.parent).trans hgrown.storage)
  subst hstored
  refine ⟨⟨Table.Grows.settle h.fresh.contents_eq hgrown.toGrows htouches hsettled, hstorage⟩, ?_, ?_⟩
  · exact (htouches.ownedBy_iff hawaits.lt).mpr hawaits.owned
  · rw [hsame, h.storage?_eq hgrown, hstorage, Bool.not_false, Bool.and_true]
    rfl

/-- An item with nothing in it. -/
theorem Lodger.made {stored : Declarations}
    (hstored : stored = ((d.alloc s).2.enterIn d.table.size place.parent).storeVariable d.table.size place.typeBody) :
    Grows base d stored := by
  have hext := Extends.alloc d.table s
  have hhome := Home.of_owner (h.ownedBy (Extends.refl _)) (fun htype => nomatch (h.isType_iff (Extends.refl _)).mp htype)
    (hext.home ht.ordered hfits.owner_lt hfits.home)
  exact (h.stored hfits hlodges ht (Grows.refl (h.tidy_alloc hfits ht)) hhome hstored).1

end Stored

theorem Fits.grows (h : d.Fits base ⟨some ref, typeBody⟩ owner) (hgrows : Grows base d d') :
    d'.Fits base ⟨some ref, typeBody⟩ owner where
  ordered := hgrows.tidy.ordered
  owner_eq := h.owner_eq
  owner_lt := h.owner_lt.trans_le hgrows.size_le
  base_le := h.base_le
  home := hgrows.toExtends.home h.ordered h.owner_lt h.home
  body_le := h.body_le

/-- The indexes of an item are entered next to it and tell its storage section. -/
theorem declareIndexes_grows (href : ∀ o, ref ≠ .slot o .types) (forest : Forest) (d : Declarations)
    (hfits : d.Fits base ⟨some ref, typeBody⟩ owner) (hlodges : d.Lodges ⟨some ref, typeBody⟩ owner)
    (ht : d.table.Tidy) (hindexed : d.table.OwnedBy indexed owner)
    (hstorage : (d.table.get indexed).flags.storage? = if typeBody.isNone then d.storage else none) :
    Grows base d (declareIndexes indexed ref typeBody forest d).2 := by
  induction forest generalizing d with
  | nil => exact Grows.refl ht
  | cons node children siblings _ ih =>
    unfold declareIndexes
    split
    · rename_i name _
      have hlodger : d.Lodger ⟨some ref, typeBody⟩ owner (d.indexSymbol indexed name) false := by
        refine ⟨d.fresh_indexSymbol indexed name, isRemoved_indexSymbol indexed name, rfl, ⟨nofun, nofun⟩, hindexed, ?_, ?_,
          nofun⟩
        · rw [storage?_indexSymbol, hstorage, Bool.not_false, Bool.and_true]
        · rintro _ ⟨⟩
          exact ⟨fun ⟨o, ho⟩ => absurd ho (href o), nofun⟩
      have hindex : Grows base d (d.declareIndex indexed ref typeBody name).2 := hlodger.made hfits hlodges ht rfl
      have hlt := hindexed.lt_size
      refine hindex.trans (ih _ (hfits.grows hindex) (hlodges.grows hindex hfits.owner_lt) hindex.tidy
        ((hindex.ownedBy_iff hlt).mpr hindexed) ?_)
      have hkept : ((d.declareIndex indexed ref typeBody name).2.table.get indexed).flags.storage? =
          (d.table.get indexed).flags.storage? := congrArg Ledger.storage (hindex.kept indexed hlt)
      rw [hkept, hstorage, hindex.storage]
    · exact ih d hfits hlodges ht hindexed hstorage

/-- What makes the fields of a group settles them. -/
def FieldsGrow (base : Nat) (id : SymbolId) (typeBody : Option SymbolId)
    (fields : Placement → Declarations → Forest × Declarations) : Prop :=
  ∀ d : Declarations, d.Underway base id typeBody → d.table.Tidy → (d.table.get id).fields?.isSome = true →
    Grows base d (fields ⟨some (.fields id), typeBody⟩ d).2

/-- The content of an item is settled before the item. -/
theorem declareContent_grows (ht : d.table.Tidy) (h : d.Underway base id typeBody)
    (hnone : (d.table.get id).type = none) (entry : DataEntry) (children : Forest)
    (hfields : FieldsGrow base id typeBody fields) :
    Grows base d (d.declareContent id entry typeBody children fields).2 := by
  unfold declareContent
  split
  · have hgroup : Grows base d (d.setType id (.group {} none id)) := setType_grows ht h.kind hnone rfl
    have hmoves : Moves base id none d (d.setType id (.group {} none id)) :=
      (Move.setType d id (.group {} none id) le_rfl h.kind hnone (.inl rfl) h.typable).moves
    have hget : (d.setType id (.group {} none id)).table.get id =
        { d.table.get id with type := some (.group {} none id) } := get_modify_self _ h.lt
    have hsome : ((d.setType id (.group {} none id)).table.get id).fields?.isSome = true := by
      rw [hget]
      rfl
    have hmade := hgroup.trans (hfields _ (h.moves hmoves) hgroup.tidy hsome)
    have hleading := hmade.trans (show Grows base _ (Declarations.setLeading _ id entry) from setLeading_grows hmade.tidy entry)
    exact hleading.trans (wrapArray_grows hleading.tidy entry typeBody)
  · have helem : Grows base d (d.setElementary id entry typeBody) := setElementary_grows ht h.kind hnone entry typeBody
    exact helem.trans (wrapArray_grows helem.tidy entry typeBody)

theorem storage?_itemSymbol (entry : DataEntry) (kind : ItemKind) (place : Placement) :
    (d.itemSymbol entry kind place).flags.storage? =
      if place.typeBody.isNone && !kind.isType then d.storage else none := by
  have hflags : (d.itemSymbol entry kind place).flags.storage? = d.originOf place kind.symbolKind := by
    have hplaced : d.itemSymbol entry kind place = d.placed (some entry) place
        { name := entry.displayName, flags := kindFlags entry kind, position := entry.position,
          body := .item { level := entry.level, value := entry.value.map .initial, kind } } := rfl
    rw [hplaced, storage?_placed _ _ (neutral_kindFlags entry kind), kind_of_item rfl]
  rw [hflags, originOf]
  cases kind <;> rfl

/-- The symbol of an entry fits its place. -/
theorem Accepts.lodger (h : d.Accepts base place owner entry.level kind) (hplain : place.parent = none → kind.isType = false) :
    d.Lodger place owner (d.itemSymbol entry kind place) kind.isType where
  fresh := h.fresh entry
  present := isRemoved_placed _ _ (neutral_kindFlags entry kind)
  item := by
    rw [kind_of_item rfl]
    exact kind.isItem_symbolKind
  type := by
    rw [kind_of_item rfl]
    exact kind.symbolKind_eq_typeDefinition
  owner_eq := h.fits.owner_eq
  storage := storage?_itemSymbol entry kind place
  slot := h.slot
  plain := hplain

/-- What is entered after its content is made: the item itself, then its indexes. -/
theorem enterItem_grows (haccepts : d.Accepts base place owner entry.level kind) (hlodges : d.Lodges place owner)
    (ht : d.table.Tidy) (hplain : place.parent = none → kind.isType = false)
    (hgrown : Grows base (d.alloc (d.itemSymbol entry kind place)).2 d')
    (hhome : d'.table.Home d.table.size (if kind.isType then some d.table.size else place.typeBody))
    (children : Forest) : Grows base d (d'.enterItem d.table.size kind.isType place children).2 := by
  have hfits := haccepts.fits
  have hlodger := haccepts.lodger hplain
  unfold enterItem
  cases hkind : kind.isType with
  | true =>
    obtain ⟨htouches, hsettled⟩ := (hlodger.awaits hfits hlodges ht hgrown).registerType
      ((hlodger.isType_iff hgrown.toExtends).mpr hkind)
    exact ⟨Table.Grows.settle hlodger.fresh.contents_eq hgrown.toGrows htouches hsettled,
      (enterIn_storage d.table.size place.parent).trans hgrown.storage⟩
  | false =>
    rw [hkind] at hlodger hhome
    obtain ⟨hstored, hown, hstorage⟩ := hlodger.stored hfits hlodges ht hgrown hhome rfl
    have hslot := hlodger.slot
    clear haccepts hlodger hplain
    obtain ⟨parent, typeBody⟩ := place
    cases parent with
    | none => exact hstored
    | some ref =>
      refine hstored.trans (declareIndexes_grows (fun o heq => ?_) children _ (hfits.grows hstored)
        (hlodges.grows hstored hfits.owner_lt) hstored.tidy hown hstorage)
      cases (hslot ref rfl).mp ⟨o, heq⟩

/-- An item is made with everything below it. -/
theorem declareItem_grows (h : d.Accepts base place owner entry.level kind) (hlodges : d.Lodges place owner)
    (ht : d.table.Tidy) (hplain : place.parent = none → kind.isType = false) (children : Forest)
    (hfields : FieldsGrow base d.table.size (if kind.isType then some d.table.size else place.typeBody) fields)
    (hmoves : FieldsMove base d.table.size (if kind.isType then some d.table.size else place.typeBody) fields) :
    Grows base d (d.declareItem entry kind place children fields).2.2 := by
  have halloc : Moves base d.table.size none d (d.alloc (d.itemSymbol entry kind place)).2 := h.alloc_moves
  have hunder := h.underway
  have htidy := tidy_alloc ht (h.fresh entry) (halloc.ordered ht.ordered)
  have hnone := type_alloc_itemSymbol (d := d) entry kind place
  have hcontent := declareContent_grows htidy hunder hnone entry children hfields
  have hcontentMoves : Moves base d.table.size none (d.alloc (d.itemSymbol entry kind place)).2 _ :=
    declareContent_moves hunder le_rfl hnone entry children hmoves
  exact enterItem_grows h hlodges ht hplain hcontent (hunder.moves hcontentMoves).home _

section

variable (hfits : d.Fits base place owner) (hlodges : d.Lodges place owner)
include hfits hlodges

theorem declarePlain_grows (ht : d.table.Tidy)
    (hslot : ∀ o, place.parent ≠ some (.slot o .types)) (hkind : kind.isType = false ∧ kind.symbolKind ≠ .renames)
    (hredefined : ∀ target, kind = .redefines (some target) → d.table.Redefinable (some entry.level) target)
    (children : Forest) (hfields : FieldsGrow base d.table.size place.typeBody fields)
    (hmoves : FieldsMove base d.table.size place.typeBody fields) :
    Grows base d (d.declareItem entry kind place children fields).2.2 := by
  refine declareItem_grows (hfits.accepts hslot _ hkind hredefined) hlodges ht (fun _ => hkind.1) children ?_ ?_
  · simpa only [hkind.1, Bool.false_eq_true, if_false] using hfields
  · simpa only [hkind.1, Bool.false_eq_true, if_false] using hmoves

theorem placeItem_grows (ht : d.table.Tidy) (hslot : ∀ o, place.parent ≠ some (.slot o .types)) {data : ItemData}
    (hs : Detail s data) : Grows base d (d.placeItem s place).2 := by
  have hneutral : s.flags.Neutral := hs.flags ▸ avoids_empty
  have hlodger : d.Lodger place owner (d.placed none place s) false := by
    refine ⟨fresh_placed hs, isRemoved_placed none place hneutral, ?_, ⟨fun heq => absurd heq hs.kind_ne, nofun⟩,
      hfits.owner_eq, ?_, fun ref hparent => ⟨?_, nofun⟩, fun _ => rfl⟩
    · exact hs.kind_eq ▸ data.kind.isItem_symbolKind
    · rw [storage?_placed none place hneutral, originOf]
      simp [hs.kind_ne]
    · rintro ⟨o, rfl⟩
      exact absurd hparent (hslot o)
  exact hlodger.made hfits hlodges ht rfl

/-- A node makes settled symbols. -/
theorem declareNode_grows (ht : d.table.Tidy) (hslot : ∀ o, place.parent ≠ some (.slot o .types)) (node : Node)
    (children : Forest) (hfields : FieldsGrow base d.table.size place.typeBody fields)
    (hmoves : FieldsMove base d.table.size place.typeBody fields) :
    Grows base d (d.declareNode node place children fields).2.2 := by
  have hnode := d.nodeMade node place children fields
  generalize d.declareNode node place children fields = made at hnode ⊢
  cases hnode with
  | nothing => exact Grows.refl ht
  | item c entry kind htold _ _ _ _ hkind _ hredefined hmade =>
    have htarget : Grows base d { d with context := c } := context_grows ht htold.table
    have hmove : Moves base d.table.size none d { d with context := c } := told_moves htold
    have hsize : c.table.size = d.table.size := congrArg Table.size htold.table
    rw [hmade]
    exact htarget.trans (declarePlain_grows (hfits.moves hmove) (hlodges.grows htarget hfits.owner_lt) htarget.tidy hslot
      hkind hredefined children (hsize.symm ▸ hfields) (hsize.symm ▸ hmoves))
  | alone s data hs _ _ pending _ =>
    have hplaced := placeItem_grows hfits hlodges ht hslot hs
    exact ⟨hplaced.toGrows, hplaced.storage⟩

end

/-- The definitions on top of a forest are settled as fields of a group. -/
theorem fieldsGrow_declareFields (forest : Forest) (group : SymbolId) (typeBody : Option SymbolId) :
    FieldsGrow base group typeBody fun place d => declareFields forest place d := by
  induction forest generalizing group typeBody with
  | nil => exact fun d _ ht _ => Grows.refl ht
  | cons node children siblings ihChildren ihSiblings =>
    intro d hunder ht hgroup
    have hmoves : FieldsMove base d.table.size typeBody _ := fieldsMove_declareFields children _ _
    have hlodges : d.Lodges ⟨some (.fields group), typeBody⟩ group := by
      refine ⟨?_, nofun, nofun, ?_⟩
      · intro ref href
        cases href
        exact hgroup
      · intro other hother
        cases hother
        exact hunder.kind
    have hnode := declareNode_grows hunder.fits hlodges ht (by simp) node children (ihChildren _ _) hmoves
    have hnodeMoves := declareNode_moves hunder.fits (by simp) node children hmoves
    exact hnode.trans (ihSiblings group typeBody _ (hunder.moves hnodeMoves) hnode.tidy (hnode.groups group hgroup))

end Items

end Declarations

end CobolSymbols
