import CobolSymbols.Proofs.Build.Declaring
import CobolSymbols.Proofs.Table.Sound

/-!
# Declaring keeps tables sound

Most moves change nothing that connects symbols. The others are looked at one by one: a new symbol, an entry into the
fields of a group or into the types of a scope, and an item that refers to a type.
-/

set_option autoImplicit false

namespace CobolSymbols

open List Option Symbol

variable {α : Type} {key name : String}

/-- A value found after one more is entered was there before or is the new one. -/
theorem Domain.mem_lookup_enter {d : Domain α} {value x : α}
    (h : x ∈ (d.enter name value).lookup key) : x ∈ d.lookup key ∨ x = value := by
  obtain ⟨entries⟩ := d
  unfold enter lookup at h
  unfold lookup
  induction entries with
  | nil =>
    simp only [enterBucket, lookup_cons, lookup_nil] at h
    split at h
    · exact .inr (mem_singleton.mp h)
    · exact absurd h (not_mem_nil)
  | cons entry rest ih =>
    obtain ⟨key', bucket⟩ := entry
    unfold enterBucket at h
    rw [lookup_cons]
    by_cases hkey : (key == key') = true
    · split at h
      · simp only [lookup_cons, hkey, getD_some, mem_append, mem_singleton] at h ⊢
        exact h
      · simp only [lookup_cons, hkey] at h ⊢
        exact .inl h
    · split at h
      · simp only [lookup_cons, hkey] at h ⊢
        exact .inl h
      · simp only [lookup_cons, hkey] at h ⊢
        exact ih h

theorem Scope.mem_lookup_enter {s : Scope α} {value x : α}
    (h : x ∈ (s.enter name value).lookup key) : x ∈ s.lookup key ∨ x = value :=
  Domain.mem_lookup_enter h

theorem DataType.unconnected {type : DataType} {id : SymbolId} (h : type = .group {} none id ∨ type.IsElementary) :
    (type.fields?.map (·.order)).getD [] = [] ∧ type.reference? = none ∧ type.leading? = none := by
  rcases h with h | h
  · rw [h]
    exact ⟨rfl, rfl, rfl⟩
  · cases type with
    | usage format => exact ⟨rfl, rfl, rfl⟩
    | picture clause => exact ⟨rfl, rfl, rfl⟩
    | _ => cases h

namespace Symbol

variable {f : ProgramData → ProgramData} {name : String}

/-- A new type with the same fields and the same reference keeps the connections. -/
theorem links_setType {s : Symbol} {type : Option DataType}
    (hfields : ({ s with type } : Symbol).fieldList = s.fieldList)
    (href : ({ s with type } : Symbol).reference? = s.reference?)
    (hleading : ({ s with type } : Symbol).leading? = s.leading?) : ({ s with type } : Symbol).links = s.links := by
  unfold links
  rw [hfields, href, hleading]
  rfl

theorem links_array {s : Symbol} {element : DataType} (hsome : s.type = some element) (min max : UInt32)
    (object : Option DependingOn) :
    ({ s with type := some (.array element min max object) } : Symbol).links = s.links := by
  apply links_setType
  · unfold fieldList fields?
    rw [hsome]
    rfl
  · unfold reference?
    rw [hsome]
    rfl
  · unfold leading?
    rw [hsome]
    rfl

/-- Changing the data of an item keeps the connections when its kind stays, listed items included. -/
theorem links_mapItem {s : Symbol} {f : ItemData → ItemData}
    (hkind : ∀ data, (f data).kind.symbolKind = data.kind.symbolKind)
    (hitems : ∀ data restriction items, (f data).kind = .typeDefinition restriction items ↔
      data.kind = .typeDefinition restriction items) : (s.mapItem f).links = s.links := by
  cases hbody : s.body with
  | item data =>
    have hmap : s.mapItem f = { s with body := .item (f data) } := by
      unfold mapItem
      rw [hbody]
    have hbody' : (s.mapItem f).body = .item (f data) := by rw [hmap]
    have hkind' : (s.mapItem f).kind = s.kind := by rw [kind_of_item hbody, kind_of_item hbody', hkind]
    have hitems' : (s.mapItem f).typedItems = s.typedItems := by
      unfold typedItems
      rw [mapItem_item?]
      simp only [item?, hbody, map_some]
      cases h : data.kind with
      | typeDefinition restriction items => rw [(hitems data restriction items).mpr h]
      | _ =>
        split
        · rename_i restriction items hf
          have := (hitems data restriction items).mp (Option.some.inj hf)
          rw [h] at this
          cases this
        · rfl
    unfold links
    rw [hkind', hitems']
    simp [fieldList, fields?, reference?, leading?, references]
  | _ =>
    have hmap : s.mapItem f = s := by
      unfold mapItem
      rw [hbody]
    rw [hmap]

@[simp] theorem mapProgram_types {s : Symbol}
    (hscopes : ∀ data, (f data).scopes.types = data.scopes.types) : (s.mapProgram f).types = s.types := by
  unfold mapProgram types
  cases h : s.body <;> simp [h, hscopes]

theorem mapProgram_typedItems (s : Symbol) (f : ProgramData → ProgramData) :
    (s.mapProgram f).typedItems = s.typedItems := by
  unfold typedItems
  rw [mapProgram_item?]

/-- Changing the data of a program keeps the connections when its types and its references stay. -/
theorem links_mapProgram {s : Symbol} (hscopes : ∀ data, (f data).scopes.types = data.scopes.types)
    (hrefs : ∀ data, (f data).references = data.references) : (s.mapProgram f).links = s.links := by
  have hreferences : (s.mapProgram f).references = s.references := by
    unfold references
    rw [mapProgram_program?]
    cases s.program? <;> simp [hrefs]
  unfold links
  rw [mapProgram_types hscopes, mapProgram_typedItems, hreferences]
  simp [fieldList, fields?, reference?, leading?]

theorem mapScopes_typedItems (s : Symbol) (f : Scopes → Scopes) : (s.mapScopes f).typedItems = s.typedItems := by
  unfold typedItems
  rw [mapScopes_item?]

theorem mapScopes_references (s : Symbol) (f : Scopes → Scopes) : (s.mapScopes f).references = s.references := by
  unfold references
  rw [mapScopes_program?]
  cases s.program? <;> rfl

/-- Changing a scope other than that of the types keeps the connections. -/
theorem links_mapScopes {s : Symbol} {slot : ScopeSlot} (hslot : slot ≠ .types) (f : Scope SymbolId → Scope SymbolId) :
    (s.mapScopes fun scopes => scopes.modify slot f).links = s.links := by
  have htypes : (s.mapScopes fun scopes => scopes.modify slot f).types = s.types := by
    have hmodify : ∀ scopes : Scopes, (scopes.modify slot f).types = scopes.types := by
      intro scopes
      cases slot <;> first | exact absurd rfl hslot | rfl
    unfold mapScopes types
    cases h : s.body <;> simp [h, hmodify]
  unfold links
  rw [htypes, mapScopes_typedItems, mapScopes_references]
  simp [fieldList, fields?, reference?, leading?]

theorem typedItems_addTypedItem {s : Symbol} (h : s.kind = .typeDefinition) (item : SymbolId) :
    (s.mapItem (ItemData.addTypedItem item)).typedItems = s.typedItems ++ [item] := by
  unfold typedItems
  rw [mapItem_item?]
  cases hbody : s.body with
  | item data =>
    rw [kind_of_item hbody] at h
    simp only [item?, hbody, map_some]
    cases hkind : data.kind with
    | typeDefinition restriction items => simp [ItemData.addTypedItem, hkind]
    | _ => simp [hkind, ItemKind.symbolKind] at h
  | _ => simp [kind, hbody] at h

/-- A type found after one more is entered was there before or is the new one. -/
theorem mem_types_enter {s : Symbol} {key : String} {value type : SymbolId}
    (h : type ∈ (s.mapScopes fun scopes => scopes.modify .types fun scope => scope.enter name value).types.lookup key) :
    type ∈ s.types.lookup key ∨ type = value := by
  unfold mapScopes types at h
  unfold types
  cases hbody : s.body <;> simp only [hbody, Scopes.modify] at h ⊢ <;>
    first | exact Scope.mem_lookup_enter h | exact .inl h

/-- A field of a group after one more is entered was one before or is the new one. -/
theorem mem_fieldList_enter {s : Symbol} {value field : SymbolId}
    (h : field ∈ ({ s with type := s.type.map (DataType.mapFields fun scope => scope.enter name value) } :
      Symbol).fieldList) : field ∈ s.fieldList ∨ field = value := by
  have hfields : ({ s with type := s.type.map (DataType.mapFields fun scope => scope.enter name value) } :
      Symbol).fields? = s.fields?.map fun scope => scope.enter name value := by
    unfold fields?
    cases s.type <;> simp
  unfold fieldList at h ⊢
  rw [hfields] at h
  cases hscope : s.fields? with
  | none => simp [hscope] at h
  | some scope =>
    simp only [hscope, map_some, getD_some, Scope.enter, mem_append, mem_singleton] at h ⊢
    exact h

namespace Fresh

variable {s : Symbol}

variable (h : s.Fresh)
include h

theorem fieldList_eq : s.fieldList = [] := by
  unfold fieldList fields?
  rcases h.type with htype | htype | htype | htype <;> rw [htype] <;> rfl

theorem reference?_eq : s.reference? = none := by
  unfold reference?
  rcases h.type with htype | htype | htype | htype <;> rw [htype] <;> rfl

theorem leading?_eq : s.leading? = none := by
  unfold leading?
  rcases h.type with htype | htype | htype | htype <;> rw [htype] <;> rfl

theorem references_eq : s.references = [] := by
  unfold references
  cases hprog : s.program? with
  | none => rfl
  | some data => simp [h.program data hprog]

theorem types_eq : s.types = {} := by
  have hrooted := h.rooted
  have hprog := h.program
  unfold types
  unfold kind at hrooted
  unfold program? at hprog
  cases hbody : s.body with
  | root scopes => simp [hbody] at hrooted
  | namespaceBody scopes => simp [hbody] at hrooted
  | program data | procedure data => simp [hprog data (by rw [hbody])]
  | _ => rfl

end Fresh

end Symbol

namespace Table

variable {t : Table} {base : Nat} {f : Symbol → Symbol}

section Alloc

variable {s : Symbol} {id owner : SymbolId}

/-- A view that a fresh symbol shares with a number beyond the table is not changed by a new symbol. -/
theorem view_alloc {α : Type} (view : Symbol → α) (h : view s = view default) (id : SymbolId) :
    view ((t.alloc s).2.get id) = view (t.get id) := by
  rw [get_alloc]
  split
  · rename_i hid
    subst hid
    rw [h, get_of_size_le le_rfl]
  · rfl

theorem refers_alloc (h : s.Fresh) : (t.alloc s).2.Refers = t.Refers := by
  funext item type
  unfold Refers
  rw [view_alloc Symbol.reference? h.reference?_eq]

theorem edge_alloc (h : s.Fresh) : (t.alloc s).2.Edge = t.Edge := by
  funext type target
  unfold Edge
  rw [view_alloc Symbol.typedItems h.typed, refers_alloc h]

/-- A new symbol is owned as it says; the others are owned as before. -/
theorem ownedBy_alloc (h : (t.alloc s).2.OwnedBy id owner) :
    t.OwnedBy id owner ∨ id = t.size ∧ s.owner = some owner := by
  unfold OwnedBy at h ⊢
  rw [get_alloc] at h
  split at h
  · rename_i hid
    exact .inr ⟨hid, h⟩
  · exact .inl h

theorem OwnedBy.alloc (h : t.OwnedBy id owner) : (t.alloc s).2.OwnedBy id owner := by
  have hlt : id < t.size := h.lt_size
  unfold OwnedBy at h ⊢
  rw [get_alloc_of_lt s hlt, h]

/-- A new symbol of the unit keeps a table well formed. -/
theorem Formed.alloc (hformed : t.Formed base) (hfresh : s.Fresh) (hjoins : t.Joins base s owner) :
    (t.alloc s).2.Formed base := by
  have hext : t.Extends (t.alloc s).2 := Extends.alloc t s
  have hself : (t.alloc s).2.get t.size = s := get_alloc_self t s
  have hkind : ∀ {id}, id < t.size → ((t.alloc s).2.get id).kind = (t.get id).kind := hext.kind
  have hmade : ∀ {made}, s.owner = some made → made = owner := fun h =>
    Option.some.inj (h.symm.trans hjoins.owner_eq)
  have howner_lt : ∀ {id made}, t.OwnedBy id made → made < t.size := fun h =>
    (hformed.ordered _ _ h).trans h.lt_size
  have hordered : (t.alloc s).2.Ordered := by
    intro id made hown
    rcases ownedBy_alloc hown with hown | ⟨hid, hown⟩
    · exact hformed.ordered id made hown
    · rw [hid, hmade hown]
      exact hjoins.owner_lt
  constructor
  case root =>
    intro id
    by_cases hid : id = t.size
    · subst hid
      rw [hself]
      refine ⟨fun h => ?_, fun h => ?_⟩
      · rcases h with h | h
        · exact absurd h hfresh.rooted.1
        · exact absurd h hfresh.rooted.2
      · have hlt := hformed.root_lt
        rw [h] at hlt
        exact absurd hlt (Nat.lt_irrefl _)
    · rw [get_alloc_of_ne s hid]
      exact hformed.root id
  case root_lt_base =>
    exact hformed.root_lt_base
  case ordered =>
    exact hordered
  case scope_owner =>
    intro id made hown hscope
    rcases ownedBy_alloc hown with hown | ⟨hid, hown⟩
    · rw [hkind hown.lt_size] at hscope
      rw [hkind (howner_lt hown)]
      exact hformed.scope_owner id made hown hscope
    · rw [hid, hself] at hscope
      rw [hmade hown, hkind hjoins.owner_lt]
      exact hjoins.scope hscope
  case type_owner =>
    intro type made hown htype
    unfold IsType at htype
    rcases ownedBy_alloc hown with hown | ⟨hid, hown⟩
    · rw [hkind hown.lt_size] at htype
      rw [hkind (howner_lt hown)]
      exact hformed.type_owner type made hown htype
    · rw [hid, hself] at htype
      rw [hmade hown, hkind hjoins.owner_lt]
      exact SymbolKind.isScope_of_isProgramLike (hjoins.type htype)
  case field_owner =>
    intro group field hfield
    rw [view_alloc fieldList hfresh.fieldList_eq] at hfield
    exact (hformed.field_owner group field hfield).alloc
  case declared =>
    intro scope name type htype
    rw [view_alloc Symbol.types hfresh.types_eq] at htype
    obtain ⟨hkindType, hown⟩ := hformed.declared scope name type htype
    refine ⟨?_, hown.alloc⟩
    unfold IsType
    rw [hkind hown.lt_size]
    exact hkindType
  case listed_within =>
    intro type item hitem
    rw [view_alloc Symbol.typedItems hfresh.typed] at hitem
    exact (hformed.listed_within type item hitem).lift (fun id => id) fun _ _ hown => hown.alloc
  case listed =>
    intro type item htype hwithin href
    rw [view_alloc Symbol.reference? hfresh.reference?_eq] at href
    rw [view_alloc Symbol.typedItems hfresh.typed]
    have hitem := lt_size_of_get (·.reference?.isSome = true) href nofun
    have hwithin' : t.Within type item := (hext.within_iff hformed.ordered hitem).mp hwithin
    have hlt : type < t.size := (hwithin'.le hformed.ordered).trans_lt hitem
    unfold IsType at htype
    rw [hkind hlt] at htype
    exact hformed.listed type item htype hwithin' href
  case lister_owner =>
    intro type made hown hitems
    rw [view_alloc Symbol.typedItems hfresh.typed] at hitems
    rcases ownedBy_alloc hown with hown | ⟨hid, hown⟩
    · rw [hkind (howner_lt hown)]
      exact hformed.lister_owner type made hown hitems
    · rw [hid, get_of_size_le le_rfl] at hitems
      exact absurd rfl hitems
  case leading =>
    intro id type hleading
    rw [view_alloc Symbol.leading? hfresh.leading?_eq] at hleading
    exact hformed.leading id type hleading
  case region =>
    intro id made hid hown
    rcases ownedBy_alloc hown with hown | ⟨heq, hown⟩
    · rw [hkind hown.lt_size]
      exact hformed.region id made hid hown
    · rw [heq, hself, hmade hown]
      exact hjoins.region

/-- A new symbol of the unit keeps a table sound. -/
theorem Sound.alloc (hsound : t.Sound base) (hfresh : s.Fresh) (hjoins : t.Joins base s owner) :
    (t.alloc s).2.Sound base where
  toFormed := hsound.toFormed.alloc hfresh hjoins
  target_type := by
    intro item type hrefers
    rw [refers_alloc hfresh] at hrefers
    have htype := hsound.target_type item type hrefers
    exact ((Extends.alloc t s).isType_iff htype.lt_size).mpr htype
  acyclic := by
    rw [edge_alloc hfresh]
    exact hsound.acyclic
  unbound := by
    rw [refers_alloc hfresh]
    exact hsound.unbound
  unused := by
    intro scope hscope
    rw [view_alloc Symbol.references hfresh.references_eq]
    exact hsound.unused scope hscope

end Alloc

/-- A change of one symbol that keeps its owner, its kind, what it lists and its references, and that adds only fields
and types that belong to it. -/
theorem keeps_modify {id : SymbolId}
    (howner : (f (t.get id)).owner = (t.get id).owner) (hkind : (f (t.get id)).kind = (t.get id).kind)
    (hitems : (f (t.get id)).typedItems = (t.get id).typedItems)
    (hrefs : (f (t.get id)).references = (t.get id).references)
    (hfields : ∀ field, field ∈ (f (t.get id)).fieldList → field ∈ (t.get id).fieldList ∨ t.OwnedBy field id)
    (htypes : ∀ name type, type ∈ (f (t.get id)).types.lookup name →
      type ∈ (t.get id).types.lookup name ∨ t.IsType type ∧ t.OwnedBy type id)
    (href : (f (t.get id)).reference? = (t.get id).reference? ∨ (f (t.get id)).reference? = none)
    (hleading : ∀ type, (f (t.get id)).leading? = some type → (t.get id).leading? = some type ∨ type.IsElementary) :
    t.Keeps (t.modify id f) where
  owner := view_modify Symbol.owner howner
  kind := view_modify Symbol.kind hkind
  typedItems := view_modify Symbol.typedItems hitems
  references := view_modify Symbol.references hrefs
  fields group field hfield := by
    rw [get_modify] at hfield
    split at hfield
    · rename_i hgroup
      rw [hgroup.1] at hfield ⊢
      exact hfields field hfield
    · exact .inl hfield
  types scope name type hlookup := by
    rw [get_modify] at hlookup
    split at hlookup
    · rename_i hscope
      rw [hscope.1] at hlookup ⊢
      exact htypes name type hlookup
    · exact .inl hlookup
  referring j hsome := by
    rw [get_modify] at hsome
    split at hsome
    · rename_i hj
      rw [hj.1] at hsome ⊢
      rcases href with href | href
      · rwa [href] at hsome
      · rw [href] at hsome
        cases hsome
    · exact hsome
  leading j type hsome := by
    rw [get_modify] at hsome
    split at hsome
    · rename_i hj
      rw [hj.1] at hsome ⊢
      exact hleading type hsome
    · exact .inl hsome
  reference j := by
    rw [get_modify]
    split
    · rename_i hj
      rw [hj.1]
      exact href
    · exact .inl rfl

/-- A change of one symbol that keeps its connections. -/
theorem keeps_modify_links {id : SymbolId} (h : (f (t.get id)).links = (t.get id).links) : t.Keeps (t.modify id f) :=
  Keeps.of_links (view_modify Symbol.links h)

theorem Keeps.refl (t : Table) : t.Keeps t := Keeps.of_links fun _ => rfl

theorem keeps_enter {ref : ScopeRef} {id : SymbolId} (henters : t.Enters ref id) : t.Keeps (t.enter ref id) := by
  cases ref with
  | slot owner slot =>
    rw [enter_slot]
    split
    · by_cases hslot : slot = .types
      · subst hslot
        have htype : t.IsType id := henters.types.mp ⟨owner, rfl⟩
        have hown : t.OwnedBy id owner := by
          rcases henters.owner with ⟨o, ho⟩ | hown
          · cases ho
          · exact hown
        refine keeps_modify (mapScopes_owner _ _) (mapScopes_kind _ _) (mapScopes_typedItems _ _)
          (mapScopes_references _ _) ?_ ?_ ?_ ?_
        · intro field hfield
          unfold fieldList Symbol.fields? at hfield
          rw [mapScopes_type] at hfield
          exact .inl hfield
        · intro name type hlookup
          rcases mem_types_enter hlookup with hlookup | heq
          · exact .inl hlookup
          · exact .inr (heq ▸ ⟨htype, hown⟩)
        · unfold Symbol.reference?
          rw [mapScopes_type]
          exact .inl rfl
        · intro type hleading
          unfold Symbol.leading? at hleading
          rw [mapScopes_type] at hleading
          exact .inl hleading
      · exact keeps_modify_links (links_mapScopes hslot _)
    · exact Keeps.refl t
  | fields owner =>
    have hown : t.OwnedBy id owner := by
      rcases henters.owner with ⟨o, ho⟩ | hown
      · cases ho
      · exact hown
    rw [enter_fields]
    refine keeps_modify rfl rfl rfl rfl ?_ (fun _ _ h => .inl h) (.inl ?_) ?_
    · intro field hfield
      rcases mem_fieldList_enter hfield with hfield | heq
      · exact .inl hfield
      · exact .inr (heq ▸ hown)
    · unfold Symbol.reference?
      cases (t.get owner).type <;> simp
    · intro type hleading
      unfold Symbol.leading? at hleading ⊢
      cases hset : (t.get owner).type with
      | none => simp [hset] at hleading
      | some before => exact .inl (by simpa [hset] using hleading)

/-- The second table differs from the first in that one item refers to a type by name and is listed by the type in whose
body it lies. -/
structure ReferAdded (t t' : Table) (id : SymbolId) (typeBody : Option SymbolId) : Prop where
  owner : ∀ j, (t'.get j).owner = (t.get j).owner
  kind : ∀ j, (t'.get j).kind = (t.get j).kind
  types : ∀ j, (t'.get j).types = (t.get j).types
  references : ∀ j, (t'.get j).references = (t.get j).references
  fields : ∀ j, (t'.get j).fieldList = (t.get j).fieldList
  leading : ∀ j, (t'.get j).leading? = (t.get j).leading?
  reference : ∀ j, j ≠ id → (t'.get j).reference? = (t.get j).reference?
  unbound : ∀ reference, (t'.get id).reference? = some reference → reference.target = none
  typedItems : ∀ j, (t'.get j).typedItems =
    if typeBody = some j then (t.get j).typedItems ++ [id] else (t.get j).typedItems

section Refer

variable {t' : Table} {id : SymbolId} {typeBody : Option SymbolId} {item type : SymbolId}

section

variable (h : ReferAdded t t' id typeBody)
include h

theorem ReferAdded.refers (hrefers : t'.Refers item type) : item ≠ id ∧ t.Refers item type := by
  obtain ⟨reference, href, htarget⟩ := hrefers
  have hne : item ≠ id := by
    intro heq
    subst heq
    rw [h.unbound reference href] at htarget
    cases htarget
  exact ⟨hne, reference, h.reference item hne ▸ href, htarget⟩

theorem ReferAdded.listed (hitem : item ∈ (t'.get type).typedItems) :
    item ∈ (t.get type).typedItems ∨ item = id ∧ typeBody = some type := by
  rw [h.typedItems] at hitem
  split at hitem
  · rename_i hbody
    rcases mem_append.mp hitem with hitem | hitem
    · exact .inl hitem
    · exact .inr ⟨mem_singleton.mp hitem, hbody⟩
  · exact .inl hitem

theorem ReferAdded.edge {target : SymbolId} (hedge : t'.Edge type target) : t.Edge type target := by
  obtain ⟨item, hitem, hrefers⟩ := hedge
  obtain ⟨hne, hrefers⟩ := h.refers hrefers
  rcases h.listed hitem with hitem | ⟨heq, _⟩
  · exact ⟨item, hitem, hrefers⟩
  · exact absurd heq hne

end

/-- An item that comes to refer to a type keeps a table well formed. -/
theorem Formed.refer (hformed : t.Formed base) (h : ReferAdded t t' id typeBody) (hhome : t.Home id typeBody)
    (hbody : ∀ type, typeBody = some type → base ≤ type) : t'.Formed base := by
  have hownedBy : t'.OwnedBy = t.OwnedBy := by
    funext j owner
    unfold OwnedBy
    rw [h.owner]
  have hwithin : t'.Within = t.Within := by
    unfold Within
    rw [hownedBy]
  have hisType : t'.IsType = t.IsType := by
    funext j
    unfold IsType
    rw [h.kind]
  constructor
  case root => simpa only [h.kind] using hformed.root
  case root_lt_base => exact hformed.root_lt_base
  case ordered =>
    unfold Ordered
    rw [hownedBy]
    exact hformed.ordered
  case scope_owner => simpa only [hownedBy, h.kind] using hformed.scope_owner
  case type_owner => simpa only [hownedBy, hisType, h.kind] using hformed.type_owner
  case field_owner => simpa only [hownedBy, h.fields] using hformed.field_owner
  case declared => simpa only [hownedBy, hisType, h.types] using hformed.declared
  case listed_within =>
    intro type item hitem
    rw [hwithin]
    rcases h.listed hitem with hitem | ⟨heq, htypeBody⟩
    · exact hformed.listed_within type item hitem
    · subst heq htypeBody
      exact hhome.2
  case listed =>
    intro type item htype hitem href
    rw [hisType] at htype
    rw [hwithin] at hitem
    rw [h.typedItems]
    by_cases heq : item = id
    · subst heq
      cases typeBody with
      | none => exact absurd hitem (hhome type htype)
      | some own =>
        have hown : own = type := hformed.type_unique hhome.1 htype hhome.2 hitem
        subst hown
        simp
    · rw [h.reference item heq] at href
      have hlisted := hformed.listed type item htype hitem href
      split
      · exact mem_append_left _ hlisted
      · exact hlisted
  case lister_owner =>
    intro type owner hown hitems
    rw [hownedBy] at hown
    rw [h.kind]
    rw [h.typedItems] at hitems
    split at hitems
    · rename_i htypeBody
      subst htypeBody
      -- the type is under construction, so its owner is no root
      have hscope := hformed.type_owner type owner hown hhome.1
      refine hformed.program_of_scope hscope fun hroot => ?_
      rcases hformed.region type owner (hbody type rfl) hown with hbase | ⟨_, hprog⟩
      · rw [hroot] at hbase
        exact absurd hformed.root_lt_base hbase.not_gt
      · have htype : (t.get type).kind = .typeDefinition := hhome.1
        rw [htype] at hprog
        cases hprog
    · exact hformed.lister_owner type owner hown hitems
  case leading => simpa only [h.leading] using hformed.leading
  case region => simpa only [hownedBy, h.kind] using hformed.region

/-- An item that comes to refer to a type keeps a table sound. -/
theorem Sound.refer (hsound : t.Sound base) (h : ReferAdded t t' id typeBody) (hhome : t.Home id typeBody)
    (hbody : ∀ type, typeBody = some type → base ≤ type) : t'.Sound base where
  toFormed := hsound.toFormed.refer h hhome hbody
  target_type := by
    intro item type hrefers
    unfold IsType
    rw [h.kind]
    exact hsound.target_type item type (h.refers hrefers).2
  acyclic := by
    intro type hcycle
    exact hsound.acyclic type (hcycle.lift (fun id => id) fun _ _ => h.edge)
  unbound := by
    intro item type hitem hrefers
    exact hsound.unbound item type hitem (h.refers hrefers).2
  unused := by
    simpa only [h.references] using hsound.unused

/-- An item without a type comes to refer to a type by name. -/
theorem referAdded_setType (hlt : id < t.size) (hnone : (t.get id).type = none) (name : String) (position : Position) :
    ReferAdded t (t.modify id fun s => { s with type := some (.named ⟨name, position, none⟩) }) id none where
  owner := view_modify Symbol.owner rfl
  kind := view_modify Symbol.kind rfl
  types := view_modify Symbol.types rfl
  references := view_modify Symbol.references rfl
  fields := by
    refine view_modify fieldList ?_
    unfold fieldList Symbol.fields?
    rw [hnone]
    rfl
  leading := by
    refine view_modify Symbol.leading? ?_
    unfold Symbol.leading?
    rw [hnone]
    rfl
  reference j hj := by rw [get_modify_of_ne _ hj]
  unbound reference href := by
    rw [get_modify_self _ hlt] at href
    simp only [Symbol.reference?, bind_some, DataType.reference?, Option.some.injEq] at href
    rw [← href]
  typedItems j := by
    exact view_modify Symbol.typedItems rfl j

/-- The type in whose body the item lies lists it. -/
theorem ReferAdded.list (h : ReferAdded t t' id none) (htype : t.IsType type) (hlt : type < t'.size) :
    ReferAdded t (t'.modify type (Symbol.mapItem (ItemData.addTypedItem id))) id (some type) := by
  have hkindEq : ((t'.get type).mapItem (ItemData.addTypedItem id)).kind = (t'.get type).kind := by
    refine mapItem_kind _ _ fun data hbody => ?_
    rw [kind_of_item hbody, kind_of_item rfl]
    unfold ItemData.addTypedItem
    cases hkind : data.kind <;> simp [hkind, ItemKind.symbolKind]
  have htype' : (t'.get type).kind = .typeDefinition := by rw [h.kind, htype]
  constructor
  case owner => exact fun j => (view_modify Symbol.owner (mapItem_owner _ _) j).trans (h.owner j)
  case kind => exact fun j => (view_modify Symbol.kind hkindEq j).trans (h.kind j)
  case types => exact fun j => (view_modify Symbol.types (mapItem_types _ _) j).trans (h.types j)
  case references =>
    refine fun j => (view_modify Symbol.references ?_ j).trans (h.references j)
    simp [Symbol.references]
  case fields =>
    refine fun j => (view_modify fieldList ?_ j).trans (h.fields j)
    simp [fieldList, Symbol.fields?]
  case leading =>
    refine fun j => (view_modify Symbol.leading? ?_ j).trans (h.leading j)
    simp [Symbol.leading?]
  case reference =>
    refine fun j hj => (view_modify Symbol.reference? ?_ j).trans (h.reference j hj)
    simp [Symbol.reference?]
  case unbound =>
    intro reference href
    refine h.unbound reference ?_
    rw [← href]
    refine (view_modify Symbol.reference? ?_ id).symm
    simp [Symbol.reference?]
  case typedItems =>
    intro j
    by_cases hj : j = type
    · subst hj
      rw [get_modify_self _ hlt, typedItems_addTypedItem htype', h.typedItems]
      simp
    · have hj' : ¬ some type = some j := fun heq => hj (Option.some.inj heq).symm
      rw [get_modify_of_ne _ hj, h.typedItems]
      simp [hj']

end Refer

end Table

namespace Declarations

open Table

variable {base old : Nat} {parent : Option ScopeRef} {d d' : Declarations}

theorem referAdded_refer {id : SymbolId} {name : String} {position : Position} {typeBody : Option SymbolId}
    (hlt : id < d.table.size) (hnone : (d.table.get id).type = none) (hhome : d.table.Home id typeBody) :
    ReferAdded d.table ((d.setType id (.named ⟨name, position, none⟩)).queueTyped id typeBody).table id typeBody := by
  have hset := referAdded_setType hlt hnone name position
  cases typeBody with
  | none => exact hset
  | some type => exact hset.list hhome.1 (by simpa using hhome.1.lt_size)

theorem lt_size_of_reference? {t : Table} {item : SymbolId} (h : (t.get item).reference?.isSome = true) :
    item < t.size := lt_size_of_get (·.reference?.isSome = true) h nofun

section

variable (h : Move base old parent d d')
include h

/-- A move makes a symbol, makes an item refer to a type or keeps the connections of symbols. -/
theorem Move.links : d.table.Keeps d'.table ∨
    (∃ s owner, s.Fresh ∧ d.table.Joins base s owner ∧ d' = (d.alloc s).2) ∨
    ∃ id typeBody, id < d.table.size ∧ d.table.Home id typeBody ∧ (∀ type, typeBody = some type → base ≤ type) ∧
      ReferAdded d.table d'.table id typeBody ∧ (typeBody = none → id ∈ d'.typedItems) := by
  have hsame : d.table.Keeps d.table := Keeps.of_links fun _ => rfl
  cases h with
  | context c htable =>
    rw [table_setContext htable]
    exact .inl hsame
  | note => exact .inl hsame
  | heading => exact .inl hsame
  | listProgram => exact .inl hsame
  | alloc s owner hfresh hjoins => exact .inr (.inl ⟨s, owner, hfresh, hjoins, rfl⟩)
  | setType id type hold hkind hnone htype =>
    obtain ⟨hfields, href, hleading⟩ := DataType.unconnected htype
    refine .inl (keeps_modify_links (links_setType ?_ ?_ ?_))
    · unfold fieldList Symbol.fields?
      rw [hnone]
      exact hfields
    · unfold Symbol.reference?
      rw [hnone]
      exact href
    · unfold Symbol.leading?
      rw [hnone]
      exact hleading
  | setLeading id leading hold htype =>
    refine .inl (keeps_modify rfl rfl rfl rfl ?_ (fun _ _ h => .inl h) (.inl ?_) ?_)
    · intro field hfield
      unfold fieldList Symbol.fields? at hfield ⊢
      cases hset : (d.table.get id).type with
      | none => simp [hset] at hfield
      | some before => exact .inl (by simpa [hset] using hfield)
    · unfold Symbol.reference?
      cases (d.table.get id).type <;> simp
    · intro type hleading
      unfold Symbol.leading? at hleading ⊢
      cases hset : (d.table.get id).type with
      | none => simp [hset] at hleading
      | some before =>
        simp only [hset, map_some, bind_some] at hleading ⊢
        exact (DataType.leading?_setLeading hleading).imp_right (htype type)
  | refer id name position typeBody hold hlt hbase hkind hnone hhome htype =>
    refine .inr (.inr ⟨id, typeBody, hlt, hhome, htype, referAdded_refer hlt hnone hhome, ?_⟩)
    rintro rfl
    exact mem_append_right _ (mem_singleton_self id)
  | wrap id element min max hold hkind hsome =>
    exact .inl (keeps_modify_links (links_array hsome min max none))
  | depend id element min max object typeBody hold hlt hbase hkind hsome =>
    rw [queueDependent_table]
    exact .inl (keeps_modify_links (links_array hsome min max (some object)))
  | enter ref id href hold henters => exact .inl (keeps_enter henters)
  | registerType id | registerProgram id => exact .inl (Keeps.of_links fun _ => rfl)
  | addToDomain id =>
    unfold Declarations.addToDomain
    split
    · exact .inl (keeps_modify_links (links_mapProgram (fun _ => rfl) fun _ => rfl))
    · exact .inl hsame
  | addVariable id =>
    refine .inl (Keeps.of_links fun j => ?_)
    have hlinks : ((d.table.get id).mapItem fun data =>
        { data with variableSlot := some (d.table.slots.insert id).1 }).links = (d.table.get id).links :=
      links_mapItem (fun _ => rfl) fun _ _ _ => Iff.rfl
    exact view_modify Symbol.links hlinks j
  | addFlags id flags => exact .inl (keeps_modify_links rfl)
  | setSignature id signature hkind =>
    exact .inl (keeps_modify rfl rfl rfl rfl nofun (fun _ _ h => .inl h) (.inr rfl) nofun)
  | setRange id range =>
    refine .inl (keeps_modify_links (links_mapItem ?_ ?_))
    · intro data
      unfold ItemData.setRange
      cases hkind : data.kind <;> simp [hkind, ItemKind.symbolKind]
    · intro data restriction items
      unfold ItemData.setRange
      cases hkind : data.kind <;> simp [hkind]
  | addDuplicate program id =>
    exact .inl (keeps_modify_links (links_mapProgram (fun _ => rfl) fun _ => rfl))

theorem Move.sound (hsound : d.table.Sound base) : d'.table.Sound base := by
  rcases h.links with hkeeps | ⟨s, owner, hfresh, hjoins, rfl⟩ | ⟨id, typeBody, _, hhome, htype, hadded, _⟩
  · exact hsound.keeps hkeeps
  · exact hsound.alloc hfresh hjoins
  · exact hsound.refer hadded hhome htype

/-- An item that refers to a type did so before, or it is queued if it lies outside of types. -/
theorem Move.referring {item : SymbolId} (hsome : (d'.table.get item).reference?.isSome = true) :
    item < d.table.size ∧ ((d.table.get item).reference?.isSome = true ∨ (d.table.Home item none → item ∈ d'.typedItems)) := by
  rcases h.links with hkeeps | ⟨s, owner, hfresh, _, rfl⟩ | ⟨id, typeBody, hlt, hhome, _, hadded, hqueued⟩
  · have hbefore := hkeeps.referring item hsome
    exact ⟨lt_size_of_reference? hbefore, .inl hbefore⟩
  · have hbefore := (congrArg Option.isSome (view_alloc Symbol.reference? hfresh.reference?_eq item)).symm.trans hsome
    exact ⟨lt_size_of_reference? hbefore, .inl hbefore⟩
  · by_cases heq : item = id
    · subst heq
      refine ⟨hlt, .inr fun hnone => hqueued ?_⟩
      cases typeBody with
      | none => rfl
      | some type => exact absurd hhome.2 (hnone type hhome.1)
    · rw [hadded.reference item heq] at hsome
      exact ⟨lt_size_of_reference? hsome, .inl hsome⟩

end

theorem Moves.sound (h : Moves base old parent d d') (hsound : d.table.Sound base) : d'.table.Sound base := by
  induction h with
  | refl => exact hsound
  | tail _ hmove ih => exact hmove.sound ih

end Declarations

end CobolSymbols
