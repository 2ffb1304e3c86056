import CobolSymbols.Symbol.Basic

/-!
# What changes of a symbol keep

A symbol is changed in one part at a time: its data as an item, its data as a program, its scopes or its type. The other
parts are read as before. The kind of a symbol tells whether it is a data item, a program or procedure, or a scope.
-/

set_option autoImplicit false

namespace CobolSymbols

namespace DataType

variable (leading : Option DataType) (target : SymbolId) (type : DataType)

/-- The types that PICTURE and USAGE clauses give. -/
def IsElementary : DataType → Prop
  | .usage _ | .picture _ => True
  | _ => False

/-- The type that a group has in the absence of fields, looked for through arrays. -/
def leading? : DataType → Option DataType
  | .group _ leading _ => leading
  | .array element _ _ _ => element.leading?
  | _ => none

@[simp] theorem fields?_setLeading :
    (type.setLeading leading).fields? = type.fields? := by
  cases type <;> rfl

theorem not_isArray_of_isElementary {type : DataType} (h : type.IsElementary) : type.isArray = false := by
  cases type <;> first | rfl | cases h

@[simp] theorem fields?_mapFields (f : Scope SymbolId → Scope SymbolId) :
    ∀ type : DataType, (type.mapFields f).fields? = type.fields?.map f
  | .usage _ | .picture _ | .group _ _ _ | .named _ | .condition | .signature _ => rfl
  | .array element _ _ _ => fields?_mapFields f element

/-- Entering a field changes neither the reference nor the leading type. -/
@[simp] theorem reference?_mapFields (f : Scope SymbolId → Scope SymbolId) :
    ∀ type : DataType, (type.mapFields f).reference? = type.reference? ∧ (type.mapFields f).leading? = type.leading?
  | .usage _ | .picture _ | .group _ _ _ | .named _ | .condition | .signature _ => ⟨rfl, rfl⟩
  | .array element _ _ _ => reference?_mapFields f element

@[simp] theorem fields?_bindReference (target : SymbolId) :
    ∀ type : DataType, (type.bindReference target).fields? = type.fields?
  | .usage _ | .picture _ | .group _ _ _ | .named _ | .condition | .signature _ => rfl
  | .array element _ _ _ => fields?_bindReference target element

/-- Binding a reference gives it its target and leaves the leading type alone. -/
@[simp] theorem reference?_bindReference (target : SymbolId) : ∀ type : DataType,
    (type.bindReference target).reference? = type.reference?.map (fun r => { r with target := some target }) ∧
      (type.bindReference target).leading? = type.leading?
  | .usage _ | .picture _ | .group _ _ _ | .named _ | .condition | .signature _ => ⟨rfl, rfl⟩
  | .array element _ _ _ => reference?_bindReference target element

@[simp] theorem fields?_bindDependingOn :
    (type.bindDependingOn target).fields? = type.fields? := by
  unfold bindDependingOn
  split <;> rfl

@[simp] theorem reference?_bindDependingOn : (type.bindDependingOn target).reference? = type.reference? ∧
    (type.bindDependingOn target).leading? = type.leading? := by
  unfold bindDependingOn
  split <;> exact ⟨rfl, rfl⟩

/-- An array has more than one element, and they are no arrays. -/
def isRoomy : DataType → Bool
  | .array element _ max _ => decide (1 < max) && !element.isArray
  | _ => true

@[simp] theorem isRoomy_setLeading : (type.setLeading leading).isRoomy = type.isRoomy ∧
    (type.setLeading leading).isCondition = type.isCondition ∧ (type.setLeading leading).isArray = type.isArray ∧
    (type.setLeading leading).reference? = type.reference? := by
  cases type <;> exact ⟨rfl, rfl, rfl, rfl⟩

@[simp] theorem isArray_mapFields (f : Scope SymbolId → Scope SymbolId) (type : DataType) :
    (type.mapFields f).isArray = type.isArray ∧ (type.mapFields f).isCondition = type.isCondition := by
  cases type <;> exact ⟨rfl, rfl⟩

@[simp] theorem isRoomy_mapFields (f : Scope SymbolId → Scope SymbolId) (type : DataType) :
    (type.mapFields f).isRoomy = type.isRoomy := by
  cases type <;> simp [mapFields, isRoomy]

@[simp] theorem isRoomy_bindReference (target : SymbolId) (type : DataType) :
    (type.bindReference target).isRoomy = type.isRoomy ∧
      (type.bindReference target).isCondition = type.isCondition := by
  cases type with
  | array element => cases element <;> exact ⟨rfl, rfl⟩
  | _ => exact ⟨rfl, rfl⟩

@[simp] theorem isRoomy_bindDependingOn : (type.bindDependingOn target).isRoomy = type.isRoomy ∧
    (type.bindDependingOn target).isCondition = type.isCondition := by
  unfold bindDependingOn
  split <;> exact ⟨rfl, rfl⟩

theorem isRoomy_of_not_isArray {type : DataType} (h : type.isArray = false) : type.isRoomy = true := by
  cases type <;> first | rfl | cases h

/-- A group gets its leading type, and other types stay as they are. -/
theorem leading?_setLeading {leading : Option DataType} {type found : DataType}
    (h : (type.setLeading leading).leading? = some found) : type.leading? = some found ∨ leading = some found := by
  cases type with
  | group fields before owner => exact .inr h
  | _ => exact .inl h

end DataType

namespace SymbolKind

variable {k : SymbolKind}

/-- Whether symbols of the kind are data items. -/
def isItem : SymbolKind → Bool
  | .plainItem | .typeDefinition | .redefines | .renames | .index => true
  | _ => false

/-- Whether symbols of the kind are programs or procedures. -/
def isProgramLike : SymbolKind → Bool
  | .program | .procedure => true
  | _ => false

/-- Whether symbols of the kind can hold programs or data. -/
def isScope : SymbolKind → Bool
  | .root | .namespaceKind | .program | .procedure => true
  | _ => false

theorem isScope_of_isProgramLike (h : k.isProgramLike = true) : k.isScope = true := by
  cases k <;> first | rfl | cases h

/-- Programs and procedures are no data items. -/
theorem isItem_of_isProgramLike (h : k.isProgramLike = true) : k.isItem = false := by
  cases k <;> first | rfl | cases h

theorem isScope_of_isItem (h : k.isItem = true) : k.isScope = false := by
  cases k <;> first | rfl | cases h

end SymbolKind

namespace Symbol

/-- Whether the symbol is a table, that is, its type is an array. -/
def isTable (s : Symbol) : Bool := s.type.any DataType.isArray

/-- Whether the symbol can have a type: a level-66 item has none, and only a level-88 item is a condition-name. -/
def suits (s : Symbol) (type : DataType) : Bool :=
  type.isRoomy && s.kind != .renames && (!type.isCondition || s.level? == some conditionLevel)

def isSuited (s : Symbol) : Bool := s.type.all s.suits

theorem isScope_eq (s : Symbol) : s.isScope = s.kind.isScope := by
  unfold isScope kind
  cases s.body with
  | item data => cases hk : data.kind <;> simp [hk, SymbolKind.isScope]
  | _ => rfl

theorem isSome_item? (s : Symbol) : s.item?.isSome = s.kind.isItem := by
  unfold item? kind
  cases s.body with
  | item data => cases hk : data.kind <;> simp [hk, SymbolKind.isItem]
  | _ => rfl

theorem isSome_program? (s : Symbol) : s.program?.isSome = s.kind.isProgramLike := by
  unfold program? kind
  cases s.body with
  | item data => cases hk : data.kind <;> simp [hk, SymbolKind.isProgramLike]
  | _ => rfl

theorem kind_of_typedItems {s : Symbol} (h : s.typedItems ≠ []) : s.kind = .typeDefinition := by
  unfold typedItems at h
  split at h
  · rename_i restriction items hitem
    obtain ⟨data, hdata, hkind⟩ := Option.map_eq_some_iff.mp hitem
    unfold item? at hdata
    unfold kind
    cases hbody : s.body with
    | item data' =>
      rw [hbody] at hdata
      cases hdata
      simp [hkind]
    | _ => simp [hbody] at hdata
  · exact absurd rfl h

/-- The scope of the types that the symbol declares. -/
def types (s : Symbol) : Scope SymbolId :=
  match s.body with
  | .root scopes | .namespaceBody scopes => scopes.types
  | .program data | .procedure data => data.scopes.types
  | _ => {}

/-- The items declared with each type that a program or procedure uses. -/
def references (s : Symbol) : List (SymbolId × List SymbolId) := (s.program?.map ProgramData.references).getD []

/-- The type that a group item has in the absence of fields. -/
def leading? (s : Symbol) : Option DataType := s.type.bind DataType.leading?

section MapItem

variable (f : ItemData → ItemData) (s : Symbol)

@[simp] theorem mapItem_name : (s.mapItem f).name = s.name := by unfold mapItem; split <;> rfl

@[simp] theorem mapItem_flags : (s.mapItem f).flags = s.flags := by unfold mapItem; split <;> rfl

@[simp] theorem mapItem_owner : (s.mapItem f).owner = s.owner := by unfold mapItem; split <;> rfl

@[simp] theorem mapItem_type : (s.mapItem f).type = s.type := by unfold mapItem; split <;> rfl

@[simp] theorem mapItem_item? : (s.mapItem f).item? = s.item?.map f := by
  unfold mapItem item?
  cases h : s.body <;> simp [h]

@[simp] theorem mapItem_program? : (s.mapItem f).program? = s.program? := by
  unfold mapItem program?
  cases h : s.body <;> simp [h]

@[simp] theorem mapItem_types : (s.mapItem f).types = s.types := by
  unfold mapItem types
  cases h : s.body <;> simp [h]

/-- A change that keeps the kind of every item keeps the kind of the symbol. -/
theorem mapItem_kind (h : ∀ data : ItemData, s.body = .item data →
    ({ s with body := .item (f data) } : Symbol).kind = s.kind) : (s.mapItem f).kind = s.kind := by
  unfold mapItem
  split
  · rename_i data hdata
    exact h data hdata
  · rfl

end MapItem

section MapProgram

variable (f : ProgramData → ProgramData) (s : Symbol)

@[simp] theorem mapProgram_name : (s.mapProgram f).name = s.name := by unfold mapProgram; split <;> rfl

@[simp] theorem mapProgram_flags : (s.mapProgram f).flags = s.flags := by unfold mapProgram; split <;> rfl

@[simp] theorem mapProgram_owner : (s.mapProgram f).owner = s.owner := by unfold mapProgram; split <;> rfl

@[simp] theorem mapProgram_type : (s.mapProgram f).type = s.type := by unfold mapProgram; split <;> rfl

@[simp] theorem mapProgram_item? : (s.mapProgram f).item? = s.item? := by
  unfold mapProgram item?
  cases h : s.body <;> simp [h]

@[simp] theorem mapProgram_program? : (s.mapProgram f).program? = s.program?.map f := by
  unfold mapProgram program?
  cases h : s.body <;> simp [h]

@[simp] theorem mapProgram_kind : (s.mapProgram f).kind = s.kind := by
  unfold mapProgram kind
  cases h : s.body <;> simp [h]

end MapProgram

section MapScopes

variable (f : Scopes → Scopes) (s : Symbol)

@[simp] theorem mapScopes_name : (s.mapScopes f).name = s.name := by unfold mapScopes; split <;> rfl

@[simp] theorem mapScopes_flags : (s.mapScopes f).flags = s.flags := by unfold mapScopes; split <;> rfl

@[simp] theorem mapScopes_owner : (s.mapScopes f).owner = s.owner := by unfold mapScopes; split <;> rfl

@[simp] theorem mapScopes_type : (s.mapScopes f).type = s.type := by unfold mapScopes; split <;> rfl

@[simp] theorem mapScopes_item? : (s.mapScopes f).item? = s.item? := by
  unfold mapScopes item?
  cases h : s.body <;> simp [h]

@[simp] theorem mapScopes_program? :
    (s.mapScopes f).program? = s.program?.map fun data => { data with scopes := f data.scopes } := by
  unfold mapScopes program?
  cases h : s.body <;> simp [h]

@[simp] theorem mapScopes_kind : (s.mapScopes f).kind = s.kind := by
  unfold mapScopes kind
  cases h : s.body <;> simp [h]

end MapScopes

end Symbol

theorem Scopes.get_modify (scopes : Scopes) (slot other : ScopeSlot) (f : Scope SymbolId → Scope SymbolId) :
    (scopes.modify slot f).get other = if other = slot then f (scopes.get other) else scopes.get other := by
  cases slot <;> cases other <;> rfl

namespace Symbol

theorem scope?_mapScopes (s : Symbol) (slot other : ScopeSlot) (f : Scope SymbolId → Scope SymbolId) :
    (s.mapScopes fun scopes => scopes.modify slot f).scope? other =
      (s.scope? other).map fun scope => if other = slot then f scope else scope := by
  unfold scope? mapScopes
  cases hbody : s.body with
  | item data => simp [hbody]
  | paragraph heading => simp [hbody]
  | heading => simp [hbody]
  | _ => cases other <;> simp [Scopes.get_modify]

theorem scope?_mapItem (s : Symbol) (f : ItemData → ItemData) : (s.mapItem f).scope? = s.scope? := by
  funext slot
  unfold scope? mapItem
  cases hbody : s.body <;> simp [hbody]

theorem scope?_mapProgram (s : Symbol) {f : ProgramData → ProgramData} (h : ∀ data, (f data).scopes = data.scopes) :
    (s.mapProgram f).scope? = s.scope? := by
  funext slot
  unfold scope? mapProgram
  cases hbody : s.body <;> simp [hbody, h]

end Symbol

end CobolSymbols
