import CobolSymbols.Proofs.Build.Ready
import CobolSymbols.Proofs.Renaming.Layout
import CobolSymbols.Proofs.Tree.Renaming

/-!
# Data under other numbers

Declarations are alike when everything they hold is the same under other numbers. Making the symbols of a definition
leaves them alike, and the nodes of the definition mean symbols that go with each other.
-/

set_option autoImplicit false

namespace CobolSymbols

open Option DataType

variable {ρ : SymbolId → SymbolId} {base : Nat}

/-- Where a data symbol is made, under other numbers. -/
def Placement.rename (ρ : SymbolId → SymbolId) (place : Placement) : Placement :=
  ⟨place.parent.map (ScopeRef.rename ρ), place.typeBody.map ρ⟩

/-- The scope that data is placed in is none that holds programs. -/
def Placement.HoldsData (place : Placement) : Prop :=
  ∀ owner slot, place.parent = some (.slot owner slot) → slot ≠ .programs ∧ slot ≠ .namespaces

theorem Placement.holdsData_fields (id : SymbolId) (typeBody : Option SymbolId) :
    (⟨some (.fields id), typeBody⟩ : Placement).HoldsData := by
  intro owner slot hparent
  cases hparent

/-- The declarations of a unit are found in others under other numbers. -/
structure Declarations.Alike (ρ : SymbolId → SymbolId) (d d' : Declarations) : Prop where
  context : d.context.Alike ρ d'.context
  programs : d'.programs = d.programs.map ρ
  openPrograms : d'.openPrograms = d.openPrograms.map ρ
  scopes : d'.scopes = d.scopes.map ρ
  storage : d'.storage = d.storage
  heading : d'.heading = d.heading.map ρ
  pendingRenames : d'.pendingRenames = d.pendingRenames.map (Prod.map ρ id)
  typedItems : d'.typedItems = d.typedItems.map ρ
  dependentTypes : d'.dependentTypes = d.dependentTypes.map ρ
  dependentTables : d'.dependentTables = d.dependentTables.map ρ

namespace Declarations.Alike

variable {d d' : Declarations}

section Basic

variable (h : d.Alike ρ d')
include h

theorem table : d.table.Alike ρ d'.table := h.context.table

theorem setContext {c c' : Context} (hc : c.Alike ρ c') :
    ({ d with context := c } : Declarations).Alike ρ { d' with context := c' } :=
  { h with context := hc }

theorem mapTable {f f' : Table → Table} (hf : (f d.table).Alike ρ (f' d'.table)) :
    (d.mapTable f).Alike ρ (d'.mapTable f') :=
  h.setContext { h.context with table := hf }

theorem modify {id : SymbolId} {f f' : Symbol → Symbol}
    (hf : (f (d.table.get id)).Alike ρ (f' (d'.table.get (ρ id)))) : (d.modify id f).Alike ρ (d'.modify (ρ id) f') :=
  h.mapTable (h.table.modify hf)

theorem alloc {s s' : Symbol} (hs : s.Alike ρ s') :
    Returns ρ (Alike ρ) (d.alloc s) (d'.alloc s') :=
  ⟨(h.table.next 0).symm, h.mapTable (h.table.alloc hs)⟩

theorem addFlags (id : SymbolId) (flags : SymbolFlags) : (d.addFlags id flags).Alike ρ (d'.addFlags (ρ id) flags) :=
  h.modify ((h.table.get id).addFlags flags)

theorem enterIn (id : SymbolId) (parent : Option ScopeRef) :
    (d.enterIn id parent).Alike ρ (d'.enterIn (ρ id) (parent.map (ScopeRef.rename ρ))) := by
  cases parent with
  | none => exact h
  | some ref => exact h.mapTable (h.table.enter ref id)

theorem registerProgram (id : SymbolId) : (d.registerProgram id).Alike ρ (d'.registerProgram (ρ id)) :=
  h.mapTable (h.table.registerProgram id (ρ id))

theorem registerType (id : SymbolId) : (d.registerType id).Alike ρ (d'.registerType (ρ id)) :=
  h.mapTable (h.table.registerType id (ρ id))

theorem report (problem : Problem) (position : Position) :
    (d.report problem position).Alike ρ (d'.report problem position) :=
  h.setContext (h.context.report problem position)

theorem currentScope : d'.currentScope = d.currentScope.map ρ := by
  unfold Declarations.currentScope
  rw [h.scopes, List.head?_map]

theorem queueTyped (id : SymbolId) (typeBody : Option SymbolId) :
    (d.queueTyped id typeBody).Alike ρ (d'.queueTyped (ρ id) (typeBody.map ρ)) := by
  cases typeBody with
  | none =>
    have htyped : d'.typedItems ++ [ρ id] = (d.typedItems ++ [id]).map ρ := by simp [h.typedItems]
    exact { h with typedItems := htyped }
  | some type =>
    refine h.modify ((h.table.get type).mapItem fun data data' hdata => ?_)
    have hkind := hdata.kind
    unfold ItemData.addTypedItem
    cases hold : data.kind with
    | typeDefinition restriction items =>
      rw [hold] at hkind
      simp only [hkind, ItemKind.rename]
      exact ⟨hdata.level, hdata.value, by simp [ItemKind.rename], hdata.slot⟩
    | _ =>
      rw [hold] at hkind
      simp only [hkind, ItemKind.rename]
      exact hdata

theorem queueDependent (id : SymbolId) (typeBody : Option SymbolId) :
    (d.queueDependent id typeBody).Alike ρ (d'.queueDependent (ρ id) (typeBody.map ρ)) := by
  cases typeBody with
  | none =>
    have htables : d'.dependentTables ++ [ρ id] = (d.dependentTables ++ [id]).map ρ := by simp [h.dependentTables]
    exact { h with dependentTables := htables }
  | some type =>
    have htypes : d.dependentTypes.map ρ ++ [ρ type] = (d.dependentTypes ++ [type]).map ρ := by simp
    simp only [map_some, Declarations.queueDependent, h.dependentTypes, Table.contains_map h.table.injective]
    split
    · exact h
    · exact { h with dependentTypes := htypes }

theorem addToDomain (id : SymbolId) : (d.addToDomain id).Alike ρ (d'.addToDomain (ρ id)) := by
  unfold Declarations.addToDomain
  rw [h.currentScope]
  cases d.currentScope with
  | none => exact h
  | some scope => exact h.mapTable (h.table.addToDomain scope id)

theorem storeVariable (id : SymbolId) (typeBody : Option SymbolId) :
    (d.storeVariable id typeBody).Alike ρ (d'.storeVariable (ρ id) (typeBody.map ρ)) := by
  cases typeBody with
  | none => exact (h.addToDomain id).mapTable ((h.addToDomain id).table.addVariable id)
  | some type => exact h

theorem setType (id : SymbolId) (type : DataType) : (d.setType id type).Alike ρ (d'.setType (ρ id) (type.rename ρ)) :=
  h.modify ((h.table.get id).setType rfl)

end Basic

section Placed

variable (h : d.Alike ρ d')
include h

theorem ownerOf (place : Placement) : d'.ownerOf (place.rename ρ) = (d.ownerOf place).map ρ := by
  obtain ⟨parent, typeBody⟩ := place
  cases parent with
  | none => exact h.currentScope
  | some ref => exact congrArg some (ScopeRef.owner_rename ρ ref)

theorem originOf (place : Placement) (kind : SymbolKind) :
    d'.originOf (place.rename ρ) kind = d.originOf place kind := by
  simp only [Declarations.originOf, Placement.rename, isNone_map, h.storage]

theorem placeFlags (entry : Option DataEntry) (place : Placement) (kind : SymbolKind) :
    d'.placeFlags entry (place.rename ρ) kind = d.placeFlags entry place kind := by
  have hbody : (place.rename ρ).typeBody.isSome = place.typeBody.isSome := isSome_map
  unfold Declarations.placeFlags
  simp only [h.ownerOf, h.originOf, hbody]
  cases d.ownerOf place with
  | none => rfl
  | some owner =>
    simp only [map_some, any_some, getD_some, (h.table.get owner).flags, (h.table.get owner).isScope]

theorem placed (entry : Option DataEntry) (place : Placement) {s s' : Symbol} (hs : s.Alike ρ s') :
    (d.placed entry place s).Alike ρ (d'.placed entry (place.rename ρ) s') where
  name := hs.name
  flags := by simp only [Declarations.placed, hs.flags, hs.kind, h.placeFlags]
  owner := h.ownerOf place
  type := hs.type
  position := hs.position
  body := hs.body

theorem itemSymbol (entry : DataEntry) (kind : ItemKind) (place : Placement) :
    (d.itemSymbol entry kind place).Alike ρ (d'.itemSymbol entry (kind.rename ρ) (place.rename ρ)) := by
  refine h.placed (some entry) place ⟨rfl, ?_, rfl, rfl, rfl, .item ⟨rfl, rfl, rfl, rfl⟩⟩
  cases kind <;> rfl

theorem placeItem {s s' : Symbol} (hs : s.Alike ρ s') (place : Placement) :
    Returns ρ (Alike ρ) (d.placeItem s place) (d'.placeItem s' (place.rename ρ)) := by
  obtain ⟨hid, hmade⟩ := h.alloc (h.placed none place hs)
  refine ⟨hid, ?_⟩
  unfold Declarations.placeItem
  simp only [hid]
  exact (hmade.enterIn _ place.parent).storeVariable _ place.typeBody

theorem declareRenames (entry : RenamesEntry) (place : Placement) :
    Returns ρ (Alike ρ) (d.declareRenames entry place) (d'.declareRenames entry (place.rename ρ)) := by
  have hs : (renamesSymbol entry).Alike ρ (renamesSymbol entry) := ⟨rfl, rfl, rfl, rfl, rfl, .item ⟨rfl, rfl, rfl, rfl⟩⟩
  obtain ⟨hid, hmade⟩ := h.placeItem hs place
  refine ⟨hid, { hmade with pendingRenames := ?_ }⟩
  unfold Declarations.declareRenames
  simp only [hid, hmade.pendingRenames, List.map_append, List.map_cons, List.map_nil, Prod.map_apply]
  rfl

theorem declareCondition (entry : ConditionEntry) (place : Placement) :
    Returns ρ (Alike ρ) (d.declareCondition entry place) (d'.declareCondition entry (place.rename ρ)) :=
  h.placeItem ⟨rfl, rfl, rfl, rfl, rfl, .item ⟨rfl, rfl, rfl, rfl⟩⟩ place

end Placed

section Types

variable (h : d.Alike ρ d')
include h

theorem elementaryType (entry : DataEntry) :
    (d'.elementaryType entry).1 = (d.elementaryType entry).1 ∧
      (d.elementaryType entry).2.Alike ρ (d'.elementaryType entry).2 := by
  unfold Declarations.elementaryType
  cases entry.picture with
  | none => exact ⟨rfl, h⟩
  | some text =>
    simp only
    cases Picture.parse text with
    | ok picture => exact ⟨rfl, h⟩
    | error reason => exact ⟨rfl, h.report _ _⟩

theorem setElementary (id : SymbolId) (entry : DataEntry) (typeBody : Option SymbolId) :
    (d.setElementary id entry typeBody).Alike ρ (d'.setElementary (ρ id) entry (typeBody.map ρ)) := by
  obtain ⟨htype, hnext⟩ := h.elementaryType entry
  have helem := fun type => @elementaryType_isElementary d entry type
  unfold Declarations.setElementary
  revert htype hnext helem
  generalize d.elementaryType entry = found
  generalize d'.elementaryType entry = found'
  obtain ⟨type, d₁⟩ := found
  obtain ⟨type', d₁'⟩ := found'
  intro htype hnext helem
  simp only at htype hnext
  subst htype
  cases type' with
  | some type =>
    have hset := hnext.setType id type
    rw [rename_of_isElementary ρ (helem type rfl)] at hset
    exact hset
  | none =>
    cases entry.userType with
    | some reference => exact (hnext.setType id (.named ⟨reference.name, reference.position, none⟩)).queueTyped id typeBody
    | none =>
      simp only [hnext.context.options]
      exact hnext.setContext (hnext.context.reportAt _ _ _)

theorem setLeading (id : SymbolId) (entry : DataEntry) :
    (d.setLeading id entry).Alike ρ (d'.setLeading (ρ id) entry) := by
  obtain ⟨htype, hnext⟩ := h.elementaryType entry
  have hleading : (d.elementaryType entry).1.map (DataType.rename ρ) = (d'.elementaryType entry).1 := by
    rw [htype]
    cases hfound : (d.elementaryType entry).1 with
    | none => rfl
    | some type => exact congrArg some (rename_of_isElementary ρ (elementaryType_isElementary hfound))
  have hset : ∀ type : DataType, DataType.setLeading (d'.elementaryType entry).1 (type.rename ρ) =
      (DataType.setLeading (d.elementaryType entry).1 type).rename ρ := by
    intro type
    rw [← hleading]
    exact setLeading_rename ρ _ type
  exact hnext.modify ((hnext.table.get id).mapType hset)

theorem wrapArray (id : SymbolId) (entry : DataEntry) (typeBody : Option SymbolId) :
    (d.wrapArray id entry typeBody).Alike ρ (d'.wrapArray (ρ id) entry (typeBody.map ρ)) := by
  unfold Declarations.wrapArray
  rw [(h.table.get id).type]
  cases entry.occurs with
  | none => exact h
  | some occurs =>
    cases (d.table.get id).type with
    | none => exact h
    | some element =>
      simp only [map_some]
      split
      · exact h
      · cases occurs.dependingOn with
        | none => exact h.setType id (.array element occurs.min occurs.max none)
        | some r =>
          exact (h.setType id (.array element occurs.min occurs.max (some ⟨r.name, r.position, none⟩))).queueDependent
            id typeBody

end Types

section Definitions

variable {place : Placement}

theorem indexSymbol (h : d.Alike ρ d') (indexed : SymbolId) (name : IndexName) :
    (d.indexSymbol indexed name).Alike ρ (d'.indexSymbol (ρ indexed) name) := by
  have hget := h.table.get indexed
  refine ⟨rfl, ?_, hget.owner, rfl, rfl, .item ⟨?_, rfl, rfl, rfl⟩⟩
  · simp only [Declarations.indexSymbol, hget.flags]
  · simp only [hget.level?]

theorem declareIndex (h : d.Alike ρ d') (indexed : SymbolId) (parent : ScopeRef) (typeBody : Option SymbolId)
    (name : IndexName) : Returns ρ (Alike ρ) (d.declareIndex indexed parent typeBody name)
      (d'.declareIndex (ρ indexed) (parent.rename ρ) (typeBody.map ρ) name) := by
  obtain ⟨hid, hmade⟩ := h.alloc (h.indexSymbol indexed name)
  refine ⟨hid, ?_⟩
  unfold Declarations.declareIndex
  simp only [hid]
  exact (hmade.enterIn _ (some parent)).storeVariable _ typeBody

theorem declareIndexes (indexed : SymbolId) (parent : ScopeRef) (typeBody : Option SymbolId) (forest : Forest)
    (h : d.Alike ρ d') :
    Returns (Forest.rename ρ) (Alike ρ) (Declarations.declareIndexes indexed parent typeBody forest d)
      (Declarations.declareIndexes (ρ indexed) (parent.rename ρ) (typeBody.map ρ) (forest.rename ρ) d') := by
  induction forest generalizing d d' with
  | nil => exact ⟨rfl, h⟩
  | cons node children siblings _ ih =>
    have hkind : (node.rename ρ).kind = node.kind := rfl
    unfold Forest.rename Declarations.declareIndexes
    rw [hkind]
    cases node.kind with
    | index name =>
      obtain ⟨hid, hmade⟩ := h.declareIndex indexed parent typeBody name
      obtain ⟨hforest, hnext⟩ := ih hmade
      refine ⟨?_, hnext⟩
      simp only [hforest, hid]
      rfl
    | _ =>
      obtain ⟨hforest, hnext⟩ := ih h
      refine ⟨?_, hnext⟩
      simp only [hforest, Forest.rename]

/-- How the symbols of the definitions below an item are made, under other numbers. -/
def FieldsAlike (ρ : SymbolId → SymbolId) (fields fields' : Placement → Declarations → Forest × Declarations) : Prop :=
  ∀ (id : SymbolId) (typeBody : Option SymbolId) (d d' : Declarations), d.Alike ρ d' →
    (fields' ⟨some (.fields (ρ id)), typeBody.map ρ⟩ d').1 = (fields ⟨some (.fields id), typeBody⟩ d).1.rename ρ ∧
      (fields ⟨some (.fields id), typeBody⟩ d).2.Alike ρ (fields' ⟨some (.fields (ρ id)), typeBody.map ρ⟩ d').2

variable {fields fields' : Placement → Declarations → Forest × Declarations}

section

variable (h : d.Alike ρ d')
include h

theorem enterItem (id : SymbolId) (isType : Bool) (place : Placement) (children : Forest) :
    Returns (Forest.rename ρ) (Alike ρ) (d.enterItem id isType place children)
      (d'.enterItem (ρ id) isType (place.rename ρ) (children.rename ρ)) := by
  have hentered := h.enterIn id place.parent
  have hstored := hentered.storeVariable id place.typeBody
  cases isType with
  | true => exact ⟨rfl, hentered.registerType id⟩
  | false =>
    obtain ⟨parent, typeBody⟩ := place
    cases parent with
    | none => exact ⟨rfl, hstored⟩
    | some ref => exact declareIndexes id ref typeBody children hstored

theorem redefinesTarget (entry : RedefinesEntry) (hplace : place.HoldsData) :
    Returns (Option.map ρ) (Alike ρ) (d.redefinesTarget entry place.parent)
      (d'.redefinesTarget entry (place.rename ρ).parent) := by
  obtain ⟨htarget, hnext⟩ := h.context.redefinesTarget entry fun owner slot hparent => .inl (hplace owner slot hparent)
  exact ⟨htarget, h.setContext hnext⟩

variable (hfields : FieldsAlike ρ fields fields')
include hfields

theorem declareContent (id : SymbolId) (entry : DataEntry) (typeBody : Option SymbolId) (children : Forest) :
    Returns (Forest.rename ρ) (Alike ρ) (d.declareContent id entry typeBody children fields)
      (d'.declareContent (ρ id) entry (typeBody.map ρ) (children.rename ρ) fields') := by
  unfold Declarations.declareContent
  rw [Forest.any_isDefinition_rename]
  split
  · obtain ⟨hforest, hnext⟩ := hfields id typeBody _ _ (h.setType id (.group {} none id))
    exact ⟨hforest, (hnext.setLeading id entry).wrapArray id entry typeBody⟩
  · exact ⟨rfl, (h.setElementary id entry typeBody).wrapArray id entry typeBody⟩

theorem declareItem (entry : DataEntry) (kind : ItemKind) (place : Placement) (children : Forest) :
    Returns ρ (Returns (Forest.rename ρ) (Alike ρ)) (d.declareItem entry kind place children fields)
      (d'.declareItem entry (kind.rename ρ) (place.rename ρ) (children.rename ρ) fields') := by
  obtain ⟨hid, hmade⟩ := h.alloc (h.itemSymbol entry kind place)
  have hbody : (if kind.isType then some (ρ (d.alloc (d.itemSymbol entry kind place)).1) else
        (place.rename ρ).typeBody) =
      (if kind.isType then some (d.alloc (d.itemSymbol entry kind place)).1 else place.typeBody).map ρ := by
    split <;> rfl
  obtain ⟨hforest, hcontent⟩ := hmade.declareContent hfields (d.alloc (d.itemSymbol entry kind place)).1 entry
    (if kind.isType then some (d.alloc (d.itemSymbol entry kind place)).1 else place.typeBody) children
  refine ⟨hid, ?_⟩
  unfold Declarations.declareItem
  simp only [hid, ItemKind.isType_rename, hbody, hforest]
  exact hcontent.enterItem _ kind.isType place _

theorem declareNode (node : Node) (hplace : place.HoldsData) (children : Forest) :
    Returns (Option.map ρ) (Returns (Forest.rename ρ) (Alike ρ)) (d.declareNode node place children fields)
      (d'.declareNode (node.rename ρ) (place.rename ρ) (children.rename ρ) fields') := by
  have hkind : (node.rename ρ).kind = node.kind := rfl
  have hplain : ∀ entry : DataEntry, _ := fun entry => h.declareItem hfields entry .plain place children
  unfold Declarations.declareNode
  rw [hkind]
  cases node.kind with
  | typeDefinition entry =>
    have hbody : (place.rename ρ).typeBody.isNone = place.typeBody.isNone := isNone_map
    simp only [hbody]
    split
    · exact ⟨rfl, rfl, h⟩
    · obtain ⟨hid, hforest, hnext⟩ := hplain entry
      exact ⟨congrArg some hid, hforest, hnext⟩
  | data entry | parameter entry direction =>
    obtain ⟨hid, hforest, hnext⟩ := hplain entry
    exact ⟨congrArg some hid, hforest, hnext⟩
  | redefines entry =>
    obtain ⟨htarget, hfound⟩ := h.redefinesTarget entry hplace
    obtain ⟨hid, hforest, hnext⟩ := hfound.declareItem hfields entry.entry
      (.redefines (d.redefinesTarget entry place.parent).1) place children
    simp only [htarget]
    exact ⟨congrArg some hid, hforest, hnext⟩
  | renames entry =>
    obtain ⟨hid, hnext⟩ := h.declareRenames entry place
    exact ⟨congrArg some hid, rfl, hnext⟩
  | condition entry =>
    obtain ⟨hid, hnext⟩ := h.declareCondition entry place
    exact ⟨congrArg some hid, rfl, hnext⟩
  | _ => exact ⟨rfl, rfl, h⟩

end

theorem bindIfMade (node : Node) (made : Option SymbolId) :
    Declarations.bindIfMade (node.rename ρ) (made.map ρ) = (Declarations.bindIfMade node made).rename ρ := by
  cases made <;> rfl

/-- The definitions of a forest are made alike, together with those below them. -/
theorem declareFields (forest : Forest) (hplace : place.HoldsData) (h : d.Alike ρ d') :
    Returns (Forest.rename ρ) (Alike ρ) (Declarations.declareFields forest place d)
      (Declarations.declareFields (forest.rename ρ) (place.rename ρ) d') := by
  induction forest generalizing place d d' with
  | nil => exact ⟨rfl, h⟩
  | cons node children siblings ihChildren ihSiblings =>
    have hfields : FieldsAlike ρ (fun place d => Declarations.declareFields children place d)
        (fun place d => Declarations.declareFields (children.rename ρ) place d) := by
      intro id typeBody e e' he
      obtain ⟨hforest, hnext⟩ := ihChildren (Placement.holdsData_fields id typeBody) he
      exact ⟨hforest, hnext⟩
    obtain ⟨hmade, hbelow, hnode⟩ := h.declareNode hfields node hplace children
    obtain ⟨hforest, hnext⟩ := ihSiblings hplace hnode
    unfold Forest.rename Declarations.declareFields
    refine ⟨?_, hnext⟩
    simp only [hmade, hbelow, hforest, bindIfMade, Forest.rename]

end Definitions

section Records

theorem fieldsAlike_declareFields (children : Forest) :
    FieldsAlike ρ (fun place d => Declarations.declareFields children place d)
      (fun place d => Declarations.declareFields (children.rename ρ) place d) := by
  intro id typeBody d d' h
  obtain ⟨hforest, hnext⟩ := declareFields children (Placement.holdsData_fields id typeBody) h
  exact ⟨hforest, hnext⟩

variable (h : d.Alike ρ d')
include h

theorem declareTop (tree : Tree) (scope : SymbolId) :
    Returns (Tree.rename ρ) (Alike ρ) (d.declareTop tree scope) (d'.declareTop (tree.rename ρ) (ρ scope)) := by
  have hfields : FieldsAlike ρ _ _ := fieldsAlike_declareFields tree.children
  by_cases htype : ∃ entry, tree.node.kind = .typeDefinition entry
  · obtain ⟨entry, hkind⟩ := htype
    have hkind' : (tree.rename ρ).node.kind = .typeDefinition entry := hkind
    obtain ⟨hid, hforest, hnext⟩ := h.declareItem hfields entry
      (.typeDefinition (entry.typeClause.getD {}).restriction []) ⟨some (.slot scope .types), none⟩ tree.children
    rw [declareTop_of_type hkind, declareTop_of_type hkind']
    refine ⟨?_, hnext⟩
    refine congrArg₂ Tree.mk ?_ hforest
    exact congrArg (Node.bindSymbol (tree.node.rename ρ)) hid
  · have hkind : ∀ entry, tree.node.kind ≠ .typeDefinition entry := fun entry heq => htype ⟨entry, heq⟩
    have hkind' : ∀ entry, (tree.rename ρ).node.kind ≠ .typeDefinition entry := hkind
    have hparent : d'.topParent (tree.rename ρ) (ρ scope) = (d.topParent tree scope).map (ScopeRef.rename ρ) := by
      rw [topParent_of_item hkind, topParent_of_item hkind', h.storage]
      cases d.storage <;> rfl
    have hplace : (⟨d.topParent tree scope, none⟩ : Placement).HoldsData := by
      intro owner slot hslot
      obtain ⟨kept, heq⟩ := topParent_eq_slot hkind hslot
      cases heq
      cases kept <;> exact ⟨nofun, nofun⟩
    obtain ⟨hmade, hforest, hnext⟩ := h.declareNode hfields tree.node hplace tree.children
    rw [declareTop_of_item hkind, declareTop_of_item hkind', hparent]
    refine ⟨?_, hnext⟩
    refine congrArg₂ Tree.mk ?_ hforest
    rw [← bindIfMade]
    exact congrArg (Declarations.bindIfMade (tree.node.rename ρ)) hmade

theorem clearRenames : d.clearRenames.Alike ρ d'.clearRenames := { h with pendingRenames := rfl }

/-- The level-66 entries that wait are checked alike. -/
theorem checkRenames (hsound : d.table.Sound base)
    (hpending : ∀ entry ∈ d.pendingRenames, base ≤ entry.1 ∧ entry.1 < d.table.size) :
    d.checkRenames.Alike ρ d'.checkRenames := by
  have hfold : ∀ (pending : List (SymbolId × RenamesEntry)) (c c' : Context),
      (∀ entry ∈ pending, base ≤ entry.1 ∧ entry.1 < c.table.size) → c.Alike ρ c' → c.table.Sound base →
      (pending.foldl (fun c pair => Context.validateRenames c pair.1 pair.2) c).Alike ρ
        ((pending.map (Prod.map ρ id)).foldl (fun c pair => Context.validateRenames c pair.1 pair.2) c') := by
    intro pending
    induction pending with
    | nil => exact fun c c' _ hc _ => hc
    | cons entry rest ih =>
      intro c c' hbase hc hsound
      have hmoves : Moves base 0 none { d with context := c, pendingRenames := [entry] } _ :=
        (Checks.refl.validate entry (List.mem_singleton_self entry)).moves
          (List.forall_mem_singleton.mpr (hbase entry List.mem_cons_self))
      refine ih _ _ (fun other hother => ?_) (hc.validateRenames hsound entry.1 entry.2) (hmoves.sound hsound)
      obtain ⟨hother, hlt⟩ := hbase other (List.mem_cons_of_mem _ hother)
      exact ⟨hother, hlt.trans_le hmoves.extends.size_le⟩
  refine h.setContext ?_
  rw [h.pendingRenames]
  exact hfold d.pendingRenames d.context d'.context hpending h.context hsound

/-- A record is made alike under other numbers. -/
theorem declareRecord (hready : d.Ready base) (tree : Tree) :
    Returns (Tree.rename ρ) (Alike ρ) (d.declareRecord tree) (d'.declareRecord (tree.rename ρ)) := by
  have hclear := h.clearRenames
  unfold Declarations.declareRecord
  simp only [hclear.currentScope]
  cases hscope : d.clearRenames.currentScope with
  | none => exact ⟨rfl, hclear⟩
  | some scope =>
    have hmoves : Moves base 0 none d d.clearRenames := clearRenames_moves d
    have htop := declareTop_moves ((hready.scoped hscope).moves hmoves) tree
    obtain ⟨htree, hnext⟩ := hclear.declareTop tree scope
    exact ⟨htree, (hnext.checkRenames (htop.sound hready.sound) (htop.pendingRenames nofun)).clearRenames⟩

end Records

end Declarations.Alike

end CobolSymbols
