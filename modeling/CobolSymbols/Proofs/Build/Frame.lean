import CobolSymbols.Proofs.Build.Ready

/-!
# What stays of an item once it is made

A group and its fields tell each other's numbers: the fields their owner, the group its fields in order, an index the
item that it belongs to. `Symbol.itemView` is what a symbol tells of this. Moves change it only for new items and for the
group that new items are entered into, and linking does not change it at all. So when a record is complete, its items are
never changed again in this respect.
-/

set_option autoImplicit false

namespace CobolSymbols

open Symbol Table ItemData

/-- The item that an index belongs to. -/
def ItemKind.indexed? : ItemKind → Option SymbolId
  | .index id => some id
  | _ => none

namespace Symbol

variable (s : Symbol)

/-- The item that the symbol is an index of. -/
def indexed? (s : Symbol) : Option SymbolId := s.item?.bind fun data => data.kind.indexed?

/-- What a symbol tells about how it is connected to its group, its fields and its indexed item. -/
structure ItemView where
  name : String
  owner : Option SymbolId
  kind : SymbolKind
  fields : Option (List SymbolId)
  indexed : Option SymbolId

/-- How the symbol is connected. -/
def itemView (s : Symbol) : ItemView := ⟨s.name, s.owner, s.kind, s.fields?.map (·.order), s.indexed?⟩

theorem indexed?_eq : s.indexed? = s.core?.bind ItemKind.indexed? := by
  unfold indexed? core?
  cases s.item? with
  | none => rfl
  | some data => cases hkind : data.kind <;> simp [hkind, ItemKind.core, ItemKind.indexed?]

theorem itemView_of_identity {s s' : Symbol} (h : s'.identity = s.identity) (hfields : s'.fields? = s.fields?) :
    s'.itemView = s.itemView := by
  unfold identity at h
  simp only [Prod.mk.injEq] at h
  simp only [itemView, indexed?_eq, hfields, h]

/-- A symbol that is told apart by its type only in what a view does not see. -/
theorem itemView_setType {type : Option DataType}
    (h : type.bind DataType.fields? = s.fields?) : ({ s with type } : Symbol).itemView = s.itemView :=
  itemView_of_identity rfl h

/-- Changing a type in what does not concern its fields. -/
theorem itemView_mapType {f : DataType → DataType} (h : ∀ type, (f type).fields? = type.fields?) :
    ({ s with type := s.type.map f } : Symbol).itemView = s.itemView := by
  refine itemView_setType s ?_
  unfold fields?
  cases s.type with
  | none => rfl
  | some type => exact h type

@[simp] theorem itemView_mapProgram (f : ProgramData → ProgramData) :
    (s.mapProgram f).itemView = s.itemView := itemView_of_identity (s.identity_mapProgram f) (by simp [fields?])

@[simp] theorem itemView_mapScopes (f : Scopes → Scopes) : (s.mapScopes f).itemView = s.itemView :=
  itemView_of_identity (s.identity_mapScopes f) (by simp [fields?])

/-- Changing the data of an item in what does not concern its kind. -/
theorem itemView_mapItem (f : ItemData → ItemData) (hlevel : ∀ data, (f data).level = data.level)
    (hcore : ∀ data, (f data).kind.core = data.kind.core) : (s.mapItem f).itemView = s.itemView :=
  itemView_of_identity (s.identity_mapItem f hlevel hcore) (by simp [fields?])

theorem itemView_addTypedItem (id : SymbolId) : (s.mapItem (ItemData.addTypedItem id)).itemView = s.itemView :=
  itemView_mapItem s _ (addTypedItem_level id) (addTypedItem_core id)

/-- How symbols are connected is nothing that linking changes. -/
theorem blind_itemView : Linker.Blind itemView where
  bind s type _ := itemView_mapType s fun type' => DataType.fields?_bindReference type type'
  list s _ := itemView_mapProgram s _
  object s target := itemView_mapType s fun type => DataType.fields?_bindDependingOn target type

end Symbol

/-- The symbol is a data item. -/
def Table.IsItem (t : Table) (id : SymbolId) : Prop := (t.get id).kind.isItem = true

theorem Table.IsItem.lt_size {t : Table} {id : SymbolId} (h : t.IsItem id) : id < t.size :=
  lt_size_of_get (·.kind.isItem = true) h nofun

theorem Table.IsItem.kind_ne {t : Table} {id : SymbolId} (h : t.IsItem id) {kind : SymbolKind}
    (hkind : kind.isItem = false) : (t.get id).kind ≠ kind := by
  rintro rfl
  exact absurd h (Bool.eq_false_iff.mp hkind)

theorem Table.IsType.isItem {t : Table} {id : SymbolId} (h : t.IsType id) : t.IsItem id := by
  unfold IsItem
  rw [h]
  rfl

/-- How a symbol is connected is the same in two tables. -/
def Table.SameView (t t' : Table) (id : SymbolId) : Prop := (t'.get id).itemView = (t.get id).itemView

section SameView

variable {t t' : Table} {id : SymbolId}

variable (h : t.SameView t' id)
include h

theorem Table.SameView.name : (t'.get id).name = (t.get id).name :=
  congrArg ItemView.name h

theorem Table.SameView.owner : (t'.get id).owner = (t.get id).owner :=
  congrArg ItemView.owner h

theorem Table.SameView.item (hid : t.IsItem id) : t'.IsItem id := by
  have hkind : (t'.get id).kind = (t.get id).kind := congrArg ItemView.kind h
  unfold IsItem
  rw [hkind, hid]

theorem Table.SameView.indexed? : (t'.get id).indexed? = (t.get id).indexed? :=
  congrArg ItemView.indexed h

end SameView

/-- A table keeps how the items of another are connected. -/
structure Table.Preserves (t t' : Table) : Prop where
  size_le : t.size ≤ t'.size
  view : ∀ id, t.IsItem id → t.SameView t' id

theorem Table.Preserves.refl (t : Table) : t.Preserves t := ⟨le_rfl, fun _ _ => rfl⟩

theorem Table.Preserves.trans {t t' t'' : Table} (h : t.Preserves t') (h' : t'.Preserves t'') : t.Preserves t'' where
  size_le := h.size_le.trans h'.size_le
  view id hid := (h'.view id ((h.view id hid).item hid)).trans (h.view id hid)

namespace Declarations

section Frame

variable {base old : Nat} {parent : Option ScopeRef} {d d' : Declarations} {id : SymbolId}

/-- An item that exists and is not the group that new items are entered into. -/
structure Aside (d : Declarations) (old : Nat) (parent : Option ScopeRef) (id : SymbolId) : Prop where
  old : id < old
  lt : id < d.table.size
  kind : (d.table.get id).kind.isItem = true
  parent : parent ≠ some (.fields id)

theorem itemView_modify {other : SymbolId} {f : Symbol → Symbol} (h : ∀ s, (f s).itemView = s.itemView) :
    ((d.modify other f).table.get id).itemView = (d.table.get id).itemView :=
  view_modify Symbol.itemView (h _) id

theorem itemView_enterIn {ref : ScopeRef} (other : SymbolId) (h : ref ≠ .fields id) :
    ((d.enterIn other (some ref)).table.get id).itemView = (d.table.get id).itemView := by
  have htable : (d.enterIn other (some ref)).table = d.table.enter ref other := rfl
  rw [htable]
  cases ref with
  | slot owner slot =>
    rw [enter_slot]
    split
    · exact view_modify Symbol.itemView (itemView_mapScopes _ _) id
    · rfl
  | fields owner =>
    have hne : id ≠ owner := fun heq => h (by rw [heq])
    rw [get_enter_of_ne other hne]

theorem itemView_queueTyped (item : SymbolId) (typeBody : Option SymbolId) :
    ((d.queueTyped item typeBody).table.get id).itemView = (d.table.get id).itemView := by
  cases typeBody with
  | none => rfl
  | some type => exact itemView_modify fun s => itemView_addTypedItem s item

theorem itemView_addToDomain (item : SymbolId) :
    ((d.addToDomain item).table.get id).itemView = (d.table.get id).itemView := by
  unfold addToDomain
  split
  · exact view_modify Symbol.itemView (itemView_mapProgram _ _) id
  · rfl

theorem itemView_addVariable (item : SymbolId) :
    ((d.mapTable fun t => (t.addVariable item).2).table.get id).itemView = (d.table.get id).itemView := by
  have hget : (d.mapTable fun t => (t.addVariable item).2).table.get id = _ := addVariable_get d.table item id
  rw [hget]
  refine view_modify Symbol.itemView ?_ id
  exact itemView_mapItem _ _ (fun _ => rfl) fun _ => rfl

/-- A move changes nothing about an item that stands aside. -/
theorem Move.itemView (h : Move base old parent d d') (hid : d.Aside old parent id) :
    (d'.table.get id).itemView = (d.table.get id).itemView := by
  refine itemView_of_identity (h.extends.identity id hid.lt) ?_
  unfold Symbol.fields?
  rcases h.type_eq hid.old hid.lt hid.kind with heq | ⟨hparent, _⟩
  · rw [heq]
  · exact absurd hparent hid.parent

theorem Aside.extends (h : d.Aside old parent id) (hext : d.table.Extends d'.table) : d'.Aside old parent id where
  old := h.old
  lt := h.lt.trans_le hext.size_le
  kind := by rw [hext.kind h.lt, h.kind]
  parent := h.parent

theorem Moves.itemView (h : Moves base old parent d d') (hid : d.Aside old parent id) :
    (d'.table.get id).itemView = (d.table.get id).itemView := by
  induction h with
  | refl => rfl
  | tail hmoves hmove ih => rw [hmove.itemView (hid.extends (Moves.extends hmoves)), ih]

end Frame

section Steps

variable {base : Nat} {d d' : Declarations}

/-- What is entered into a scope of a program, a procedure or the root changes nothing about the items that exist. -/
theorem Moves.preserves {parent : Option ScopeRef} (hmoves : Moves base d.table.size parent d d')
    (hparent : ∀ group, parent ≠ some (.fields group)) : d.table.Preserves d'.table where
  size_le := hmoves.extends.size_le
  view id hid := hmoves.itemView ⟨hid.lt_size, hid.lt_size, hid, hparent id⟩

theorem topParent_ne_fields (d : Declarations) (tree : Tree) (scope group : SymbolId) :
    d.topParent tree scope ≠ some (.fields group) := by
  unfold topParent
  split
  · simp
  · simp

theorem preserves_startProgram (h : d.Ready base) (header : ProgramHeader) :
    d.table.Preserves (d.startProgram header).2.table := by
  obtain ⟨base', program, made, hmoves, _, htable, _⟩ := h.startProgram_cases header
  rw [htable]
  exact hmoves.preserves (by simp)

/-- No step changes anything about the items that exist. -/
theorem Step.preserves (hstep : Step d d') (h : d.Ready base) : d.table.Preserves d'.table := by
  cases h.course hstep with
  | startProgram header => exact preserves_startProgram h header
  | endProgram =>
    unfold Declarations.endProgram
    simp only
    split
    · exact ⟨(size_link d.leaveProgram).symm.le, fun id _ => view_link blind_itemView d.leaveProgram id⟩
    · exact Preserves.refl _
  | startProcedure header parameters hscope =>
    have hopened := (procedure_moves (h.scoped hscope) header).preserves (by simp)
    exact hopened.trans ((h.startProcedure_moves hscope header parameters).preserves (by simp))
  | inside hscope hmoves hparent =>
    refine hmoves.preserves fun group hgroup => ?_
    obtain ⟨_, heq⟩ := hparent _ hgroup
    cases heq
  | endProcedure | aside => exact Preserves.refl _

end Steps

end Declarations

end CobolSymbols
