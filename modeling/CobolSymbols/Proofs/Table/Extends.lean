import CobolSymbols.Proofs.Symbol.Views
import CobolSymbols.Proofs.Table.Access
import Mathlib.Logic.Relation
import Mathlib.Order.Nat

/-!
# Tables that grow

A table grows by new symbols; what identifies a symbol (its name, its owner, its level and the kind that it was declared
with) never changes. The owner of a symbol is made before it, so the owners of a symbol, and the type definition in whose body it lies, stay the
same when the table grows.
-/

set_option autoImplicit false

namespace CobolSymbols

/-- The kind of an item without what is added to it later. -/
def ItemKind.core : ItemKind → ItemKind
  | .typeDefinition restriction _ => .typeDefinition restriction []
  | .renames first thru _ => .renames first thru none
  | kind => kind

namespace Symbol

variable (s : Symbol)

/-- The kind that the symbol was declared with, as an item. -/
def core? (s : Symbol) : Option ItemKind := s.item?.map fun data => data.kind.core

/-- What identifies a symbol for ever. -/
def identity (s : Symbol) : String × Option SymbolId × SymbolKind × Option Level × Option ItemKind :=
  (s.name, s.owner, s.kind, s.level?, s.core?)

@[simp] theorem identity_mapProgram (f : ProgramData → ProgramData) : (s.mapProgram f).identity = s.identity := by
  simp [identity, level?, core?]

@[simp] theorem identity_mapScopes (f : Scopes → Scopes) : (s.mapScopes f).identity = s.identity := by
  simp [identity, level?, core?]

/-- Changing the data of an item keeps what identifies it when the level and what its kind was declared with stay. -/
theorem identity_mapItem (f : ItemData → ItemData) (hlevel : ∀ data, (f data).level = data.level)
    (hcore : ∀ data, (f data).kind.core = data.kind.core) : (s.mapItem f).identity = s.identity := by
  have hkind : (s.mapItem f).kind = s.kind := by
    refine mapItem_kind f s fun data hdata => ?_
    have hdata' := hcore data
    simp only [kind, hdata]
    cases hnew : (f data).kind <;> cases hold : data.kind <;> simp_all [ItemKind.core]
  simp [identity, level?, core?, hkind, Function.comp_def, hlevel, hcore]

/-- The item that the symbol redefines. -/
def redefined? (s : Symbol) : Option SymbolId :=
  match s.item?.map ItemData.kind with
  | some (.redefines target) => target
  | _ => none

theorem kind_of_redefined? {s : Symbol} {target : SymbolId} (h : s.redefined? = some target) : s.kind = .redefines := by
  unfold redefined? item? at h
  unfold kind
  cases hbody : s.body with
  | item data => cases hkind : data.kind <;> simp_all
  | _ => simp [hbody] at h

theorem redefined?_eq : s.redefined? = match s.core? with
    | some (.redefines target) => target
    | _ => none := by
  unfold redefined? core?
  cases s.item? with
  | none => rfl
  | some data => cases hkind : data.kind <;> simp [hkind, ItemKind.core]

end Symbol

namespace Table

variable {id top : SymbolId} {type : Option SymbolId}

/-- The second table has the symbols of the first and maybe more. -/
structure Extends (t t' : Table) : Prop where
  size_le : t.size ≤ t'.size
  identity : ∀ id, id < t.size → (t'.get id).identity = (t.get id).identity

namespace Extends

variable {t t' t'' : Table} {id : SymbolId}

theorem refl (t : Table) : Extends t t := ⟨le_rfl, fun _ _ => rfl⟩

theorem trans (h : Extends t t') (h' : Extends t' t'') : Extends t t'' where
  size_le := h.size_le.trans h'.size_le
  identity id hid := by rw [h'.identity id (hid.trans_le h.size_le), h.identity id hid]

theorem of_get (hsize : t'.size = t.size) (hget : ∀ id, (t'.get id).identity = (t.get id).identity) : Extends t t' :=
  ⟨hsize.symm.le, fun id _ => hget id⟩

theorem modify (t : Table) (id : SymbolId) {f : Symbol → Symbol}
    (h : (f (t.get id)).identity = (t.get id).identity) : Extends t (t.modify id f) :=
  of_get (size_modify t id f) (view_modify Symbol.identity h)

theorem alloc (t : Table) (s : Symbol) : Extends t (t.alloc s).2 where
  size_le := by simp
  identity id hid := by rw [get_alloc_of_lt s hid]

theorem enter (t : Table) (ref : ScopeRef) (id : SymbolId) : Extends t (t.enter ref id) := by
  cases ref with
  | slot owner slot =>
    rw [enter_slot]
    split
    · exact modify t owner (Symbol.identity_mapScopes _ _)
    · exact refl t
  | fields owner => exact modify t owner rfl

theorem addVariable (t : Table) (id : SymbolId) : Extends t (t.addVariable id).2 := by
  refine of_get (size_addVariable t id) fun j => ?_
  rw [addVariable_get]
  refine view_modify Symbol.identity ?_ j
  exact Symbol.identity_mapItem _ _ (fun _ => rfl) (fun _ => rfl)

variable (h : Extends t t') (hid : id < t.size)
include h hid

theorem name : (t'.get id).name = (t.get id).name :=
  congrArg (·.1) (h.identity id hid)

theorem owner : (t'.get id).owner = (t.get id).owner :=
  congrArg (·.2.1) (h.identity id hid)

theorem kind : (t'.get id).kind = (t.get id).kind :=
  congrArg (·.2.2.1) (h.identity id hid)

theorem level? : (t'.get id).level? = (t.get id).level? :=
  congrArg (·.2.2.2.1) (h.identity id hid)

theorem core? : (t'.get id).core? = (t.get id).core? :=
  congrArg (·.2.2.2.2) (h.identity id hid)

theorem redefined? : (t'.get id).redefined? = (t.get id).redefined? := by
  rw [Symbol.redefined?_eq, h.core? hid, ← Symbol.redefined?_eq]

end Extends

/-- The owner of a symbol. -/
def OwnedBy (t : Table) (id owner : SymbolId) : Prop := (t.get id).owner = some owner

/-- A symbol is another one or is reached from it by following what it owns. -/
def Within (t : Table) (top id : SymbolId) : Prop := Relation.ReflTransGen t.OwnedBy id top

/-- The symbol is a type definition. -/
def IsType (t : Table) (id : SymbolId) : Prop := (t.get id).kind = .typeDefinition

/-- The type definition in whose body a symbol lies, when it lies in one. -/
def Home (t : Table) (id : SymbolId) : Option SymbolId → Prop
  | some type => t.IsType type ∧ t.Within type id
  | none => ∀ type, t.IsType type → ¬ t.Within type id

/-- Every owner is made before what it owns. -/
def Ordered (t : Table) : Prop := ∀ id owner, t.OwnedBy id owner → owner < id

/-- A new symbol of an owner that exists comes after it. -/
theorem Ordered.alloc {t : Table} {s : Symbol} {owner : SymbolId} (ht : t.Ordered) (howner : s.owner = some owner)
    (hlt : owner < t.size) : (t.alloc s).2.Ordered := by
  intro id other hown
  unfold OwnedBy at hown
  rw [get_alloc] at hown
  split at hown
  · rename_i hid
    rw [hid, Option.some.inj (hown.symm.trans howner)]
    exact hlt
  · exact ht id other hown

theorem OwnedBy.lt_size {t : Table} {owner : SymbolId} (h : t.OwnedBy id owner) : id < t.size :=
  lt_size_of_get (·.owner = some owner) h nofun

theorem lt_size_of_isProgramLike {t : Table} (h : (t.get id).kind.isProgramLike = true) : id < t.size :=
  lt_size_of_get (·.kind.isProgramLike = true) h nofun

theorem lt_size_of_fields? {t : Table} (h : (t.get id).fields?.isSome = true) : id < t.size :=
  lt_size_of_get (·.fields?.isSome = true) h nofun

theorem lt_size_of_scope? {t : Table} {ref : ScopeRef} (h : (t.scope? ref).isSome = true) : ref.owner < t.size := by
  apply lt_size_of_get_ne
  intro hdefault
  cases ref with
  | slot owner slot =>
    have hscope : ((t.get owner).scope? slot).isSome = true := h
    have hget : t.get owner = default := hdefault
    rw [hget] at hscope
    cases hscope
  | fields owner =>
    have hfields : ((t.get owner).fields?).isSome = true := h
    have hget : t.get owner = default := hdefault
    rw [hget] at hfields
    cases hfields

/-- A type definition lies in the table. -/
theorem IsType.lt_size {t : Table} (h : t.IsType id) : id < t.size :=
  lt_size_of_get (·.kind = .typeDefinition) h nofun

theorem OwnedBy.unique {t : Table} {owner owner' : SymbolId} (h : t.OwnedBy id owner) (h' : t.OwnedBy id owner') :
    owner = owner' := Option.some.inj (h.symm.trans h')

theorem Extends.ownedBy_iff {t t' : Table} (h : Extends t t') (hid : id < t.size) {owner : SymbolId} :
    t'.OwnedBy id owner ↔ t.OwnedBy id owner := by
  unfold OwnedBy
  rw [h.owner hid]

theorem Extends.isType_iff {t t' : Table} (h : Extends t t') (hid : id < t.size) : t'.IsType id ↔ t.IsType id := by
  unfold IsType
  rw [h.kind hid]

/-- What lies within a symbol has no smaller number. -/
theorem Within.le {t : Table} (ht : t.Ordered) (h : t.Within top id) : top ≤ id := by
  induction h with
  | refl => exact le_rfl
  | tail _ hown ih => exact (ht _ _ hown).le.trans ih

/-- A symbol lies within another exactly when it is the other one or its owner lies within it. -/
theorem within_iff {t : Table} : t.Within top id ↔ id = top ∨ ∃ owner, t.OwnedBy id owner ∧ t.Within top owner :=
  Relation.ReflTransGen.cases_head_iff

/-- Growing a table moves no symbol into or out of another. -/
theorem Extends.within_iff {t t' : Table} (h : Extends t t') (ht : t.Ordered)
    (hid : id < t.size) : t'.Within top id ↔ t.Within top id := by
  induction id using Nat.strongRecOn with
  | ind id ih =>
    rw [Table.within_iff, Table.within_iff (t := t)]
    refine or_congr_right (exists_congr fun owner => ?_)
    rw [h.ownedBy_iff hid]
    refine and_congr_right fun hown => ?_
    have hlt : owner < id := ht _ _ hown
    exact ih owner hlt (hlt.trans hid)

/-- A symbol stays in the body of the type definition in which it lies. -/
theorem Extends.home {t t' : Table} (h : Extends t t') (ht : t.Ordered) (hid : id < t.size) (hhome : t.Home id type) :
    t'.Home id type := by
  cases type with
  | some type =>
    obtain ⟨htype, hwithin⟩ := hhome
    exact ⟨(h.isType_iff htype.lt_size).mpr htype, (h.within_iff ht hid).mpr hwithin⟩
  | none =>
    intro type htype hwithin
    have hwithin' : t.Within type id := (h.within_iff ht hid).mp hwithin
    have hlt : type < t.size := (hwithin'.le ht).trans_lt hid
    exact hhome type ((h.isType_iff hlt).mp htype) hwithin'

/-- A symbol that is no type definition lies in the body in which its owner lies. -/
theorem Home.of_owner {t : Table} {owner : SymbolId} (hown : t.OwnedBy id owner) (hnot : ¬ t.IsType id)
    (h : t.Home owner type) : t.Home id type := by
  cases type with
  | some type => exact ⟨h.1, Table.within_iff.mpr (.inr ⟨owner, hown, h.2⟩)⟩
  | none =>
    intro type htype hwithin
    rcases Table.within_iff.mp hwithin with heq | ⟨owner', hown', hwithin'⟩
    · subst heq
      exact hnot htype
    · obtain rfl := hown.unique hown'
      exact h type htype hwithin'

/-- A type definition lies in its own body. -/
theorem Home.self {t : Table} (h : t.IsType id) : t.Home id (some id) :=
  ⟨h, Relation.ReflTransGen.refl⟩

end Table

end CobolSymbols
