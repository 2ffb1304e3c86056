import CobolSymbols.Proofs.Table.Extends

/-!
# Sound tables

What holds of the symbols of a table whatever has been built. Owners come before what they own, scopes belong to scopes
and types to scopes, the fields of a group and the types of a scope belong to it, and a type definition lists exactly the
items of its body that refer to types. References are bound to type definitions, and following them from type to type
never comes back.

A unit under construction owns the symbols from `base` on: they belong to symbols of the unit or are its outermost
program, and none of their references is bound yet.
-/

set_option autoImplicit false

namespace CobolSymbols

/-- The part of a symbol that tells how it is connected with others. -/
structure Links where
  owner : Option SymbolId
  kind : SymbolKind
  fields : List SymbolId
  types : Scope SymbolId
  typedItems : List SymbolId
  reference : Option TypeReference
  leading : Option DataType
  references : List (SymbolId × List SymbolId)

/-- How a symbol is connected with others. -/
def Symbol.links (s : Symbol) : Links :=
  ⟨s.owner, s.kind, s.fieldList, s.types, s.typedItems, s.reference?, s.leading?, s.references⟩

namespace Table

/-- The reference of an item is bound to a type. -/
def Refers (t : Table) (item type : SymbolId) : Prop :=
  ∃ reference, (t.get item).reference? = some reference ∧ reference.target = some type

theorem Refers.isSome {t : Table} {item type : SymbolId} (h : t.Refers item type) :
    (t.get item).reference?.isSome = true := by
  obtain ⟨reference, href, _⟩ := h
  rw [href]
  rfl

/-- A type definition lists an item whose reference is bound to another type. -/
def Edge (t : Table) (type target : SymbolId) : Prop := ∃ item ∈ (t.get type).typedItems, t.Refers item target

/-- How the symbols of a table are arranged while the symbols from `base` on are under construction. -/
structure Formed (t : Table) (base : Nat) : Prop where
  /-- The root has its number and is the only symbol of its kind. -/
  root : ∀ id, (t.get id).kind = .root ∨ (t.get id).kind = .namespaceKind ↔ id = rootId
  /-- The root is never under construction. -/
  root_lt_base : rootId < base
  /-- Owners come first. -/
  ordered : t.Ordered
  /-- Scopes belong to scopes. -/
  scope_owner : ∀ id owner, t.OwnedBy id owner → (t.get id).kind.isScope = true → (t.get owner).kind.isScope = true
  /-- Types belong to scopes. -/
  type_owner : ∀ type owner, t.OwnedBy type owner → t.IsType type → (t.get owner).kind.isScope = true
  /-- Fields belong to their group. -/
  field_owner : ∀ group field, field ∈ (t.get group).fieldList → t.OwnedBy field group
  /-- The types that a scope declares are type definitions that belong to it. -/
  declared : ∀ scope name type, type ∈ (t.get scope).types.lookup name → t.IsType type ∧ t.OwnedBy type scope
  /-- The items that a type lists lie in its body. -/
  listed_within : ∀ type item, item ∈ (t.get type).typedItems → t.Within type item
  /-- Every item in the body of a type that refers to a type is listed. -/
  listed : ∀ type item, t.IsType type → t.Within type item → (t.get item).reference?.isSome = true →
    item ∈ (t.get type).typedItems
  /-- A type that lists items belongs to a program or procedure. -/
  lister_owner : ∀ type owner, t.OwnedBy type owner → (t.get type).typedItems ≠ [] →
    (t.get owner).kind.isProgramLike = true
  /-- The type that a group has in the absence of fields is elementary. -/
  leading : ∀ id type, (t.get id).leading? = some type → type.IsElementary
  /-- What is under construction belongs together. -/
  region : ∀ id owner, base ≤ id → t.OwnedBy id owner →
    base ≤ owner ∨ owner = rootId ∧ (t.get id).kind = .program

/-- What holds of the symbols of a table while the symbols from `base` on are under construction and not yet linked. -/
structure Sound (t : Table) (base : Nat) : Prop extends Formed t base where
  /-- References are bound to type definitions. -/
  target_type : ∀ item type, t.Refers item type → t.IsType type
  /-- Following references from type to type never comes back. -/
  acyclic : ∀ type, ¬ Relation.TransGen t.Edge type type
  /-- No reference under construction is bound. -/
  unbound : ∀ item type, base ≤ item → ¬ t.Refers item type
  /-- No scope under construction has used a type. -/
  unused : ∀ scope, base ≤ scope → (t.get scope).references = []

/-- The second table arranges its symbols as the first does, except that it may have more fields and types that belong to
their owners, and fewer references. -/
structure Arranges (t t' : Table) : Prop where
  owner : ∀ id, (t'.get id).owner = (t.get id).owner
  kind : ∀ id, (t'.get id).kind = (t.get id).kind
  typedItems : ∀ id, (t'.get id).typedItems = (t.get id).typedItems
  fields : ∀ group field, field ∈ (t'.get group).fieldList →
    field ∈ (t.get group).fieldList ∨ t.OwnedBy field group
  types : ∀ scope name type, type ∈ (t'.get scope).types.lookup name →
    type ∈ (t.get scope).types.lookup name ∨ t.IsType type ∧ t.OwnedBy type scope
  referring : ∀ id, (t'.get id).reference?.isSome = true → (t.get id).reference?.isSome = true
  leading : ∀ id type, (t'.get id).leading? = some type → (t.get id).leading? = some type ∨ type.IsElementary

/-- The second table arranges its symbols as the first does, and the references that it has are the same. -/
structure Keeps (t t' : Table) : Prop extends Arranges t t' where
  references : ∀ id, (t'.get id).references = (t.get id).references
  reference : ∀ id, (t'.get id).reference? = (t.get id).reference? ∨ (t'.get id).reference? = none

section Keeps

variable {t t' : Table} {base : Nat}

/-- A change that keeps the connections of all symbols. -/
theorem Keeps.of_links (h : ∀ id, (t'.get id).links = (t.get id).links) : Keeps t t' where
  owner id := congrArg Links.owner (h id)
  kind id := congrArg Links.kind (h id)
  typedItems id := congrArg Links.typedItems (h id)
  references id := congrArg Links.references (h id)
  fields group field hfield := by
    have heq : (t'.get group).fieldList = (t.get group).fieldList := congrArg Links.fields (h group)
    rw [heq] at hfield
    exact .inl hfield
  types scope name type htype := by
    have heq : (t'.get scope).types = (t.get scope).types := congrArg Links.types (h scope)
    rw [heq] at htype
    exact .inl htype
  referring id href := by
    have heq : (t'.get id).reference? = (t.get id).reference? := congrArg Links.reference (h id)
    rwa [heq] at href
  leading id type hleading := by
    have heq : (t'.get id).leading? = (t.get id).leading? := congrArg Links.leading (h id)
    rw [heq] at hleading
    exact .inl hleading
  reference id := .inl (congrArg Links.reference (h id))

section

variable (h : Arranges t t')
include h

theorem Arranges.ownedBy : t'.OwnedBy = t.OwnedBy := by
  funext id owner
  unfold OwnedBy
  rw [h.owner]

theorem Arranges.within : t'.Within = t.Within := by
  unfold Within
  rw [h.ownedBy]

theorem Arranges.isType : t'.IsType = t.IsType := by
  funext id
  unfold IsType
  rw [h.kind]

theorem Arranges.home : t'.Home = t.Home := by
  funext id type
  cases type <;> simp only [Home, h.isType, h.within]

end

theorem Keeps.refers (h : Keeps t t') {item type : SymbolId} (hrefers : t'.Refers item type) : t.Refers item type := by
  obtain ⟨reference, href, htarget⟩ := hrefers
  rcases h.reference item with heq | heq
  · exact ⟨reference, heq ▸ href, htarget⟩
  · rw [heq] at href
    cases href

theorem Keeps.edge (h : Keeps t t') {type target : SymbolId} (hedge : t'.Edge type target) : t.Edge type target := by
  obtain ⟨item, hitem, hrefers⟩ := hedge
  rw [h.typedItems] at hitem
  exact ⟨item, hitem, h.refers hrefers⟩

/-- A table that is arranged as before is well formed as before. -/
theorem Formed.arranges (hformed : t.Formed base) (h : Arranges t t') : t'.Formed base where
  root := by
    simpa only [h.kind] using hformed.root
  root_lt_base := hformed.root_lt_base
  ordered := by
    unfold Ordered
    rw [h.ownedBy]
    exact hformed.ordered
  scope_owner := by
    simpa only [h.ownedBy, h.kind] using hformed.scope_owner
  type_owner := by
    simpa only [h.ownedBy, h.isType, h.kind] using hformed.type_owner
  field_owner := by
    intro group field hfield
    rw [h.ownedBy]
    rcases h.fields group field hfield with hfield | hown
    · exact hformed.field_owner group field hfield
    · exact hown
  declared := by
    intro scope name type htype
    rw [h.ownedBy, h.isType]
    rcases h.types scope name type htype with htype | hdeclared
    · exact hformed.declared scope name type htype
    · exact hdeclared
  listed_within := by
    simpa only [h.within, h.typedItems] using hformed.listed_within
  listed := by
    intro type item htype hwithin href
    rw [h.isType] at htype
    rw [h.within] at hwithin
    rw [h.typedItems]
    exact hformed.listed type item htype hwithin (h.referring item href)
  lister_owner := by
    simpa only [h.ownedBy, h.typedItems, h.kind] using hformed.lister_owner
  leading := by
    intro id type hleading
    rcases h.leading id type hleading with hleading | helem
    · exact hformed.leading id type hleading
    · exact helem
  region := by
    simpa only [h.ownedBy, h.kind] using hformed.region

/-- A change that keeps the connections keeps a table sound. -/
theorem Sound.keeps (hsound : t.Sound base) (h : Keeps t t') : t'.Sound base where
  toFormed := hsound.toFormed.arranges h.toArranges
  target_type := by
    intro item type hrefers
    rw [h.isType]
    exact hsound.target_type item type (h.refers hrefers)
  acyclic := by
    intro type hcycle
    exact hsound.acyclic type (hcycle.lift (fun id => id) fun _ _ => h.edge)
  unbound := by
    intro item type hitem hrefers
    exact hsound.unbound item type hitem (h.refers hrefers)
  unused := by
    simpa only [h.references] using hsound.unused

/-- The root lies in the table. -/
theorem Formed.root_lt (h : t.Formed base) : rootId < t.size := by
  rcases (h.root rootId).mpr rfl with hroot | hroot
  · exact lt_size_of_get (·.kind = _) hroot nofun
  · exact lt_size_of_get (·.kind = _) hroot nofun

/-- A table whose references are in order is sound for a unit that starts now. -/
theorem Formed.finish (hformed : t.Formed base) (htarget : ∀ item type, t.Refers item type → t.IsType type)
    (hacyclic : ∀ type, ¬ Relation.TransGen t.Edge type type) : t.Sound t.size := by
  refine { hformed with
    root_lt_base := hformed.root_lt, region := ?_, target_type := htarget, acyclic := hacyclic, unbound := ?_,
    unused := ?_ }
  · intro id owner hid hown
    exact absurd hown.lt_size hid.not_gt
  · intro item type hitem hrefers
    obtain ⟨reference, href, _⟩ := hrefers
    rw [get_of_size_le hitem] at href
    cases href
  · intro scope hscope
    rw [get_of_size_le hscope]
    rfl

theorem Sound.restart (hsound : t.Sound base) : t.Sound t.size :=
  hsound.toFormed.finish hsound.target_type hsound.acyclic

variable (hformed : t.Formed base)
include hformed

/-- A scope lies in no type. -/
theorem Formed.scope_outside {scope : SymbolId} (hscope : (t.get scope).kind.isScope = true) : t.Home scope none := by
  have hchain : ∀ top, t.Within top scope → (t.get top).kind.isScope = true := by
    intro top hwithin
    induction hwithin with
    | refl => exact hscope
    | tail _ hown ih => exact hformed.scope_owner _ _ hown ih
  intro type htype hwithin
  have htop := hchain type hwithin
  rw [htype] at htop
  cases htop

/-- A symbol lies in the body of one type at most. -/
theorem Formed.type_unique {type type' id : SymbolId} (htype : t.IsType type)
    (htype' : t.IsType type') (hwithin : t.Within type id) (hwithin' : t.Within type' id) : type = type' := by
  have hlinear := (Relation.ReflTransGen.total_of_right_unique (fun _ _ _ h h' => Option.some.inj (h.symm.trans h'))
      hwithin hwithin').symm
  -- a type inside another would belong to a scope inside that type
  have hnested : ∀ {a b}, t.IsType a → t.IsType b → t.Within a b → b = a := by
    intro a b ha hb hab
    rcases within_iff.mp hab with heq | ⟨owner, hown, habove⟩
    · exact heq
    · exact absurd habove (hformed.scope_outside (hformed.type_owner b owner hown hb) a ha)
  rcases hlinear with h | h
  · exact (hnested htype htype' h).symm
  · exact hnested htype' htype h

theorem Formed.root_isScope : (t.get rootId).kind.isScope = true := by
  rcases (hformed.root rootId).mpr rfl with hroot | hroot <;> rw [hroot] <;> rfl

theorem Formed.program_of_scope {id : SymbolId} (hscope : (t.get id).kind.isScope = true)
    (hid : id ≠ rootId) : (t.get id).kind.isProgramLike = true := by
  have hroot : ¬ ((t.get id).kind = .root ∨ (t.get id).kind = .namespaceKind) := fun h => hid ((hformed.root id).mp h)
  cases hkind : (t.get id).kind <;> simp [hkind, SymbolKind.isScope, SymbolKind.isProgramLike] at hscope hroot ⊢

end Keeps

end Table

end CobolSymbols
