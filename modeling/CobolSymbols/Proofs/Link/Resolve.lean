import CobolSymbols.Build.Link
import CobolSymbols.Proofs.Table.Sound

/-!
# What a reference can mean

A name is looked for along the owners of a symbol. From a symbol under construction the search sees only types of the
same unit and built-in types, which list no items. So linking a unit never comes to the types of another one.
-/

set_option autoImplicit false

namespace CobolSymbols

namespace Table

variable {t : Table} {base : Nat} {id scope type : SymbolId} {name : String} {left : Bool}

/-- The symbols of a chain of owners are owners, at some remove, of the first one. -/
theorem within_of_mem_chainFrom {steps : Nat} {above : SymbolId} (h : above ∈ t.chainFrom steps (some id)) :
    t.Within above id := by
  induction steps generalizing id with
  | zero => cases h
  | succ steps ih =>
    rcases List.mem_cons.mp h with heq | hrest
    · rw [heq]
      exact Relation.ReflTransGen.refl
    · cases howner : (t.get id).owner with
      | none =>
        rw [howner] at hrest
        cases steps <;> cases hrest
      | some owner =>
        rw [howner] at hrest
        exact within_iff.mpr (.inr ⟨owner, howner, ih hrest⟩)

theorem within_of_mem_owners {above : SymbolId} (h : above ∈ t.owners id) : t.Within above id := by
  unfold owners at h
  cases howner : (t.get id).owner with
  | none =>
    rw [howner] at h
    cases hsize : t.size <;> rw [hsize] at h <;> cases h
  | some owner =>
    rw [howner] at h
    exact within_iff.mpr (.inr ⟨owner, howner, within_of_mem_chainFrom h⟩)

theorem within_of_enclosingScope (h : t.enclosingScope id = some scope) :
    t.Within scope id ∧ (t.get scope).kind.isScope = true := by
  have hscope : (t.get scope).isScope = true := by simpa using List.find?_some h
  rw [Symbol.isScope_eq] at hscope
  exact ⟨within_of_mem_owners (List.mem_of_find?_eq_some h), hscope⟩

/-- Owners of a symbol under construction are under construction too, up to the root. -/
theorem lt_size_of_enclosingScope (h : t.enclosingScope id = some scope) : scope < t.size :=
  lt_size_of_get (·.kind.isScope = true) (within_of_enclosingScope h).2 (by decide)

theorem mem_types_of_mem_typesIn (h : type ∈ t.typesIn name left scope) : type ∈ (t.get scope).types.lookup name := by
  unfold typesIn at h
  unfold Symbol.types
  cases hbody : (t.get scope).body with
  | root scopes | namespaceBody scopes => simpa only [hbody] using h
  | program data | procedure data =>
    simp only [hbody] at h
    exact (List.mem_filter.mp h).1
  | _ => simp [hbody] at h

theorem mem_types_of_mem_resolveTypeIn {chain : List SymbolId}
    (h : type ∈ t.resolveTypeIn name left chain) : ∃ scope ∈ chain, type ∈ (t.get scope).types.lookup name := by
  induction chain generalizing left with
  | nil => cases h
  | cons scope outer ih =>
    unfold resolveTypeIn at h
    split at h
    · obtain ⟨found, hfound, htype⟩ := ih h
      exact ⟨found, List.mem_cons_of_mem _ hfound, htype⟩
    · exact ⟨scope, List.mem_cons_self, mem_types_of_mem_typesIn h⟩

/-- A type that can be reached by linking a unit: one of the unit, or one that lists no items. -/
def Reachable (t : Table) (base : Nat) (type : SymbolId) : Prop :=
  t.IsType type ∧ (base ≤ type ∨ (t.get type).typedItems = [])

variable (hformed : t.Formed base)
include hformed

theorem Formed.above {above : SymbolId} (hid : base ≤ id) (h : t.Within above id) : base ≤ above ∨ above = rootId := by
  induction h with
  | refl => exact .inl hid
  | tail _ hown ih =>
    rename_i middle above _
    rcases ih with hmiddle | hroot
    · exact (hformed.region middle above hmiddle hown).imp_right And.left
    · have hlt := hformed.ordered middle above hown
      rw [hroot] at hlt
      exact absurd hlt (Nat.not_lt_zero above)

/-- A scope in which a symbol under construction lies is the root or a program or procedure of the unit. -/
theorem Formed.enclosing_base (hid : base ≤ id)
    (h : t.enclosingScope id = some scope) : base ≤ scope ∨ scope = rootId :=
  hformed.above hid (within_of_enclosingScope h).1

/-- The types that a name means in a scope of the unit are types of the unit or list no items. -/
theorem Formed.reachable_of_mem_resolveType
    (hscope : base ≤ scope ∨ scope = rootId) (h : type ∈ t.resolveType scope name) : t.Reachable base type := by
  obtain ⟨found, hfound, hlookup⟩ := mem_types_of_mem_resolveTypeIn h
  obtain ⟨htype, hown⟩ := hformed.declared found name type hlookup
  have hwithin : t.Within found scope := within_of_mem_chainFrom hfound
  have hfound' : base ≤ found ∨ found = rootId := by
    rcases hscope with hscope | hscope
    · exact hformed.above hscope hwithin
    · have hle := hwithin.le hformed.ordered
      rw [hscope] at hle
      exact .inr (Nat.le_zero.mp hle)
  refine ⟨htype, ?_⟩
  rcases hfound' with hbase | hroot
  · exact .inl (hbase.trans_lt (hformed.ordered type found hown)).le
  · refine .inr (Decidable.byContradiction fun hitems => ?_)
    have hprog := hformed.lister_owner type found hown hitems
    have hkind := (hformed.root found).mpr hroot
    rcases hkind with hkind | hkind <;> rw [hkind] at hprog <;> cases hprog

end Table

namespace Linker

variable {l : Linker} {base : Nat}

/-- Looking a reference up changes diagnostics only. -/
theorem resolve_state (l : Linker) (item : SymbolId) :
    (l.resolve item).2.table = l.table ∧ (l.resolve item).2.resolved = l.resolved ∧
      (l.resolve item).2.cyclic = l.cyclic := by
  unfold resolve
  simp only
  split
  · split <;> exact ⟨rfl, rfl, rfl⟩
  · exact ⟨rfl, rfl, rfl⟩

/-- The reference of an item of the unit means a type of the unit or one that lists no items. -/
theorem resolve_reachable (hformed : l.table.Formed base) {item type : SymbolId} (hitem : base ≤ item)
    (h : (l.resolve item).1 = some type) : l.table.Reachable base type := by
  unfold resolve at h
  simp only at h
  split at h
  · rename_i reference scope _ hscope
    split at h
    · rename_i found hfound
      cases h
      have hmem : type ∈ l.table.resolveType scope reference.name := by
        rw [hfound]
        exact List.mem_singleton_self type
      exact hformed.reachable_of_mem_resolveType (hformed.enclosing_base hitem hscope) hmem
    · cases h
    · cases h
  · cases h

end Linker

end CobolSymbols
