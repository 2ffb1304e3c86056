import CobolSymbols.Proofs.Build.Soundness
import CobolSymbols.Proofs.Link.Resolve

/-!
# The search through type definitions

Linking follows references from type to type, depth first. A type is settled when each item that it lists is bound to a
settled type, stays unbound because it closes a cycle, or cannot be resolved. The types on the path are those whose items
are being looked at. Items are bound only while their type is on the path, and never to a type of the path, so following
references never comes back.

This module says what the search keeps, and that each of its elementary changes keeps it.
-/

set_option autoImplicit false

namespace CobolSymbols

open Option Symbol Table

open Relation (TransGen ReflTransGen)

/-- A path that uses one more edge goes around it, or comes to the edge's start and goes on from its end. -/
theorem transGen_add_edge {α : Type} {r r' : α → α → Prop} {a b : α} (h : ∀ x y, r' x y → r x y ∨ x = a ∧ y = b)
    {x y : α} (hxy : TransGen r' x y) : TransGen r x y ∨ ReflTransGen r x a ∧ ReflTransGen r b y := by
  induction hxy with
  | single hstep =>
    rcases h _ _ hstep with hstep | ⟨rfl, rfl⟩
    · exact .inl (.single hstep)
    · exact .inr ⟨.refl, .refl⟩
  | tail _ hstep ih =>
    rcases h _ _ hstep with hstep | ⟨rfl, rfl⟩
    · rcases ih with ih | ⟨hbefore, hafter⟩
      · exact .inl (ih.tail hstep)
      · exact .inr ⟨hbefore, hafter.tail hstep⟩
    · rcases ih with ih | ⟨hbefore, _⟩
      · exact .inr ⟨ih.to_reflTransGen, .refl⟩
      · exact .inr ⟨hbefore, .refl⟩

/-- An edge whose end does not lead to its start closes no cycle. -/
theorem acyclic_add_edge {α : Type} {r r' : α → α → Prop} {a b : α} (h : ∀ x y, r' x y → r x y ∨ x = a ∧ y = b)
    (hacyclic : ∀ x, ¬ TransGen r x x) (hback : ¬ ReflTransGen r b a) (x : α) : ¬ TransGen r' x x := by
  intro hcycle
  rcases transGen_add_edge h hcycle with hcycle | ⟨hbefore, hafter⟩
  · exact hacyclic x hcycle
  · exact hback (hafter.trans hbefore)

namespace Table

theorem Refers.unique {t : Table} {item type type' : SymbolId} (h : t.Refers item type) (h' : t.Refers item type') :
    type = type' := by
  obtain ⟨reference, href, htarget⟩ := h
  obtain ⟨reference', href', htarget'⟩ := h'
  have heq : reference = reference' := Option.some.inj (href.symm.trans href')
  subst heq
  exact Option.some.inj (htarget.symm.trans htarget')

theorem Arranges.refl (t : Table) : t.Arranges t := (Keeps.of_links fun _ => rfl).toArranges

theorem Arranges.trans {t t' t'' : Table} (h : t.Arranges t') (h' : t'.Arranges t'') : t.Arranges t'' where
  owner id := (h'.owner id).trans (h.owner id)
  kind id := (h'.kind id).trans (h.kind id)
  typedItems id := (h'.typedItems id).trans (h.typedItems id)
  fields group field hfield := by
    rcases h'.fields group field hfield with hfield | hown
    · exact h.fields group field hfield
    · rw [h.ownedBy] at hown
      exact .inr hown
  types scope name type hlookup := by
    rcases h'.types scope name type hlookup with hlookup | hdeclared
    · exact h.types scope name type hlookup
    · rw [h.ownedBy, h.isType] at hdeclared
      exact .inr hdeclared
  referring id href := h.referring id (h'.referring id href)
  leading id type hleading := by
    rcases h'.leading id type hleading with hleading | helem
    · exact h.leading id type hleading
    · exact .inr helem

end Table

namespace Linker

/-- An item has been dealt with: it closes a cycle, cannot be resolved, or is bound to a settled type. -/
def Settles (l : Linker) (settled : SymbolId → Prop) (item : SymbolId) : Prop :=
  item ∈ l.cyclic ∨ List.lookup item l.resolved = some none ∨
    ∃ type, List.lookup item l.resolved = some (some type) ∧ l.table.Refers item type ∧ settled type

/-- What holds of the search while the types of `path` are open. -/
structure Search (l : Linker) (base : Nat) (settled : SymbolId → Prop) (path : List SymbolId) : Prop where
  formed : l.table.Formed base
  target_type : ∀ item type, l.table.Refers item type → l.table.IsType type
  acyclic : ∀ type, ¬ TransGen l.table.Edge type type
  /-- Settled types belong to the unit or list no items. -/
  reachable : ∀ type, settled type → l.table.Reachable base type
  /-- The items of a settled type have been dealt with. -/
  done : ∀ type item, settled type → item ∈ (l.table.get type).typedItems → l.Settles settled item
  /-- Only items of settled types and of the path are bound. -/
  visited : ∀ type item target, item ∈ (l.table.get type).typedItems → base ≤ item → l.table.Refers item target →
    settled type ∨ type ∈ path
  /-- Items are bound to what their reference was found to mean. -/
  cached : ∀ type item target, item ∈ (l.table.get type).typedItems → base ≤ item → l.table.Refers item target →
    List.lookup item l.resolved = some (some target)
  /-- Items that close a cycle are not bound. -/
  unbound : ∀ type item target, item ∈ (l.table.get type).typedItems → item ∈ l.cyclic → ¬ l.table.Refers item target
  /-- The types that a scope uses are settled or on the path. -/
  used : ∀ scope type items, base ≤ scope → (type, items) ∈ (l.table.get scope).references → settled type ∨ type ∈ path
  /-- What references were found to mean can be reached. -/
  found : ∀ item type, List.lookup item l.resolved = some (some type) →
    l.table.Reachable base type ∧ (l.table.get item).reference?.isSome = true

/-- Linking went on: bindings and results are kept, and the items of the types on the path are as they were. -/
structure Follows (l l' : Linker) (path : List SymbolId) : Prop where
  arranges : l.table.Arranges l'.table
  size : l'.table.size = l.table.size
  refers : ∀ item type, l.table.Refers item type →
    (∃ lister, item ∈ (l.table.get lister).typedItems) → l'.table.Refers item type
  resolved : ∀ item result, List.lookup item l.resolved = some result → List.lookup item l'.resolved = some result
  cyclic : ∀ item, item ∈ l.cyclic → item ∈ l'.cyclic
  quiet : ∀ type target, type ∈ path → l'.table.Edge type target → l.table.Edge type target

namespace Follows

variable {l l' l'' : Linker} {path : List SymbolId}

theorem refl (l : Linker) (path : List SymbolId) : Follows l l path :=
  ⟨Arranges.refl _, rfl, fun _ _ h _ => h, fun _ _ h => h, fun _ h => h, fun _ _ _ h => h⟩

theorem mono {path' : List SymbolId} (h : Follows l l' path') (hsub : ∀ type ∈ path, type ∈ path') :
    Follows l l' path :=
  { h with quiet := fun type target hpath hedge => h.quiet type target (hsub type hpath) hedge }

variable (h : Follows l l' path)
include h

theorem trans (h' : Follows l' l'' path) : Follows l l'' path where
  arranges := h.arranges.trans h'.arranges
  size := h'.size.trans h.size
  refers item type href hlisted := by
    refine h'.refers item type (h.refers item type href hlisted) ?_
    obtain ⟨lister, hitem⟩ := hlisted
    exact ⟨lister, by rw [h.arranges.typedItems]; exact hitem⟩
  resolved item result hresult := h'.resolved item result (h.resolved item result hresult)
  cyclic item hitem := h'.cyclic item (h.cyclic item hitem)
  quiet type target hpath hedge := h.quiet type target hpath (h'.quiet type target hpath hedge)

theorem edge {type target : SymbolId} (hedge : l.table.Edge type target) : l'.table.Edge type target := by
  obtain ⟨item, hitem, hrefers⟩ := hedge
  refine ⟨item, ?_, h.refers item target hrefers ⟨type, hitem⟩⟩
  rw [h.arranges.typedItems]
  exact hitem

/-- What has been dealt with stays dealt with. -/
theorem settles {settled settled' : SymbolId → Prop} (hsub : ∀ type, settled type → settled' type)
    {lister item : SymbolId} (hitem : item ∈ (l.table.get lister).typedItems) (hsettles : l.Settles settled item) :
    l'.Settles settled' item := by
  rcases hsettles with hcyclic | hnone | ⟨type, hsome, hrefers, htype⟩
  · exact .inl (h.cyclic item hcyclic)
  · exact .inr (.inl (h.resolved item none hnone))
  · exact .inr (.inr ⟨type, h.resolved item _ hsome, h.refers item type hrefers ⟨lister, hitem⟩, hsub type htype⟩)

end Follows

section Changes

variable {l : Linker} {base : Nat} {settled : SymbolId → Prop} {path : List SymbolId} {target : SymbolId}
  {result : Option SymbolId}

theorem Search.weaken {path' : List SymbolId} (h : l.Search base settled path) (hsub : ∀ type ∈ path, type ∈ path') :
    l.Search base settled path' :=
  { h with
    visited := fun type item target hitem hbase hrefers =>
      (h.visited type item target hitem hbase hrefers).imp_right (hsub type)
    used := fun scope type items hscope hitems => (h.used scope type items hscope hitems).imp_right (hsub type) }

section

variable (h : l.Search base settled path)
include h

/-- A listed item of the unit belongs to a type of the unit, and the other way round. -/
theorem Search.item_base {type item : SymbolId}
    (hitem : item ∈ (l.table.get type).typedItems) (htype : l.table.Reachable base type) : base ≤ item := by
  rcases htype.2 with hbase | hnone
  · exact hbase.trans ((h.formed.listed_within type item hitem).le h.formed.ordered)
  · rw [hnone] at hitem
    cases hitem

theorem Search.lister_unique {type type' item : SymbolId}
    (hitem : item ∈ (l.table.get type).typedItems) (hitem' : item ∈ (l.table.get type').typedItems) : type = type' := by
  have hlists : ∀ {lister}, item ∈ (l.table.get lister).typedItems → l.table.IsType lister := by
    intro lister hlisted
    exact kind_of_typedItems (List.ne_nil_of_mem hlisted)
  exact h.formed.type_unique (hlists hitem) (hlists hitem') (h.formed.listed_within type item hitem)
    (h.formed.listed_within type' item hitem')

theorem Search.closed {type : SymbolId} (htype : settled type) (hedge : l.table.Edge type target) : settled target := by
  obtain ⟨item, hitem, hrefers⟩ := hedge
  have hbase := h.item_base hitem (h.reachable type htype)
  have hcached := h.cached type item target hitem hbase hrefers
  rcases h.done type item htype hitem with hcyclic | hnone | ⟨found, _, hfound, hsettled⟩
  · exact absurd hrefers (h.unbound type item target hitem hcyclic)
  · rw [hcached] at hnone
    cases hnone
  · rw [hrefers.unique hfound]
    exact hsettled

/-- From a type that is neither settled nor on the path no reference leads on. -/
theorem Search.no_edge {type : SymbolId} (htype : l.table.Reachable base type)
    (hsettled : ¬ settled type) (hpath : type ∉ path) : ¬ l.table.Edge type target := by
  rintro ⟨item, hitem, hrefers⟩
  rcases h.visited type item target hitem (h.item_base hitem htype) hrefers with hvisited | hvisited
  · exact hsettled hvisited
  · exact hpath hvisited

theorem Search.closed_star {type : SymbolId} (htype : settled type)
    (hreach : ReflTransGen l.table.Edge type target) : settled target := by
  induction hreach with
  | refl => exact htype
  | tail _ hedge ih => exact h.closed ih hedge

end

/-- Looking the reference of a listed item up keeps the result, and what is kept already. -/
structure Looked (l l' : Linker) (item : SymbolId) (result : Option SymbolId) : Prop where
  table : l'.table = l.table
  cyclic : l'.cyclic = l.cyclic
  result : List.lookup item l'.resolved = some result
  resolved : ∀ other kept, List.lookup other l.resolved = some kept → List.lookup other l'.resolved = some kept
  found : ∀ other type, List.lookup other l'.resolved = some (some type) →
    List.lookup other l.resolved = some (some type) ∨ other = item ∧ (l.resolve item).1 = some type

theorem looked_resolveOnce (l : Linker) (item : SymbolId) :
    Looked l (l.resolveOnce item).2 item (l.resolveOnce item).1 := by
  unfold resolveOnce
  split
  · rename_i result hresult
    exact ⟨rfl, rfl, hresult, fun _ _ h => h, fun _ _ h => .inl h⟩
  · rename_i hnone
    obtain ⟨htable, hresolved, hcyclic⟩ := resolve_state l item
    have hlookup : ∀ other, List.lookup other ((item, (l.resolve item).1) :: (l.resolve item).2.resolved) =
        if other = item then some (l.resolve item).1 else List.lookup other l.resolved := by
      intro other
      rw [List.lookup_cons, hresolved]
      by_cases heq : other = item
      · simp [heq]
      · have hbeq : (other == item) = false := beq_eq_false_iff_ne.mpr heq
        simp only [hbeq, heq, if_false]
    refine ⟨htable, hcyclic, ?_, ?_, ?_⟩
    · simp only [hlookup, if_true]
    · intro other kept hkept
      simp only [hlookup]
      split
      · rename_i heq
        rw [heq, hnone] at hkept
        cases hkept
      · exact hkept
    · intro other type htype
      simp only [hlookup] at htype
      split at htype
      · rename_i heq
        exact .inr ⟨heq, Option.some.inj htype⟩
      · exact .inl htype

theorem Looked.follows {l' : Linker} {item : SymbolId} (h : Looked l l' item result)
    (path : List SymbolId) : Follows l l' path := by
  refine ⟨?_, ?_, ?_, h.resolved, ?_, ?_⟩
  · rw [h.table]
    exact Arranges.refl _
  · rw [h.table]
  · intro other type hrefers _
    rw [h.table]
    exact hrefers
  · intro other hother
    rw [h.cyclic]
    exact hother
  · intro type target _ hedge
    rw [h.table] at hedge
    exact hedge

theorem reference_of_resolve {item type : SymbolId} (h : (l.resolve item).1 = some type) :
    (l.table.get item).reference?.isSome = true := by
  unfold resolve at h
  simp only at h
  split at h
  · rename_i reference scope href _
    rw [href]
    rfl
  · cases h

theorem Search.looked (h : l.Search base settled path) {l' : Linker} {item : SymbolId}
    (hitem : base ≤ item) (hlooked : Looked l l' item result) : l'.Search base settled path := by
  have hfollows := hlooked.follows path
  have htable := hlooked.table
  constructor
  case formed =>
    rw [htable]
    exact h.formed
  case target_type =>
    rw [htable]
    exact h.target_type
  case acyclic =>
    rw [htable]
    exact h.acyclic
  case reachable =>
    rw [htable]
    exact h.reachable
  case done =>
    intro type other htype hother
    rw [htable] at hother
    exact hfollows.settles (fun _ hsettled => hsettled) hother (h.done type other htype hother)
  case visited =>
    rw [htable]
    exact h.visited
  case cached =>
    intro type other target hother hbase hrefers
    rw [htable] at hother hrefers
    exact hlooked.resolved other _ (h.cached type other target hother hbase hrefers)
  case unbound =>
    rw [htable, hlooked.cyclic]
    exact h.unbound
  case used =>
    rw [htable]
    exact h.used
  case found =>
    intro other type hother
    rw [htable]
    rcases hlooked.found other type hother with hfound | ⟨heq, hresolve⟩
    · exact h.found other type hfound
    · rw [heq]
      exact ⟨resolve_reachable h.formed hitem hresolve, reference_of_resolve hresolve⟩

/-- An item that closes a cycle is noted. -/
theorem Search.reportCycle (h : l.Search base settled path) {item : SymbolId} (names : List SymbolId)
    (hunbound : ∀ type, ¬ l.table.Refers item type) : (l.reportCycle names item target).Search base settled path where
  formed := h.formed
  target_type := h.target_type
  acyclic := h.acyclic
  reachable := h.reachable
  done type other htype hother := (h.done type other htype hother).imp_left fun hcyclic => List.mem_cons_of_mem _ hcyclic
  visited := h.visited
  cached := h.cached
  unbound type other found hother hcyclic := by
    rcases List.mem_cons.mp hcyclic with heq | hcyclic
    · rw [heq]
      exact hunbound found
    · exact h.unbound type other found hother hcyclic
  used := h.used
  found := h.found

section Bind

variable {item type : SymbolId} {found j lister : SymbolId} (s : Symbol) (flags : SymbolFlags)

/-- How binding changes a symbol. -/
theorem bind_table (l : Linker) (item type : SymbolId) : (l.bind item type).table = l.table.modify item fun s =>
    { s with
      type := s.type.map (DataType.bindReference type)
      flags := s.flags ∪ ((l.table.get type).flags ∩ SymbolFlags.restrictions) } := rfl

theorem bind_reference? : ({ s with type := s.type.map (DataType.bindReference type), flags } : Symbol).reference? =
      s.reference?.map fun r => { r with target := some type } := by
  unfold Symbol.reference?
  cases s.type <;> simp

theorem bind_fieldList :
    ({ s with type := s.type.map (DataType.bindReference type), flags } : Symbol).fieldList = s.fieldList := by
  unfold fieldList Symbol.fields?
  cases s.type <;> simp

theorem bind_leading? :
    ({ s with type := s.type.map (DataType.bindReference type), flags } : Symbol).leading? = s.leading? := by
  unfold Symbol.leading?
  cases s.type <;> simp

theorem bind_get_of_ne (h : j ≠ item) : (l.bind item type).table.get j = l.table.get j :=
  get_modify_of_ne _ h

theorem bind_references (j : SymbolId) : ((l.bind item type).table.get j).references = (l.table.get j).references :=
  view_modify Symbol.references rfl j

theorem arranges_bind (l : Linker) (item type : SymbolId) : l.table.Arranges (l.bind item type).table where
  owner := view_modify Symbol.owner rfl
  kind := view_modify Symbol.kind rfl
  typedItems := view_modify Symbol.typedItems rfl
  fields group field hfield := by
    have heq : ((l.bind item type).table.get group).fieldList = (l.table.get group).fieldList :=
      view_modify fieldList (bind_fieldList _ _) group
    exact .inl (heq ▸ hfield)
  types scope name found hlookup := by
    have heq : ((l.bind item type).table.get scope).types = (l.table.get scope).types :=
      view_modify Symbol.types rfl scope
    exact .inl (heq ▸ hlookup)
  referring j href := by
    rw [bind_table, get_modify] at href
    split at href
    · rw [bind_reference?, isSome_map] at href
      exact href
    · exact href
  leading j found hleading := by
    have heq : ((l.bind item type).table.get j).leading? = (l.table.get j).leading? :=
      view_modify Symbol.leading? (bind_leading? _ _) j
    exact .inl (heq ▸ hleading)

theorem refers_bind_of_ne (h : j ≠ item) : (l.bind item type).table.Refers j found ↔ l.table.Refers j found := by
  unfold Refers
  rw [bind_get_of_ne h]

theorem refers_bind_self (href : (l.table.get item).reference?.isSome = true) :
    (l.bind item type).table.Refers item type := by
  obtain ⟨reference, hreference⟩ := isSome_iff_exists.mp href
  have hlt := lt_size_of_get (·.reference? = some reference) hreference nofun
  refine ⟨{ reference with target := some type }, ?_, rfl⟩
  rw [bind_table, get_modify_self _ hlt, bind_reference?, hreference]
  rfl

theorem refers_bind_unique (h : (l.bind item type).table.Refers item found) : found = type := by
  obtain ⟨reference, href, htarget⟩ := h
  by_cases hlt : item < l.table.size
  · rw [bind_table, get_modify_self _ hlt, bind_reference?] at href
    obtain ⟨old, _, heq⟩ := map_eq_some_iff.mp href
    rw [← heq] at htarget
    exact (Option.some.inj htarget).symm
  · rw [get_of_size_le] at href
    · cases href
    · rw [bind_table, size_modify]
      exact not_lt.mp hlt

variable (h : l.Search base settled path)
include h

/-- What references were found to mean does not change by binding. -/
theorem Search.found_bind (other found : SymbolId)
    (hlookup : List.lookup other (l.bind item type).resolved = some (some found)) :
    (l.bind item type).table.Reachable base found ∧
      ((l.bind item type).table.get other).reference?.isSome = true := by
  obtain ⟨hreach, hsome⟩ := h.found other found hlookup
  have harranges := arranges_bind l item type
  refine ⟨?_, ?_⟩
  · unfold Reachable
    rw [harranges.isType, harranges.typedItems]
    exact hreach
  · rw [bind_table, get_modify]
    split
    · rw [bind_reference?, isSome_map]
      exact hsome
    · exact hsome

theorem Search.edge_bind (hitem : item ∈ (l.table.get lister).typedItems)
    {a b : SymbolId} (hedge : (l.bind item type).table.Edge a b) : l.table.Edge a b ∨ a = lister ∧ b = type := by
  obtain ⟨other, hother, hrefers⟩ := hedge
  rw [(arranges_bind l item type).typedItems] at hother
  by_cases heq : other = item
  · rw [heq] at hother hrefers
    exact .inr ⟨h.lister_unique hother hitem, refers_bind_unique hrefers⟩
  · exact .inl ⟨other, hother, (refers_bind_of_ne heq).mp hrefers⟩

/-- An item is bound. A type that lists it is open, and its reference was found to mean what it is bound to. -/
theorem Search.bind_of (htype : l.table.IsType type) (hacyclic : ∀ a, ¬ TransGen (l.bind item type).table.Edge a a)
    (hlisted : ∀ lister, item ∈ (l.table.get lister).typedItems →
      lister ∈ path ∧ List.lookup item l.resolved = some (some type) ∧ item ∉ l.cyclic) :
    (l.bind item type).Search base settled path := by
  have harranges := arranges_bind l item type
  constructor
  case formed => exact h.formed.arranges harranges
  case target_type =>
    intro other found hrefers
    rw [harranges.isType]
    by_cases heq : other = item
    · rw [heq] at hrefers
      rw [refers_bind_unique hrefers]
      exact htype
    · exact h.target_type other found ((refers_bind_of_ne heq).mp hrefers)
  case acyclic => exact hacyclic
  case reachable =>
    intro found hfound
    unfold Reachable
    rw [harranges.isType, harranges.typedItems]
    exact h.reachable found hfound
  case done =>
    intro settledType other hsettled hother
    rw [harranges.typedItems] at hother
    rcases h.done settledType other hsettled hother with hdone | hdone | ⟨found, hlookup, hrefers, hfound⟩
    · exact .inl hdone
    · exact .inr (.inl hdone)
    · refine .inr (.inr ⟨found, hlookup, ?_, hfound⟩)
      by_cases heq : other = item
      · subst heq
        obtain ⟨-, href⟩ := h.found other found hlookup
        rw [(hlisted settledType hother).2.1] at hlookup
        cases hlookup
        exact refers_bind_self href
      · exact (refers_bind_of_ne heq).mpr hrefers
  case visited =>
    intro listed other found hother hotherBase hrefers
    rw [harranges.typedItems] at hother
    by_cases heq : other = item
    · exact .inr (hlisted listed (heq ▸ hother)).1
    · exact h.visited listed other found hother hotherBase ((refers_bind_of_ne heq).mp hrefers)
  case cached =>
    intro listed other found hother hotherBase hrefers
    rw [harranges.typedItems] at hother
    by_cases heq : other = item
    · rw [heq] at hother hrefers ⊢
      rw [refers_bind_unique hrefers]
      exact (hlisted listed hother).2.1
    · exact h.cached listed other found hother hotherBase ((refers_bind_of_ne heq).mp hrefers)
  case unbound =>
    intro listed other found hother hotherCyclic hrefers
    rw [harranges.typedItems] at hother
    have heq : other ≠ item := fun heq => (hlisted listed (heq ▸ hother)).2.2 (heq ▸ hotherCyclic)
    exact h.unbound listed other found hother hotherCyclic ((refers_bind_of_ne heq).mp hrefers)
  case used =>
    intro scope found items hscope hitems
    rw [bind_references] at hitems
    exact h.used scope found items hscope hitems
  case found => exact h.found_bind

/-- A listed item is bound to what its reference was found to mean. -/
theorem Search.bind (hitem : item ∈ (l.table.get lister).typedItems) (hpath : lister ∈ path)
    (hresult : List.lookup item l.resolved = some (some type)) (hcyclic : item ∉ l.cyclic)
    (hback : l.table.Refers item type ∨ ¬ ReflTransGen l.table.Edge type lister) :
    (l.bind item type).Search base settled path := by
  refine h.bind_of (h.found item type hresult).1.1 ?_ fun listed hlisted => ?_
  · rcases hback with hrefers | hback
    · -- the item was bound already, so there is no new edge
      have hsame : ∀ a b, (l.bind item type).table.Edge a b → l.table.Edge a b := by
        intro a b hedge
        rcases h.edge_bind hitem hedge with hedge | ⟨ha, hb⟩
        · exact hedge
        · rw [ha, hb]
          exact ⟨item, hitem, hrefers⟩
      exact fun a hcycle => h.acyclic a (hcycle.lift (fun id => id) hsame)
    · exact acyclic_add_edge (fun a b hedge => h.edge_bind hitem hedge) h.acyclic hback
  · rw [h.lister_unique hlisted hitem]
    exact ⟨hpath, hresult, hcyclic⟩

theorem Search.bind_outside (hitem : ∀ lister, item ∉ (l.table.get lister).typedItems)
    (htype : l.table.IsType type) : (l.bind item type).Search base settled path := by
  have hedge : ∀ a b, (l.bind item type).table.Edge a b → l.table.Edge a b := by
    rintro a b ⟨other, hother, hbound⟩
    rw [(arranges_bind l item type).typedItems] at hother
    have hne : other ≠ item := fun heq => hitem a (heq ▸ hother)
    exact ⟨other, hother, (refers_bind_of_ne hne).mp hbound⟩
  exact h.bind_of htype (fun a hcycle => h.acyclic a (hcycle.lift (fun id => id) hedge)) fun lister hlisted =>
    absurd hlisted (hitem lister)

end Bind

section Record

variable {scope type item : SymbolId} {found : SymbolId} {items : List SymbolId}

theorem mem_listReference {references : List (SymbolId × List SymbolId)}
    (h : (found, items) ∈ listReference type item references) :
    found = type ∨ ∃ before, (found, before) ∈ references := by
  induction references with
  | nil =>
    simp only [listReference, List.mem_singleton, Prod.mk.injEq] at h
    exact .inl h.1
  | cons entry rest ih =>
    obtain ⟨key, listed⟩ := entry
    unfold listReference at h
    split at h
    · rename_i hkey
      rcases List.mem_cons.mp h with heq | hrest
      · rw [Prod.mk.injEq] at heq
        exact .inl (heq.1.trans hkey)
      · exact .inr ⟨items, List.mem_cons_of_mem _ hrest⟩
    · rcases List.mem_cons.mp h with heq | hrest
      · rw [Prod.mk.injEq] at heq
        refine .inr ⟨listed, ?_⟩
        rw [heq.1]
        exact List.mem_cons_self
      · rcases ih hrest with hfound | ⟨before, hbefore⟩
        · exact .inl hfound
        · exact .inr ⟨before, List.mem_cons_of_mem _ hbefore⟩

/-- Linking changed neither results nor bindings nor how symbols are arranged. -/
structure Untouched (l l' : Linker) : Prop where
  resolved : l'.resolved = l.resolved
  cyclic : l'.cyclic = l.cyclic
  size : l'.table.size = l.table.size
  owner : ∀ id, (l'.table.get id).owner = (l.table.get id).owner
  kind : ∀ id, (l'.table.get id).kind = (l.table.get id).kind
  typedItems : ∀ id, (l'.table.get id).typedItems = (l.table.get id).typedItems
  fields : ∀ id, (l'.table.get id).fieldList = (l.table.get id).fieldList
  types : ∀ id, (l'.table.get id).types = (l.table.get id).types
  reference : ∀ id, (l'.table.get id).reference? = (l.table.get id).reference?
  leading : ∀ id, (l'.table.get id).leading? = (l.table.get id).leading?

/-- Listing an item in a scope touches nothing but the references of the scope. -/
theorem untouched_record (l : Linker) (scope type item : SymbolId) : Untouched l (l.record scope type item).2 := by
  unfold record
  split
  · exact ⟨rfl, rfl, rfl, fun _ => rfl, fun _ => rfl, fun _ => rfl, fun _ => rfl, fun _ => rfl, fun _ => rfl,
      fun _ => rfl⟩
  · refine ⟨rfl, rfl, size_modify _ _ _, ?_, ?_, ?_, ?_, ?_, ?_, ?_⟩
    · exact view_modify Symbol.owner (mapProgram_owner _ _)
    · exact view_modify Symbol.kind (mapProgram_kind _ _)
    · refine view_modify Symbol.typedItems ?_
      simp [Symbol.typedItems]
    · refine view_modify fieldList ?_
      simp [fieldList, Symbol.fields?]
    · refine view_modify Symbol.types ?_
      exact mapProgram_types fun _ => rfl
    · refine view_modify Symbol.reference? ?_
      simp [Symbol.reference?]
    · refine view_modify Symbol.leading? ?_
      simp [Symbol.leading?]

theorem references_record {id : SymbolId}
    (h : (found, items) ∈ ((l.record scope type item).2.table.get id).references) :
    found = type ∨ ∃ before, (found, before) ∈ (l.table.get id).references := by
  unfold record at h
  split at h
  · exact .inr ⟨items, h⟩
  · rename_i data hdata
    have hget := get_modify l.table scope (Symbol.mapProgram fun data =>
      { data with references := listReference type item data.references }) id
    have hitems : (found, items) ∈ ((l.table.modify scope (Symbol.mapProgram fun data =>
      { data with references := listReference type item data.references })).get id).references := h
    rw [hget] at hitems
    split at hitems
    · rename_i hid
      rw [hid.1] at hitems ⊢
      simp only [Symbol.references, mapProgram_program?, hdata, map_some, getD_some] at hitems ⊢
      exact mem_listReference hitems
    · exact .inr ⟨items, hitems⟩

/-- A type that is not used for the first time in a scope is among its references. -/
theorem mem_references_of_record (h : (l.record scope type item).1 = false) :
    (l.table.get scope).kind.isProgramLike = true ∧ ∃ items, (type, items) ∈ (l.table.get scope).references := by
  unfold record at h
  split at h
  · cases h
  · rename_i data hdata
    refine ⟨?_, ?_⟩
    · rw [← isSome_program?, hdata]
      rfl
    · cases hlookup : List.lookup type data.references with
      | none => simp [hlookup] at h
      | some items =>
        refine ⟨items, ?_⟩
        have hmem : (type, items) ∈ data.references := by
          obtain ⟨before, after, heq, _⟩ := List.lookup_eq_some_iff.mp hlookup
          rw [heq]
          exact List.mem_append_right before List.mem_cons_self
        simpa [Symbol.references, hdata] using hmem

namespace Untouched

variable {l' : Linker}

section

variable (h : Untouched l l')
include h

theorem arranges : l.table.Arranges l'.table where
  owner := h.owner
  kind := h.kind
  typedItems := h.typedItems
  fields group _ hfield := .inl (h.fields group ▸ hfield)
  types found _ _ hlookup := .inl (h.types found ▸ hlookup)
  referring id href := h.reference id ▸ href
  leading id _ hleading := .inl (h.leading id ▸ hleading)

theorem refers : l'.table.Refers = l.table.Refers := by
  funext id found
  unfold Refers
  rw [h.reference id]

theorem edge : l'.table.Edge = l.table.Edge := by
  funext a b
  unfold Edge
  rw [h.typedItems, h.refers]

theorem follows (path : List SymbolId) : Follows l l' path where
  arranges := h.arranges
  size := h.size
  refers id found hrefers _ := by rwa [h.refers]
  resolved id result hresult := by rwa [h.resolved]
  cyclic id hid := by rwa [h.cyclic]
  quiet a b _ hedge := by rwa [h.edge] at hedge

end

theorem search (huntouched : Untouched l l') (h : l.Search base settled path)
    (hused : ∀ scope type items, base ≤ scope → (type, items) ∈ (l'.table.get scope).references →
      settled type ∨ type ∈ path) : l'.Search base settled path := by
  have harranges := huntouched.arranges
  have hreachable : ∀ found, l'.table.Reachable base found ↔ l.table.Reachable base found := by
    intro found
    unfold Reachable
    rw [harranges.isType, harranges.typedItems]
  constructor
  case formed => exact h.formed.arranges harranges
  case target_type => simpa only [huntouched.refers, harranges.isType] using h.target_type
  case acyclic => simpa only [huntouched.edge] using h.acyclic
  case reachable => exact fun found hfound => (hreachable found).mpr (h.reachable found hfound)
  case done =>
    intro found other hfound hother
    rw [harranges.typedItems] at hother
    exact (huntouched.follows path).settles (fun _ hsettled => hsettled) hother (h.done found other hfound hother)
  case visited => simpa only [huntouched.refers, harranges.typedItems] using h.visited
  case cached => simpa only [huntouched.refers, harranges.typedItems, huntouched.resolved] using h.cached
  case unbound => simpa only [huntouched.refers, harranges.typedItems, huntouched.cyclic] using h.unbound
  case used => exact hused
  case found =>
    intro id found hlookup
    rw [huntouched.resolved] at hlookup
    obtain ⟨hreach, hsome⟩ := h.found id found hlookup
    exact ⟨(hreachable found).mpr hreach, huntouched.reference id ▸ hsome⟩

end Untouched

theorem Search.record (h : l.Search base settled path) (htype : settled type ∨ type ∈ path) (scope item : SymbolId) :
    (l.record scope type item).2.Search base settled path := by
  refine (untouched_record l scope type item).search h fun other found items hother hitems => ?_
  rcases references_record hitems with hfound | ⟨before, hbefore⟩
  · rw [hfound]
    exact htype
  · exact h.used other found before hother hbefore

/-- A type that is not used for the first time in a scope, and is not on the path, is settled. -/
theorem Search.settled_of_record (h : l.Search base settled path) (hscope : base ≤ scope ∨ scope = rootId)
    (hfirst : (l.record scope type item).1 = false) (hpath : type ∉ path) : settled type := by
  obtain ⟨hprog, items, hitems⟩ := mem_references_of_record hfirst
  have hbase : base ≤ scope := by
    rcases hscope with hbase | hroot
    · exact hbase
    · have hkind := (h.formed.root scope).mpr hroot
      rcases hkind with hkind | hkind <;> rw [hkind] at hprog <;> cases hprog
  rcases h.used scope type items hbase hitems with hsettled | hmem
  · exact hsettled
  · exact absurd hmem hpath

end Record

end Changes

end Linker

end CobolSymbols
