import CobolSymbols.Build.Redefines
import CobolSymbols.Proofs.Symbol.Renaming
import CobolSymbols.Proofs.Table.Owners
import Mathlib.Data.List.Basic

/-!
# Tables under other numbers

A table is like another one when its symbols are found in the other one under other numbers, and new symbols get numbers
that go with each other. Changes of symbols that are alike leave tables alike, and names mean the same symbols in both.

The other table may hold more symbols, so that searches along owners have more steps there. An owner comes before what
it owns, so that the steps are never used up.
-/

set_option autoImplicit false

namespace CobolSymbols

open List Option Scope

/-- The symbols of a table are found in another one under other numbers. -/
structure Table.Alike (ρ : SymbolId → SymbolId) (t t' : Table) : Prop where
  injective : Function.Injective ρ
  root : ρ Table.rootId = Table.rootId
  size_le : t.size ≤ t'.size
  /-- New symbols get numbers that go with each other. -/
  next : ∀ k, ρ (t.size + k) = t'.size + k
  lt : ∀ id, id < t.size → ρ id < t'.size
  get : ∀ id, (t.get id).Alike ρ (t'.get (ρ id))

namespace Table

variable {ρ : SymbolId → SymbolId} {t t' : Table}

theorem Alike.lt_iff (h : t.Alike ρ t') (id : SymbolId) : ρ id < t'.size ↔ id < t.size := by
  refine ⟨fun hlt => Nat.lt_of_not_le fun hge => ?_, h.lt id⟩
  obtain ⟨k, hk⟩ := Nat.exists_eq_add_of_le hge
  rw [hk, h.next] at hlt
  exact (Nat.le_add_right _ _).not_gt hlt

theorem Alike.name (h : t.Alike ρ t') (id : SymbolId) : t'.name (ρ id) = t.name id := (h.get id).name

section Changing

variable (h : t.Alike ρ t')
include h

theorem Alike.modify {id : SymbolId} {f f' : Symbol → Symbol}
    (hf : (f (t.get id)).Alike ρ (f' (t'.get (ρ id)))) : (t.modify id f).Alike ρ (t'.modify (ρ id) f') where
  injective := h.injective
  root := h.root
  size_le := by simpa using h.size_le
  next := by simpa using h.next
  lt := by simpa using h.lt
  get j := by
    rw [get_modify, get_modify]
    by_cases hj : j = id ∧ j < t.size
    · rw [if_pos hj, if_pos ⟨congrArg ρ hj.1, h.lt j hj.2⟩, hj.1]
      exact hf
    · rw [if_neg hj, if_neg fun hj' => hj ⟨h.injective hj'.1, (h.lt_iff j).mp hj'.2⟩]
      exact h.get j

theorem Alike.alloc {s s' : Symbol} (hs : s.Alike ρ s') : (t.alloc s).2.Alike ρ (t'.alloc s').2 where
  injective := h.injective
  root := h.root
  size_le := by
    rw [size_alloc, size_alloc]
    exact Nat.succ_le_succ h.size_le
  next k := by
    have hnext := h.next (1 + k)
    rw [size_alloc, size_alloc, Nat.add_assoc, Nat.add_assoc]
    exact hnext
  lt id hid := by
    rw [size_alloc] at hid ⊢
    rcases Nat.lt_succ_iff_lt_or_eq.mp hid with hlt | heq
    · exact Nat.lt_succ_of_lt (h.lt id hlt)
    · rw [heq]
      exact Nat.lt_succ_of_le (h.next 0).le
  get j := by
    have hnext : ρ t.size = t'.size := h.next 0
    rw [get_alloc, get_alloc]
    by_cases hj : j = t.size
    · rw [if_pos hj, if_pos (hj ▸ hnext)]
      exact hs
    · rw [if_neg hj, if_neg fun hj' => hj (h.injective (hj'.trans hnext.symm))]
      exact h.get j

/-- A change of what is no symbol. -/
theorem Alike.congr {u u' : Table} (hsymbols : u.symbols = t.symbols)
    (hsymbols' : u'.symbols = t'.symbols) : u.Alike ρ u' := by
  have hget : u.get = t.get := by
    funext id
    simp only [Table.get, hsymbols]
  have hget' : u'.get = t'.get := by
    funext id
    simp only [Table.get, hsymbols']
  have hsize : u.size = t.size := congrArg Array.size hsymbols
  have hsize' : u'.size = t'.size := congrArg Array.size hsymbols'
  exact ⟨h.injective, h.root, by rw [hsize, hsize']; exact h.size_le, by rw [hsize, hsize']; exact h.next,
    by rw [hsize, hsize']; exact h.lt, by rw [hget, hget']; exact h.get⟩

theorem Alike.enter (ref : ScopeRef) (id : SymbolId) : (t.enter ref id).Alike ρ (t'.enter (ref.rename ρ) (ρ id)) := by
  have hentered : ∀ scope : Scope SymbolId, (scope.map ρ).enter (t'.name (ρ id)) (ρ id) =
      (scope.enter (t.name id) id).map ρ := by
    intro scope
    rw [h.name, map_enter]
  cases ref with
  | slot owner slot =>
    have hsome := (h.get owner).isSome_scope? slot
    rw [ScopeRef.rename, enter_slot, enter_slot]
    cases hscope : (t.get owner).scope? slot with
    | none =>
      rw [hscope, isSome_none, isSome_eq_false_iff, isNone_iff_eq_none] at hsome
      rw [hsome]
      exact h
    | some scope =>
      rw [hscope, isSome_some, isSome_iff_exists] at hsome
      obtain ⟨scope', hscope'⟩ := hsome
      rw [hscope']
      exact h.modify ((h.get owner).modifyScope slot hentered)
  | fields owner =>
    rw [ScopeRef.rename, enter_fields, enter_fields]
    exact h.modify ((h.get owner).mapType (DataType.mapFields_rename ρ hentered))

theorem Alike.addToDomain (program id : SymbolId) :
    (t.addToDomain program id).Alike ρ (t'.addToDomain (ρ program) (ρ id)) := by
  refine h.modify ((h.get program).mapProgram fun data => ?_)
  simp only [ProgramData.rename, Domain.map_enter, h.name]

theorem Alike.registerProgram (id id' : SymbolId) :
    (t.registerProgram id).Alike ρ (t'.registerProgram id') := h.congr rfl rfl

theorem Alike.registerType (id id' : SymbolId) : (t.registerType id).Alike ρ (t'.registerType id') := h.congr rfl rfl

theorem Alike.addVariable (id : SymbolId) : (t.addVariable id).2.Alike ρ (t'.addVariable (ρ id)).2 := by
  have hstored : ∀ index index' : Nat,
      (t.modify id (Symbol.mapItem fun data => { data with variableSlot := some index })).Alike ρ
        (t'.modify (ρ id) (Symbol.mapItem fun data => { data with variableSlot := some index' })) := by
    intro index index'
    exact h.modify ((h.get id).mapItem fun data data' hdata => ⟨hdata.level, hdata.value, hdata.kind, rfl⟩)
  exact (hstored (t.slots.insert id).1 (t'.slots.insert (ρ id)).1).congr rfl rfl

end Changing

section Reading

section

variable (h : t.Alike ρ t')
include h

theorem Alike.scope? {ref : ScopeRef}
    (href : ∀ owner slot, ref = .slot owner slot → slot ≠ .programs ∧ slot ≠ .namespaces ∨ (t.get owner).kind ≠ .root) :
    t'.scope? (ref.rename ρ) = (t.scope? ref).map (Scope.map ρ) := by
  cases ref with
  | slot owner slot => exact (h.get owner).scope? slot (href owner slot rfl)
  | fields owner => exact (h.get owner).fields?

theorem Alike.chainFrom (steps : Nat) (start : Option SymbolId) :
    t'.chainFrom steps (start.map ρ) = (t.chainFrom steps start).map ρ := by
  induction steps generalizing start with
  | zero => rfl
  | succ steps ih =>
    cases start with
    | none => rfl
    | some id =>
      rw [map_some, Table.chainFrom, Table.chainFrom, (h.get id).owner, ih]
      rfl

variable (ht : t.Ordered)
include ht

theorem Alike.owners (id : SymbolId) : t'.owners (ρ id) = (t.owners id).map ρ := by
  unfold Table.owners
  rw [(h.get id).owner, h.chainFrom]
  cases howner : (t.get id).owner with
  | none => cases t.size <;> cases t'.size <;> rfl
  | some owner =>
    have hlt : owner < t.size := (ht id owner howner).trans (OwnedBy.lt_size howner)
    rw [chainFrom_eq ht hlt (hlt.trans_le h.size_le)]

theorem Alike.chain {id : SymbolId} (hid : id < t.size) : t'.chain (ρ id) = (t.chain id).map ρ := by
  have hchain := h.chainFrom t'.size (some id)
  rw [chainFrom_eq ht (hid.trans_le h.size_le) hid] at hchain
  exact hchain

theorem Alike.enclosingScope (id : SymbolId) : t'.enclosingScope (ρ id) = (t.enclosingScope id).map ρ := by
  unfold Table.enclosingScope
  rw [h.owners ht, find?_map]
  congr 2
  funext owner
  exact (h.get owner).isScope

theorem Alike.topLevelItem (id : SymbolId) : t'.topLevelItem (ρ id) = ρ (t.topLevelItem id) := by
  have hitem : (fun owner => (t'.get owner).item?.isSome) ∘ ρ = fun owner => (t.get owner).item?.isSome := by
    funext owner
    exact (h.get owner).isSome_item?
  unfold Table.topLevelItem
  rw [h.owners ht, takeWhile_map, hitem, getLast?_map]
  cases ((t.owners id).takeWhile fun owner => (t.get owner).item?.isSome).getLast? <;> rfl

end

/-- A test of symbols that are alike passes the same ones. -/
theorem filter_map_of_eq {p p' : SymbolId → Bool} (h : ∀ id, p' (ρ id) = p id) (ids : List SymbolId) :
    (ids.map ρ).filter p' = (ids.filter p).map ρ := by
  rw [List.filter_map]
  congr 2
  funext id
  exact h id

variable (h : t.Alike ρ t')
include h

theorem Alike.typesIn (name : String) (left : Bool) (id : SymbolId) :
    t'.typesIn name left (ρ id) = (t.typesIn name left id).map ρ := by
  have hbody := (h.get id).body
  have hvisible : ∀ type, (!left || (t'.get (ρ type)).flags.meets SymbolFlags.visibility) =
      (!left || (t.get type).flags.meets SymbolFlags.visibility) := by
    intro type
    rw [(h.get type).flags]
  unfold Table.typesIn
  generalize (t.get id).body = body at hbody
  generalize (t'.get (ρ id)).body = body' at hbody
  cases hbody with
  | root htypes =>
    simp only [htypes]
    exact lookup_map ρ _ name
  | program data | procedure data =>
    have hlookup : (data.rename ρ).scopes.types.lookup name = (data.scopes.types.lookup name).map ρ :=
      lookup_map ρ _ name
    simp only [hlookup]
    exact filter_map_of_eq hvisible _
  | _ => rfl

theorem Alike.resolveTypeIn (name : String) (left : Bool) (chain : List SymbolId) :
    t'.resolveTypeIn name left (chain.map ρ) = (t.resolveTypeIn name left chain).map ρ := by
  induction chain generalizing left with
  | nil => rfl
  | cons id outer ih =>
    rw [map_cons, Table.resolveTypeIn, Table.resolveTypeIn, h.typesIn, (h.get id).kind, ih]
    cases t.typesIn name left id <;> rfl

theorem Alike.resolveType (ht : t.Ordered) {scope : SymbolId} (hscope : scope < t.size)
    (name : String) : t'.resolveType (ρ scope) name = (t.resolveType scope name).map ρ := by
  unfold Table.resolveType
  rw [h.chain ht hscope, h.resolveTypeIn]

theorem Alike.resolveItemIn (name : String) (outside : Bool) (chain : List SymbolId) :
    t'.resolveItemIn name outside (chain.map ρ) = (t.resolveItemIn name outside chain).map ρ := by
  induction chain generalizing outside with
  | nil => rfl
  | cons id outer ih =>
    have hglobal : ∀ item, (!outside || (t'.get (ρ item)).flags.meets globalFlags) =
        (!outside || (t.get item).flags.meets globalFlags) := by
      intro item
      rw [(h.get item).flags]
    rw [map_cons, Table.resolveItemIn, Table.resolveItemIn, (h.get id).program?]
    cases (t.get id).program? with
    | none => exact ih outside
    | some data =>
      have hlookup : (data.rename ρ).domain.lookup name = (data.domain.lookup name).map ρ :=
        Domain.lookup_map ρ data.domain name
      have hfound : ((data.domain.lookup name).map ρ).filter (fun item => !outside || (t'.get item).flags.meets globalFlags) =
          ((data.domain.lookup name).filter fun item => !outside || (t.get item).flags.meets globalFlags).map ρ :=
        filter_map_of_eq hglobal (data.domain.lookup name)
      simp only [map_some, hlookup, hfound, ih]
      cases (data.domain.lookup name).filter fun item => !outside || (t.get item).flags.meets globalFlags <;> rfl

theorem Alike.resolveItem (ht : t.Ordered) {scope : SymbolId} (hscope : scope < t.size)
    (name : String) : t'.resolveItem (ρ scope) name = (t.resolveItem scope name).map ρ := by
  unfold Table.resolveItem
  rw [h.chain ht hscope, h.resolveItemIn]

end Reading

section Redefines

/-- Membership does not depend on numbers. -/
theorem contains_map (h : Function.Injective ρ) (ids : List SymbolId) (id : SymbolId) :
    (ids.map ρ).contains (ρ id) = ids.contains id := by
  rw [Bool.eq_iff_iff, contains_iff_mem, contains_iff_mem, List.mem_map_of_injective h]

variable (h : t.Alike ρ t')
include h

theorem Alike.isPassedOver (id : SymbolId) : t'.isPassedOver (ρ id) = t.isPassedOver id := by
  simp only [Table.isPassedOver, (h.get id).kind, (h.get id).level?]

theorem Alike.isRedefining (id : SymbolId) : t'.isRedefining (ρ id) = t.isRedefining id := by
  simp only [Table.isRedefining, (h.get id).flags]

theorem Alike.siblingsBackwards (scope : Scope SymbolId) :
    t'.siblingsBackwards (scope.map ρ) = (t.siblingsBackwards scope).map ρ := by
  unfold Table.siblingsBackwards
  rw [order_map, ← map_reverse]
  refine filter_map_of_eq (fun id => ?_) _
  rw [h.isPassedOver]

theorem Alike.redefined {parent : ScopeRef}
    (hparent : ∀ owner slot, parent = .slot owner slot →
      slot ≠ .programs ∧ slot ≠ .namespaces ∨ (t.get owner).kind ≠ .root) (level : Level) (name : String) :
    t'.redefined (parent.rename ρ) level name = (t.redefined parent level name).map ρ := by
  have hredefining : t'.isRedefining ∘ ρ = t.isRedefining := funext h.isRedefining
  unfold Table.redefined
  rw [h.scope? hparent]
  cases t.scope? parent with
  | none => rfl
  | some scope =>
    simp only [map_some, lookup_map]
    cases scope.lookup name with
    | nil => rfl
    | cons candidate others =>
      have hcontains : ∀ id, (ρ candidate :: others.map ρ).contains (ρ id) = (candidate :: others).contains id :=
        contains_map h.injective (candidate :: others)
      simp only [map_cons, h.siblingsBackwards, dropWhile_map, takeWhile_map, hredefining,
        head?_map]
      have hpreceding : (((t.siblingsBackwards scope).dropWhile t.isRedefining).head?.map ρ).filter
          (ρ candidate :: others.map ρ).contains =
          (((t.siblingsBackwards scope).dropWhile t.isRedefining).head?.filter (candidate :: others).contains).map ρ := by
        cases ((t.siblingsBackwards scope).dropWhile t.isRedefining).head? with
        | none => rfl
        | some id =>
          simp only [map_some, filter_some, hcontains]
          split <;> rfl
      rw [hpreceding]
      cases ((t.siblingsBackwards scope).dropWhile t.isRedefining).head?.filter (candidate :: others).contains with
      | some preceding =>
        simp only [map_some, (h.get preceding).level?]
        split <;> rfl
      | none =>
        simp only [map_none, contains_map h.injective]
        cases others with
        | nil =>
          simp only [map_nil, isEmpty_nil]
          split
          · rfl
          · split <;> rfl
        | cons other rest => rfl

end Redefines

end Table

end CobolSymbols
