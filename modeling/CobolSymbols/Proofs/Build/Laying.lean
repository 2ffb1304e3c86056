import CobolSymbols.Proofs.Build.Stamps

/-!
# The marks of new items

The items of a record are marked alike: those outside of types carry the flag of the storage section being read, those in
types no such flag. An index carries the marks of its item, and no item of GLOBAL-STORAGE is marked as global. All new
items outside of types become items of the current program. `Lays` says this of everything that declares data.
-/

set_option autoImplicit false

namespace CobolSymbols

open FlagSet Symbol Table SymbolKind

namespace Table

/-- The marks of a data item: the flag of its storage section, if it has one, and GLOBAL only outside of
GLOBAL-STORAGE. -/
structure Marked (t : Table) (origin : Option StorageSection) (v : SymbolId) : Prop where
  item : t.IsItem v
  flags : ∀ s : StorageSection, (t.get v).flags.has s.flag = decide (origin = some s)
  apart : (t.get v).flags.has .globalStorage = true → (t.get v).flags.has .global = false

/-- A symbol that can own items of a storage section: a program or procedure, or an item of the section that is no
index. -/
def Hosts (t : Table) (origin : Option StorageSection) (owner : SymbolId) : Prop :=
  (t.get owner).kind.isProgramLike = true ∧ (t.get owner).flags.has .global = false ∨
    t.Marked origin owner ∧ (t.get owner).indexed? = none

/-- A symbol is an index of an item, next to it and with its marks. -/
structure IndexOf (t : Table) (v indexed : SymbolId) : Prop where
  lt : indexed < v
  item : t.IsItem indexed
  plain : (t.get indexed).indexed? = none
  owner : (t.get v).owner = (t.get indexed).owner
  marks : ∀ f : SymbolFlag, f.isMark = true → (t.get v).flags.has f = (t.get indexed).flags.has f

/-- A data item of a storage section, or of none, that is in order. -/
structure Laid (t : Table) (origin : Option StorageSection) (v : SymbolId) : Prop extends Marked t origin v where
  /-- Outside of sections only types are global by themselves. -/
  bare : origin = none → ¬ t.IsType v → (t.get v).flags.has .global = true →
    ∃ owner, t.OwnedBy v owner ∧ (t.get owner).flags.has .global = true
  index : ∀ indexed, (t.get v).indexed? = some indexed → t.IndexOf v indexed
  owner : ∃ owner, t.OwnedBy v owner ∧ owner < v ∧ t.Hosts origin owner

section Keep

variable {t t' : Table} {origin : Option StorageSection} {v : SymbolId}

theorem Marked.keep (h : t.Marked origin v) (hsame : t.SameStamp t' v) : t'.Marked origin v where
  item := hsame.isItem_iff.mpr h.item
  flags s := (hsame.has s.isMark_flag).trans (h.flags s)
  apart := by
    rw [hsame.has rfl, hsame.has rfl]
    exact h.apart

theorem Hosts.keep (h : t.Hosts origin v) (hsame : t.SameStamp t' v) : t'.Hosts origin v := by
  unfold Hosts
  rw [hsame.kind, hsame.indexed?, hsame.has rfl]
  exact h.imp_right fun h => ⟨h.1.keep hsame, h.2⟩

theorem Hosts.lt_size (h : t.Hosts origin v) : v < t.size := by
  rcases h with ⟨hkind, _⟩ | ⟨hmarked, _⟩
  · exact lt_size_of_isProgramLike hkind
  · exact hmarked.item.lt_size

theorem IndexOf.keep {indexed : SymbolId} (h : t.IndexOf v indexed) (hsame : t.SameStamp t' v)
    (hitem : t.SameStamp t' indexed) : t'.IndexOf v indexed where
  lt := h.lt
  item := hitem.isItem_iff.mpr h.item
  plain := hitem.indexed?.trans h.plain
  owner := by rw [hsame.owner, hitem.owner, h.owner]
  marks f hf := by rw [hsame.has hf, hitem.has hf, h.marks f hf]

/-- An item stays in order as long as no stamp changes. -/
theorem Laid.keep (h : t.Laid origin v) (hsame : ∀ id, id < t.size → t.SameStamp t' id) : t'.Laid origin v := by
  have hv := h.item.lt_size
  obtain ⟨owner, hown, hlt, hhosts⟩ := h.owner
  refine ⟨h.toMarked.keep (hsame v hv), fun horigin htype hglobal => ?_, fun item hitem => ?_, owner, ?_, hlt, ?_⟩
  · rw [(hsame v hv).isType_iff] at htype
    rw [(hsame v hv).has rfl] at hglobal
    obtain ⟨other, hother, hglobal⟩ := h.bare horigin htype hglobal
    obtain rfl := hown.unique hother
    refine ⟨owner, (hsame v hv).ownedBy_iff.mpr hown, ?_⟩
    rw [(hsame owner hhosts.lt_size).has rfl]
    exact hglobal
  · rw [(hsame v hv).indexed?] at hitem
    have hindex := h.index item hitem
    exact hindex.keep (hsame v hv) (hsame item hindex.item.lt_size)
  · exact (hsame v hv).ownedBy_iff.mpr hown
  · exact hhosts.keep (hsame owner hhosts.lt_size)

end Keep

end Table

namespace Declarations

variable {d d' d'' : Declarations} {scope owner id : SymbolId} {place : Placement}

/-- The storage section of the items made at a place. -/
def sectionOf (d : Declarations) (place : Placement) : Option StorageSection :=
  if place.typeBody.isSome then none else d.storage

theorem sectionOf_of_mode (h : d'.mode = d.mode) (place : Placement) : d'.sectionOf place = d.sectionOf place := by
  unfold sectionOf
  rw [storage_of_mode h]

theorem originOf_eq (d : Declarations) (place : Placement) {kind : SymbolKind} (h : kind ≠ .typeDefinition) :
    d.originOf place kind = d.sectionOf place := by
  unfold originOf sectionOf
  cases place.typeBody <;> simp [h]

section Marks

theorem has_global_origin (origin : Option StorageSection) :
    (FlagSet.ofList (origin.toList.map StorageSection.flag)).has SymbolFlag.global = false := by
  cases origin with
  | none => simp
  | some kept => cases kept <;> simp [SymbolFlag.has_single, StorageSection.flag]

/-- When a data symbol is marked as global: with clauses, outside of GLOBAL-STORAGE when it has a GLOBAL clause or its
owner is global; without clauses, when its owner is a global item. -/
theorem has_global_placeFlags (howner : d.ownerOf place = some owner) (entry : Option DataEntry) (kind : SymbolKind) :
    (d.placeFlags entry place kind).has .global =
      match entry with
      | none => !(d.table.get owner).isScope && (d.table.get owner).flags.has .global
      | some entry => (entry.isGlobal || (d.table.get owner).flags.has .global) &&
          (d.originOf place kind).any (· != .globalStorage) := by
  have hbody : (FlagSet.single SymbolFlag.inTypeBody).has .global = false := by decide
  have hself : (FlagSet.single SymbolFlag.global).has .global = true := by decide
  have hvisible : SymbolFlags.visibility.has .global = true := by decide
  have hseen : (FlagSet.ofList [SymbolFlag.exported, .hidden]).has .global = false := by decide
  unfold placeFlags
  simp only [howner, Option.map_some, Option.getD_some, Option.any_some, has_insertIf, hbody, Bool.and_false,
    Bool.or_false]
  cases entry with
  | none =>
    simp only
    split
    · rename_i hscope
      simp only [has_union, has_inter, has_global_origin, hvisible, hscope, Bool.false_or, Bool.true_and,
        Bool.and_true]
    · rename_i hscope
      rw [Bool.not_eq_true] at hscope
      rw [has_global_origin, hscope, Bool.false_and]
  | some entry =>
    have hclauses : (clauseFlags entry).has .global = false := has_clauseFlags (by decide) entry
    simp only [has_union, hclauses, Bool.or_false]
    split <;> simp only [has_union, has_inter, has_insertIf, has_global_origin, hself, hseen,
      Bool.and_false, Bool.or_false, Bool.false_or, Bool.and_true]

theorem has_global_placed (entry : Option DataEntry) (place : Placement) (s : Symbol) :
    (d.placed entry place s).flags.has .global =
      (s.flags.has .global || (d.placeFlags entry place s.kind).has .global) := has_union _ _ _

theorem has_origin_placed (entry : Option DataEntry) (place : Placement) {s : Symbol} (h : s.flags.Neutral)
    (kept : StorageSection) :
    (d.placed entry place s).flags.has kept.flag = decide (d.originOf place s.kind = some kept) := by
  have hflags : (d.placed entry place s).flags = s.flags ∪ d.placeFlags entry place s.kind := rfl
  rw [hflags, has_union, h _ kept.tellsPlace_flag, Bool.false_or, has_placeFlags d _ _ _ (not_mem_placeMarks kept.tellsPlace_flag),
    has_origin]

end Marks

/-- What data is declared on: the current program, and an owner that can have items of the storage section. -/
structure Ground (d : Declarations) (scope owner : SymbolId) (place : Placement) : Prop where
  current : d.currentScope = some scope
  program : (d.table.get scope).kind.isProgramLike = true
  owner_eq : d.ownerOf place = some owner
  hosts : d.table.Hosts (d.sectionOf place) owner
  slots : ∀ p slot, place.parent = some (.slot p slot) → p = scope ∧ slot ≠ .namespaces

theorem Ground.stamped (h : d.Ground scope owner place) (hstamped : Stamped d d') : d'.Ground scope owner place := by
  have hcurrent := currentScope_of_mode hstamped.mode
  have hscope : scope < d.table.size := lt_size_of_isProgramLike h.program
  refine ⟨hcurrent.trans h.current, ?_, ?_, ?_, h.slots⟩
  · rw [(hstamped.stamp scope hscope).kind]
    exact h.program
  · have howner := h.owner_eq
    unfold ownerOf at howner ⊢
    rw [hcurrent]
    exact howner
  · rw [sectionOf_of_mode hstamped.mode]
    exact h.hosts.keep (hstamped.stamp owner h.hosts.lt_size)

/-- A symbol is made between two states. -/
def New (d d' : Declarations) (v : SymbolId) : Prop := d.table.size ≤ v ∧ v < d'.table.size

/-- What declaring data at a place does: all new symbols are items in order, owned by the owner or by each other; outside
of types they become items of the current program; only they are listed, and only in the scope of the place. -/
structure Lays (scope owner : SymbolId) (place : Placement) (d d' : Declarations) : Prop extends Stamped d d' where
  laid : ∀ v, New d d' v → d'.table.Laid (d.sectionOf place) v
  owned : ∀ v o, d.table.size ≤ v → d'.table.OwnedBy v o → o = owner ∨ d.table.size ≤ o
  bearers : ∀ p name v, v ∈ d'.table.bearers p name ↔ v ∈ d.table.bearers p name ∨
    place.typeBody = none ∧ p = scope ∧ New d d' v ∧ (d'.table.get v).name = name
  listed : ∀ p slot v, v ∈ d'.table.listed p slot ↔
    v ∈ d.table.listed p slot ∨ place.parent = some (.slot p slot) ∧ New d d' v ∧ d'.table.OwnedBy v owner
  types : ∀ v, New d d' v → d'.table.IsType v → place.typeBody = some v

section Lays

variable {s : Symbol}

theorem Quiet.lays (h : Quiet d d') (scope owner : SymbolId) (place : Placement) : Lays scope owner place d d' where
  toStamped := h.stamped
  laid v hv := absurd hv.2 (h.size_eq ▸ hv.1).not_gt
  owned v o hv hown := absurd hown.lt_size (h.size_eq ▸ hv).not_gt
  bearers p name v := by
    rw [h.bearers]
    refine ⟨.inl, fun hv => hv.elim id fun hv => ?_⟩
    exact absurd hv.2.2.1.2 (h.size_eq ▸ hv.2.2.1.1).not_gt
  listed p slot v := by
    rw [h.listed]
    refine ⟨.inl, fun hv => hv.elim id fun hv => ?_⟩
    exact absurd hv.2.1.2 (h.size_eq ▸ hv.2.1.1).not_gt
  types v hv _ := absurd hv.2 (h.size_eq ▸ hv.1).not_gt

theorem Lays.trans (h : Lays scope owner place d d') (h' : Lays scope owner place d' d'') :
    Lays scope owner place d d'' where
  toStamped := h.toStamped.trans h'.toStamped
  laid v hv := by
    by_cases hnew : d'.table.size ≤ v
    · rw [← sectionOf_of_mode h.mode]
      exact h'.laid v ⟨hnew, hv.2⟩
    · exact (h.laid v ⟨hv.1, not_le.mp hnew⟩).keep h'.stamp
  owned v o hv hown := by
    by_cases hnew : d'.table.size ≤ v
    · exact (h'.owned v o hnew hown).imp_right h.size_le.trans
    · have hsame := h'.stamp v (not_le.mp hnew)
      exact h.owned v o hv (hsame.ownedBy_iff.mp hown)
  bearers p name v := by
    rw [h'.bearers, h.bearers, or_assoc]
    refine or_congr_right ?_
    constructor
    · rintro (⟨hbody, hp, hv, hname⟩ | ⟨hbody, hp, hv, hname⟩)
      · exact ⟨hbody, hp, ⟨hv.1, hv.2.trans_le h'.size_le⟩, (h'.stamp v hv.2).name.trans hname⟩
      · exact ⟨hbody, hp, ⟨h.size_le.trans hv.1, hv.2⟩, hname⟩
    · rintro ⟨hbody, hp, hv, hname⟩
      by_cases hnew : d'.table.size ≤ v
      · exact .inr ⟨hbody, hp, ⟨hnew, hv.2⟩, hname⟩
      · have hlt := not_le.mp hnew
        exact .inl ⟨hbody, hp, ⟨hv.1, hlt⟩, (h'.stamp v hlt).name.symm.trans hname⟩
  listed p slot v := by
    rw [h'.listed, h.listed, or_assoc]
    refine or_congr_right ?_
    constructor
    · rintro (⟨hparent, hv, hown⟩ | ⟨hparent, hv, hown⟩)
      · exact ⟨hparent, ⟨hv.1, hv.2.trans_le h'.size_le⟩, (h'.stamp v hv.2).ownedBy_iff.mpr hown⟩
      · exact ⟨hparent, ⟨h.size_le.trans hv.1, hv.2⟩, hown⟩
    · rintro ⟨hparent, hv, hown⟩
      by_cases hnew : d'.table.size ≤ v
      · exact .inr ⟨hparent, ⟨hnew, hv.2⟩, hown⟩
      · have hlt := not_le.mp hnew
        exact .inl ⟨hparent, ⟨hv.1, hlt⟩, (h'.stamp v hlt).ownedBy_iff.mp hown⟩
  types v hv htype := by
    by_cases hnew : d'.table.size ≤ v
    · exact h'.types v ⟨hnew, hv.2⟩ htype
    · have hlt := not_le.mp hnew
      exact h.types v ⟨hv.1, hlt⟩ ((h'.stamp v hlt).isType_iff.mp htype)

/-- Making a symbol. -/
theorem alloc_stamped (s : Symbol) : Stamped d (d.alloc s).2 where
  mode := rfl
  size_le := (d.lt_size_alloc s).le
  stamp _ hv := congrArg Symbol.stamp (get_alloc_of_lt s hv)

theorem size_alloc (s : Symbol) : (d.alloc s).2.table.size = d.table.size + 1 := Table.size_alloc d.table s

theorem eq_size_of_new {parent : Option ScopeRef} {v : SymbolId} (hle : d.table.size ≤ v)
    (hlt : v < ((d.alloc s).2.enterIn d.table.size parent).table.size) : v = d.table.size := by
  rw [size_enterIn, size_alloc] at hlt
  exact (Nat.le_of_lt_succ hlt).antisymm hle

/-- A new symbol that keeps no lists changes none. -/
theorem stock_alloc (hs : s.stock = ({}, fun _ => [])) (p : SymbolId) :
    ((d.alloc s).2.table.get p).stock = (d.table.get p).stock := by
  have hget : (d.alloc s).2.table.get p = _ := get_alloc d.table s p
  rw [hget]
  split
  · rename_i hp
    rw [hs, get_of_size_le hp.symm.le]
    rfl
  · rfl

/-- The table after an item has been entered into its scope and stored. -/
theorem stored_stamped (id : SymbolId) (parent : Option ScopeRef) (typeBody : Option SymbolId) :
    Stamped d ((d.enterIn id parent).storeVariable id typeBody) :=
  (enterIn_stamped id parent).trans (storeVariable_stamped id typeBody)

variable (place)

/-- The stamp of an item is the one that it was made with. -/
theorem stamp_make (hinner : Stamped (d.alloc s).2 d') :
    (((d'.enterIn d.table.size place.parent).storeVariable d.table.size place.typeBody).table.get
      d.table.size).stamp = s.stamp := by
  have hlt := d.lt_size_alloc s
  have hget := d.get_made s
  have hsame : _ = _ := (hinner.trans (stored_stamped d.table.size place.parent place.typeBody)).stamp d.table.size hlt
  rw [hsame, hget]

/-- What is made after an item and before it is entered belongs to the item or to what is made with it. -/
theorem owned_make (hinner : Lays scope d.table.size ⟨some (.fields d.table.size), place.typeBody⟩ (d.alloc s).2 d')
    {v o : SymbolId} (hv : d.table.size < v)
    (hown : ((d'.enterIn d.table.size place.parent).storeVariable d.table.size place.typeBody).table.OwnedBy v o) :
    d.table.size ≤ o := by
  have hsame : ((d'.enterIn d.table.size place.parent).storeVariable d.table.size place.typeBody).table.size =
      d'.table.size := size_enterIn_storeVariable
  have hv' : v < d'.table.size := hsame ▸ hown.lt_size
  rw [((stored_stamped d.table.size place.parent place.typeBody).stamp v hv').ownedBy_iff] at hown
  have hsize := size_alloc (d := d) s
  rcases hinner.owned v o (by rw [hsize]; exact hv) hown with heq | hle
  · exact heq.symm.le
  · rw [hsize] at hle
    exact Nat.le_of_succ_le hle

/-- An item is made, then what lies in it; after this it is entered into its scope and stored. -/
theorem lays_make (hcurrent : d.currentScope = some scope) (hprog : (d.table.get scope).kind.isProgramLike = true)
    (hslots : ∀ p slot, place.parent = some (.slot p slot) → p = scope ∧ slot ≠ .namespaces)
    (hlow : owner < d.table.size) (hlaid : (d.alloc s).2.table.Laid (d.sectionOf place) d.table.size)
    (howner : s.owner = some owner) (htype : s.kind = .typeDefinition → place.typeBody = some d.table.size)
    (hinner : Lays scope d.table.size ⟨some (.fields d.table.size), place.typeBody⟩ (d.alloc s).2 d') :
    Lays scope owner place d
      ((d'.enterIn d.table.size place.parent).storeVariable d.table.size place.typeBody) := by
  have hget := d.get_made s
  have hs : s.stock = ({}, fun _ => []) := by
    have hitem := hlaid.item
    unfold IsItem at hitem
    rw [hget] at hitem
    exact stock_of_isItem hitem
  have hscope : scope < d.table.size := lt_size_of_isProgramLike hprog
  have hsize := size_alloc (d := d) s
  have hfinal : ((d'.enterIn d.table.size place.parent).storeVariable d.table.size place.typeBody).table.size =
      d'.table.size := size_enterIn_storeVariable
  have hlt : d.table.size < d'.table.size := by
    have hle := hinner.size_le
    rw [hsize] at hle
    exact hle
  have hmade : Stamped d d' := (alloc_stamped s).trans hinner.toStamped
  have hrest := stored_stamped (d := d') d.table.size place.parent place.typeBody
  have hself := stamp_make place hinner.toStamped
  constructor
  case toStamped => exact hmade.trans hrest
  case laid =>
    rintro v ⟨hv, hv'⟩
    rw [hfinal] at hv'
    rcases Nat.eq_or_lt_of_le hv with heq | hgt
    · subst heq
      exact (hlaid.keep hinner.stamp).keep hrest.stamp
    · exact (hinner.laid v ⟨by rw [hsize]; exact hgt, hv'⟩).keep hrest.stamp
  case owned =>
    intro v o hv hown
    rcases Nat.eq_or_lt_of_le hv with heq | hgt
    · subst heq
      have howner' : some o = some owner := hown.symm.trans ((congrArg Stamp.owner hself).trans howner)
      exact .inl (Option.some.inj howner')
    · exact .inr (owned_make place hinner hgt hown)
  case bearers =>
    intro p name v
    have hentered := hmade.trans (enterIn_stamped d.table.size place.parent)
    have hcurrent' := (currentScope_of_mode hentered.mode).trans hcurrent
    have hprog' : ((d'.enterIn d.table.size place.parent).table.get scope).kind.isProgramLike = true := by
      rw [(hentered.stamp scope hscope).kind]
      exact hprog
    have hname : ((d'.enterIn d.table.size place.parent).table.get d.table.size).name =
        (((d'.enterIn d.table.size place.parent).storeVariable d.table.size place.typeBody).table.get
          d.table.size).name := (storeVariable_stamp _ _ d.table.size).name.symm
    have halloc : (d.alloc s).2.table.bearers p name = d.table.bearers p name :=
      congrArg (fun stock : Domain SymbolId × (ScopeSlot → List SymbolId) => stock.1.lookup name) (stock_alloc hs p)
    rw [mem_bearers_storeVariable hcurrent' hprog', bearers_enterIn, hinner.bearers, halloc, or_assoc]
    refine or_congr_right ?_
    constructor
    · rintro (⟨hbody, hp, hv, hnamed⟩ | ⟨hbody, hp, hnamed, rfl⟩)
      · have hle : d.table.size + 1 ≤ v := hsize ▸ hv.1
        refine ⟨hbody, hp, ⟨Nat.le_of_succ_le hle, ?_⟩, (hrest.stamp v hv.2).name.trans hnamed⟩
        rw [hfinal]
        exact hv.2
      · refine ⟨hbody, hp, ⟨le_rfl, ?_⟩, hname.symm.trans hnamed⟩
        rw [hfinal]
        exact hlt
    · rintro ⟨hbody, hp, hv, hnamed⟩
      rcases Nat.eq_or_lt_of_le hv.1 with heq | hgt
      · subst heq
        exact .inr ⟨hbody, hp, hname.trans hnamed, rfl⟩
      · have hv' : v < d'.table.size := hfinal ▸ hv.2
        exact .inl ⟨hbody, hp, ⟨by rw [hsize]; exact hgt, hv'⟩, (hrest.stamp v hv').name.symm.trans hnamed⟩
  case listed =>
    intro p slot v
    have halloc : (d.alloc s).2.table.listed p slot = d.table.listed p slot :=
      congrArg (fun stock : Domain SymbolId × (ScopeSlot → List SymbolId) => stock.2 slot) (stock_alloc hs p)
    have hinside : v ∈ d'.table.listed p slot ↔ v ∈ d.table.listed p slot := by
      rw [hinner.listed, halloc]
      exact ⟨fun hv => hv.elim id fun hv => absurd hv.1 nofun, .inl⟩
    rw [listed_storeVariable]
    constructor
    · intro hv
      rcases mem_listed_enterIn hv with hv | ⟨hparent, rfl⟩
      · exact .inl (hinside.mp hv)
      · refine .inr ⟨hparent, ⟨le_rfl, ?_⟩, (congrArg Stamp.owner hself).trans howner⟩
        rw [hfinal]
        exact hlt
    · rintro (hv | ⟨hparent, hv, hown⟩)
      · exact listed_subset_enterIn _ _ p slot (hinside.mpr hv)
      · -- only the item itself belongs to what the place belongs to
        have hself : v = d.table.size := by
          rcases Nat.eq_or_lt_of_le hv.1 with heq | hgt
          · exact heq.symm
          · exact absurd hlow (owned_make place hinner hgt hown).not_gt
        obtain ⟨hp, hslot⟩ := hslots p slot hparent
        rw [hparent, hself, listed_enterIn_slot]
        refine List.mem_append_right _ ?_
        have hhas : ((d'.table.get p).scope? slot).isSome = true := by
          rw [isSome_scope?, (hmade.stamp p (hp ▸ hscope)).kind, hp]
          exact hasScope_of_isProgramLike hprog hslot
        rw [if_pos ⟨rfl, rfl, hhas⟩]
        exact List.mem_singleton_self _
  case types =>
    rintro v ⟨hv, hv'⟩ hkind
    rw [hfinal] at hv'
    rcases Nat.eq_or_lt_of_le hv with heq | hgt
    · subst heq
      exact htype ((congrArg Stamp.kind hself).symm.trans hkind)
    · exact hinner.types v ⟨by rw [hsize]; exact hgt, hv'⟩ ((hrest.stamp v hv').isType_iff.mp hkind)

end Lays

section Items

variable {s : Symbol} {indexed : SymbolId} {kind : ItemKind}

/-- A new item of an owner that can have it is in order when its marks are. -/
theorem laid_alloc {origin : Option StorageSection} (hhosts : d.table.Hosts origin owner) (howner : s.owner = some owner)
    (hitem : s.kind.isItem = true) (hflags : ∀ kept : StorageSection, s.flags.has kept.flag = decide (origin = some kept))
    (hapart : s.flags.has .globalStorage = true → s.flags.has .global = false)
    (hbare : origin = none → s.kind ≠ .typeDefinition → s.flags.has .global = true →
      (d.table.get owner).flags.has .global = true)
    (hindex : ∀ indexed, s.indexed? = some indexed → (d.alloc s).2.table.IndexOf d.table.size indexed) :
    (d.alloc s).2.table.Laid origin d.table.size := by
  have hget := d.get_made s
  have hown := d.ownedBy_made howner
  have hsame := (alloc_stamped s).stamp owner hhosts.lt_size
  refine ⟨⟨?_, ?_, ?_⟩, fun horigin htype hglobal => ?_, ?_, owner, hown, hhosts.lt_size, hhosts.keep hsame⟩
  · unfold IsItem
    rwa [hget]
  · rwa [hget]
  · rwa [hget]
  · unfold IsType at htype
    rw [hget] at htype hglobal
    exact ⟨owner, hown, (hsame.has rfl).trans (hbare horigin htype hglobal)⟩
  · rwa [hget]

theorem Ground.laid_placed (h : d.Ground scope owner place) (hitem : s.kind.isItem = true)
    (htype : s.kind ≠ .typeDefinition) (hplain : s.indexed? = none) (hneutral : s.flags.Neutral)
    (hglobal : s.flags.has .global = false) (entry : Option DataEntry) :
    (d.alloc (d.placed entry place s)).2.table.Laid (d.sectionOf place) d.table.size := by
  refine laid_alloc h.hosts h.owner_eq hitem (fun kept => ?_) (fun hkept => ?_) (fun horigin _ hmark => ?_)
    fun indexed hindexed => absurd (hplain.symm.trans hindexed) nofun
  · rw [has_origin_placed entry place hneutral, originOf_eq d place htype]
  · have horigin : d.sectionOf place = some .globalStorage := by
      have hhas := has_origin_placed (d := d) entry place hneutral .globalStorage
      rw [originOf_eq d place htype] at hhas
      exact of_decide_eq_true (hhas.symm.trans hkept)
    rw [has_global_placed, hglobal, Bool.false_or, has_global_placeFlags h.owner_eq, originOf_eq d place htype, horigin]
    cases entry with
    | some entry => simp
    | none =>
      -- the owner lies in GLOBAL-STORAGE too, or it is no item
      rcases h.hosts with ⟨_, hunmarked⟩ | ⟨hmarked, _⟩
      · simp [hunmarked]
      · have hkept' : (d.table.get owner).flags.has .globalStorage = true := by
          have hflag := hmarked.flags .globalStorage
          rw [horigin] at hflag
          exact hflag.trans (by decide)
        simp [hmarked.apart hkept']
  · rw [has_global_placed, hglobal, Bool.false_or, has_global_placeFlags h.owner_eq, originOf_eq d place htype,
      horigin] at hmark
    cases entry with
    | some entry => simp at hmark
    | none => exact (Bool.and_eq_true _ _ ▸ hmark).2

theorem indexed?_of_kind (h : s.kind ≠ .index) : s.indexed? = none := by
  unfold Symbol.kind at h
  unfold Symbol.indexed? Symbol.item?
  cases hbody : s.body with
  | item data =>
    simp only [hbody] at h
    cases hkind : data.kind <;> simp [hkind, ItemKind.indexed?] at h ⊢
  | _ => rfl

theorem ItemKind.indexed?_of_ne (h : ∀ id, kind ≠ .index id) : kind.indexed? = none := by
  cases kind with
  | index id => exact absurd rfl (h id)
  | _ => rfl

/-- The symbol of a type definition carries the flag of no storage section. -/
theorem Ground.laid_type (h : d.Ground scope scope place) (entry : DataEntry) (restriction : Restriction) :
    (d.alloc (d.itemSymbol entry (.typeDefinition restriction []) place)).2.table.Laid none d.table.size := by
  have hflags : ∀ kept : StorageSection,
      (d.itemSymbol entry (.typeDefinition restriction []) place).flags.has kept.flag = false := by
    intro kept
    unfold itemSymbol
    rw [has_origin_placed _ _ (neutral_kindFlags entry _)]
    simp [originOf, Symbol.kind]
  have hhosts : d.table.Hosts none scope := by
    rcases h.hosts with hprog | ⟨hmarked, _⟩
    · exact .inl hprog
    · have hnot := isScope_of_isItem hmarked.item
      rw [isScope_of_isProgramLike h.program] at hnot
      cases hnot
  exact laid_alloc hhosts h.owner_eq rfl hflags (fun hkept => absurd ((hflags .globalStorage).symm.trans hkept) Bool.false_ne_true)
    (fun _ hnot => absurd rfl hnot) fun _ hindexed => by cases hindexed

/-- The index of an item in order is in order. -/
theorem laid_indexSymbol {origin : Option StorageSection} (h : d.table.Laid origin indexed)
    (hplain : (d.table.get indexed).indexed? = none) (htype : ¬ d.table.IsType indexed) (name : IndexName) :
    (d.alloc (d.indexSymbol indexed name)).2.table.Laid origin d.table.size := by
  have hget : (d.alloc (d.indexSymbol indexed name)).2.table.get d.table.size = d.indexSymbol indexed name :=
    get_alloc_self d.table _
  have hlt := h.item.lt_size
  have hmarks : ∀ f : SymbolFlag, f.isMark = true →
      (d.indexSymbol indexed name).flags.has f = (d.table.get indexed).flags.has f := by
    intro f hf
    have hkept : (FlagSet.ofList [SymbolFlag.global, .inTypeBody] ∪ SymbolFlags.storageOrigin).has f = true := by
      cases f <;> first | exact absurd hf Bool.false_ne_true | decide
    rw [flags_indexSymbol, has_inter, hkept, Bool.and_true]
  obtain ⟨owner, hown, _, hhosts⟩ := h.owner
  refine laid_alloc hhosts hown rfl (fun kept => ?_) ?_ (fun horigin _ hmark => ?_) fun other hother => ?_
  · rw [hmarks _ kept.isMark_flag, h.flags]
  · rw [hmarks _ rfl, hmarks _ rfl]
    exact h.apart
  · rw [hmarks _ rfl] at hmark
    obtain ⟨other, hother, hglobal⟩ := h.bare horigin htype hmark
    rwa [hown.unique hother]
  · obtain rfl : indexed = other := Option.some.inj hother
    have hsame := (alloc_stamped (d.indexSymbol indexed name)).stamp indexed hlt
    refine ⟨hlt, (h.toMarked.keep hsame).item, hsame.indexed?.trans hplain, ?_, fun f hf => ?_⟩
    · rw [hget, hsame.owner]
      rfl
    · rw [hget, hmarks f hf, hsame.has hf]

variable {typeBody : Option SymbolId}

theorem Ground.declareIndexes_lays {ref : ScopeRef} (f : Forest) {d : Declarations}
    (h : d.Ground scope owner ⟨some ref, typeBody⟩) (hlaid : d.table.Laid (d.sectionOf ⟨some ref, typeBody⟩) indexed)
    (hplain : (d.table.get indexed).indexed? = none) (htype : ¬ d.table.IsType indexed)
    (howner : (d.table.get indexed).owner = some owner) :
    Lays scope owner ⟨some ref, typeBody⟩ d (declareIndexes indexed ref typeBody f d).2 := by
  induction f generalizing d with
  | nil => exact (Quiet.refl d).lays _ _ _
  | cons node children siblings _ ih =>
    cases hindex : node.kind.index? with
    | none =>
      rw [declareIndexes_of_other hindex]
      exact ih h hlaid hplain htype howner
    | some name =>
      rw [declareIndexes_of_index (kind_of_index? hindex)]
      have hmade := lays_make ⟨some ref, typeBody⟩ (s := d.indexSymbol indexed name) h.current h.program h.slots h.hosts.lt_size
          (laid_indexSymbol hlaid hplain htype name) howner nofun ((Quiet.refl _).lays _ _ _)
      have hsame := hmade.stamp indexed hlaid.item.lt_size
      refine hmade.trans (ih (h.stamped hmade.toStamped) ?_ (hsame.indexed?.trans hplain) ?_ (hsame.owner.trans howner))
      · rw [sectionOf_of_mode hmade.mode]
        exact hlaid.keep hmade.stamp
      · rwa [hsame.isType_iff]

/-- A function that makes the fields of any group. -/
def FieldsLay (scope : SymbolId) (fields : Placement → Declarations → Forest × Declarations) : Prop :=
  ∀ (id : SymbolId) (typeBody : Option SymbolId) (d : Declarations), d.Ground scope id ⟨some (.fields id), typeBody⟩ →
    Lays scope id ⟨some (.fields id), typeBody⟩ d (fields ⟨some (.fields id), typeBody⟩ d).2

variable {fields : Placement → Declarations → Forest × Declarations} {children : Forest}

theorem Ground.declareContent_lays (h : d.Ground scope id ⟨some (.fields id), typeBody⟩) (entry : DataEntry)
    (children : Forest) (hfields : FieldsLay scope fields) :
    Lays scope id ⟨some (.fields id), typeBody⟩ d (d.declareContent id entry typeBody children fields).2 := by
  unfold declareContent
  split
  · have hset : Quiet d (d.setType id (.group {} none id)) := setType_quiet _
    have hmade := hfields id typeBody _ (h.stamped hset.stamped)
    exact ((hset.lays _ _ _).trans hmade).trans
      (((setLeading_quiet entry).trans (wrapArray_quiet entry typeBody)).lays _ _ _)
  · exact ((setElementary_quiet entry typeBody).trans (wrapArray_quiet entry typeBody)).lays _ _ _

/-- A new item is ground for its fields. -/
theorem Ground.inside (h : d.Ground scope owner place)
    (hlaid : (d.alloc s).2.table.Laid (d.sectionOf ⟨some (.fields d.table.size), typeBody⟩) d.table.size)
    (hplain : s.indexed? = none) : (d.alloc s).2.Ground scope d.table.size ⟨some (.fields d.table.size), typeBody⟩ where
  current := h.current
  program := (h.stamped (alloc_stamped s)).program
  owner_eq := rfl
  hosts := by
    have hget := d.get_made s
    refine .inr ⟨hlaid.toMarked, ?_⟩
    rw [hget]
    exact hplain
  slots := nofun

theorem ItemKind.symbolKind_ne (h : kind.isType = false) : kind.symbolKind ≠ .typeDefinition := by
  rw [Ne, ItemKind.symbolKind_eq_typeDefinition, h]
  exact Bool.false_ne_true

theorem has_global_kindFlags (entry : DataEntry) (h : kind.isType = false) :
    (kindFlags entry kind).has .global = false := by
  cases kind with
  | typeDefinition restriction items => cases h
  | redefines target => exact SymbolFlag.has_single .global .redefines
  | _ => exact has_empty _

/-- A type definition and its body carry the flag of no storage section, and what is made with the type lies in it. -/
theorem Ground.declareType_lays {parent : Option ScopeRef} (h : d.Ground scope scope ⟨parent, none⟩) (entry : DataEntry)
    (restriction : Restriction) (hfields : FieldsLay scope fields) {made : Declarations}
    (hmade : made = (d.declareItem entry (.typeDefinition restriction []) ⟨parent, none⟩ children fields).2.2) :
    Lays scope scope ⟨parent, some d.table.size⟩ d made ∧ made.table.IsType d.table.size ∧
      ∀ v o, d.table.size < v → made.table.OwnedBy v o → d.table.size ≤ o := by
  have hlaid := h.laid_type entry restriction
  have hground : (d.alloc (d.itemSymbol entry (.typeDefinition restriction []) ⟨parent, none⟩)).2.Ground scope
      d.table.size ⟨some (.fields d.table.size), some d.table.size⟩ := h.inside hlaid rfl
  have hcontent := hground.declareContent_lays entry children hfields
  have hstored := lays_make ⟨parent, some d.table.size⟩ h.current h.program h.slots h.hosts.lt_size hlaid h.owner_eq
    (fun _ => rfl) hcontent
  have hself := stamp_make ⟨parent, some d.table.size⟩ hcontent.toStamped
  have howned := fun v o => owned_make ⟨parent, some d.table.size⟩ hcontent (v := v) (o := o)
  rw [hmade, declareItem_eq]
  refine ⟨hstored.trans (registerType_quiet.lays _ _ _), ?_, howned⟩
  exact congrArg Stamp.kind hself

section

variable (h : d.Ground scope owner place)
include h

/-- The symbol of an entry with clauses is in order. -/
theorem Ground.laid_item (entry : DataEntry) (htype : kind.isType = false) (hplain : kind.indexed? = none) :
    (d.alloc (d.itemSymbol entry kind place)).2.table.Laid (d.sectionOf place) d.table.size := by
  refine h.laid_placed ?_ ?_ ?_ (neutral_kindFlags entry kind) (has_global_kindFlags entry htype) (some entry)
  · rw [kind_of_item rfl]
    exact kind.isItem_symbolKind
  · rw [kind_of_item rfl]
    exact ItemKind.symbolKind_ne htype
  · exact hplain

theorem Ground.declareItem_lays (entry : DataEntry) (kind : ItemKind)
    (children : Forest) (htype : kind.isType = false) (hplain : kind.indexed? = none) (hfields : FieldsLay scope fields) :
    Lays scope owner place d (d.declareItem entry kind place children fields).2.2 := by
  have hnot := ItemKind.symbolKind_ne htype
  have hindexed : (d.itemSymbol entry kind place).indexed? = none := hplain
  have hlaid := h.laid_item entry htype hplain
  have hground := h.inside hlaid hindexed
  have hcontent := hground.declareContent_lays entry children hfields
  have howner : (d.itemSymbol entry kind place).owner = some owner := h.owner_eq
  rw [declareItem_eq, htype, if_neg Bool.false_ne_true]
  generalize hd' : (d.alloc (d.itemSymbol entry kind place)).2.declareContent d.table.size entry place.typeBody children
    fields = made at hcontent ⊢
  have hmade := lays_make place h.current h.program h.slots h.hosts.lt_size hlaid howner
    (fun hkind => absurd ((kind_of_item rfl).symm.trans hkind) hnot) hcontent
  unfold enterItem
  rw [if_neg Bool.false_ne_true]
  split
  · rename_i ref href
    have hplace : place = ⟨some ref, place.typeBody⟩ := by rw [← href]
    -- nothing that happens to the item since it was made changes its stamp
    have hlater := hcontent.toStamped.trans ((enterIn_stamped d.table.size place.parent).trans
      (storeVariable_stamped d.table.size place.typeBody))
    have hlt := d.lt_size_alloc (d.itemSymbol entry kind place)
    have hsame := hlater.stamp d.table.size hlt
    have hget : (d.alloc (d.itemSymbol entry kind place)).2.table.get d.table.size = d.itemSymbol entry kind place :=
      get_alloc_self d.table _
    have hself := hlaid.keep hlater.stamp
    refine hmade.trans ?_
    rw [← sectionOf_of_mode hmade.mode, hplace] at hself
    rw [hplace] at h hmade ⊢
    refine (h.stamped hmade.toStamped).declareIndexes_lays _ hself ?_ ?_ ?_
    · rw [← hplace, hsame.indexed?, hget]
      exact hindexed
    · unfold IsType
      rw [← hplace, hsame.kind, hget]
      exact fun hkind => hnot ((kind_of_item rfl).symm.trans hkind)
    · rw [← hplace, hsame.owner, hget]
      exact howner
  · exact hmade

/-- A level-66 or level-88 item. -/
theorem Ground.placeItem_lays {data : ItemData} (hs : Detail s data) :
    Lays scope owner place d (d.placeItem s place).2 := by
  have hlaid : (d.alloc (d.placed none place s)).2.table.Laid (d.sectionOf place) d.table.size := by
    refine h.laid_placed (hs.kind_eq ▸ data.kind.isItem_symbolKind) hs.kind_ne (indexed?_of_kind hs.noIndex) ?_ ?_ none
    · rw [hs.flags]
      exact SymbolFlags.avoids_empty
    · rw [hs.flags]
      exact has_empty _
  exact lays_make place (s := d.placed none place s) h.current h.program h.slots h.hosts.lt_size hlaid h.owner_eq
    (fun hkind => absurd hkind hs.kind_ne) ((Quiet.refl _).lays _ _ _)

theorem Ground.declareNode_lays (node : Node) (children : Forest)
    (hfields : FieldsLay scope fields) : Lays scope owner place d (d.declareNode node place children fields).2.2 := by
  have hnode := d.nodeMade node place children fields
  generalize d.declareNode node place children fields = made at hnode ⊢
  cases hnode with
  | nothing => exact (Quiet.refl d).lays _ _ _
  | item c entry kind htold _ _ _ _ hkind hindex _ hmade =>
    have htarget : Quiet d { d with context := c } := quiet_of_table rfl htold.table
    rw [hmade]
    exact (htarget.lays _ _ _).trans ((h.stamped htarget.stamped).declareItem_lays entry kind children hkind.1
      (ItemKind.indexed?_of_ne hindex) hfields)
  | alone s data hs _ _ pending _ =>
    have hqueued : Quiet (d.placeItem s place).2 { (d.placeItem s place).2 with pendingRenames := pending } :=
      quiet_of_table rfl rfl
    exact (h.placeItem_lays hs).trans (hqueued.lays _ _ _)

end

theorem fieldsLay (scope : SymbolId) (f : Forest) : FieldsLay scope (fun place d => declareFields f place d) := by
  induction f with
  | nil => exact fun id typeBody d _ => (Quiet.refl d).lays _ _ _
  | cons node children siblings ihChildren ihSiblings =>
    intro id typeBody d h
    have hnode := h.declareNode_lays node children ihChildren
    have hrest := ihSiblings id typeBody _ (h.stamped hnode.toStamped)
    simp only
    rw [declareFields_cons]
    exact hnode.trans hrest

end Items

section Records

/-- Where the symbols of a record are made: a type among the types, other records in the scope of the storage section. -/
def topPlace (d : Declarations) (tree : Tree) (scope : SymbolId) : Placement :=
  if tree.node.kind.isTypeDefinition then ⟨some (.slot scope .types), some d.table.size⟩
  else ⟨d.storage.map fun kept => ScopeRef.slot scope kept.slot, none⟩

variable (hcurrent : d.currentScope = some scope) (hprog : (d.table.get scope).kind.isProgramLike = true)
  (hglobal : (d.table.get scope).flags.has .global = false)
include hcurrent hprog hglobal

theorem ground_top {parent : Option ScopeRef} {typeBody : Option SymbolId}
    (hparent : ∀ ref, parent = some ref → ∃ slot, ref = .slot scope slot ∧ slot ≠ .namespaces) :
    d.Ground scope scope ⟨parent, typeBody⟩ where
  current := hcurrent
  program := hprog
  owner_eq := by
    cases parent with
    | none => exact hcurrent
    | some ref =>
      obtain ⟨slot, rfl, _⟩ := hparent ref rfl
      rfl
  hosts := .inl ⟨hprog, hglobal⟩
  slots p slot hslot := by
    obtain ⟨_, heq, hnot⟩ := hparent _ hslot
    cases heq
    exact ⟨rfl, hnot⟩

/-- Types are declared among the types of the current program. -/
theorem ground_types : d.Ground scope scope ⟨some (.slot scope .types), none⟩ :=
  ground_top hcurrent hprog hglobal fun ref href => by cases href; exact ⟨_, rfl, nofun⟩

/-- Other records are declared in the storage section that is read. -/
theorem ground_storage : d.Ground scope scope ⟨d.storage.map fun kept => ScopeRef.slot scope kept.slot, none⟩ := by
  refine ground_top hcurrent hprog hglobal fun ref href => ?_
  obtain ⟨kept, _, rfl⟩ := Option.map_eq_some_iff.mp href
  exact ⟨_, rfl, by cases kept <;> nofun⟩

theorem declareTop_lays (tree : Tree) :
    Lays scope scope (d.topPlace tree scope) d (d.declareTop tree scope).2 := by
  unfold declareTop topPlace
  cases htype : tree.node.kind.isTypeDefinition with
  | true =>
    obtain ⟨entry, hkind⟩ : ∃ entry, tree.node.kind = .typeDefinition entry := by
      cases hkind : tree.node.kind <;> simp [hkind, NodeKind.isTypeDefinition] at htype ⊢
    rw [hkind, if_pos rfl]
    exact ((ground_types hcurrent hprog hglobal).declareType_lays entry _ (fieldsLay scope tree.children) rfl).1
  | false =>
    rw [if_neg Bool.false_ne_true]
    have hnode := (ground_storage hcurrent hprog hglobal).declareNode_lays tree.node tree.children (fieldsLay scope tree.children)
    split
    · rename_i entry hkind
      rw [hkind] at htype
      cases htype
    · exact hnode

theorem declareRecord_lays (tree : Tree) :
    Lays scope scope (d.topPlace tree scope) d (d.declareRecord tree).2 := by
  rw [declareRecord_of_some hcurrent]
  have htop := declareTop_lays (d := d.clearRenames) hcurrent hprog hglobal tree
  exact ((clearRenames_quiet.lays _ _ _).trans htop).trans (((checkRenames_checks _).quiet.trans clearRenames_quiet).lays _ _ _)

omit hcurrent hprog hglobal in
theorem Ground.declareParameters_lays {linkage : ScopeRef} (f : Forest) (signature : Signature) {d : Declarations}
    (h : d.Ground scope owner ⟨some linkage, none⟩) :
    Lays scope owner ⟨some linkage, none⟩ d (declareParameters linkage f signature d).2.2 := by
  induction f generalizing signature d with
  | nil => exact (Quiet.refl d).lays _ _ _
  | cons node children siblings _ ih =>
    unfold declareParameters
    split
    · rename_i entry direction _
      have hitem := h.declareItem_lays entry .plain children rfl rfl (fieldsLay scope children)
      have hflag := addFlags_quiet (d.declareItem entry .plain ⟨some linkage, none⟩ children
        (fun place d => declareFields children place d)).2.2 d.table.size (avoids_parameterFlag direction).unmarked
      have hmade := hitem.trans (hflag.lays _ _ _)
      exact hmade.trans (ih _ (h.stamped hmade.toStamped))
    · exact ih _ h

end Records

end Declarations

end CobolSymbols
