import CobolSymbols.Proofs.Session.InPlace

/-!
# The marks of the items of a storage section

An item lies in a storage section of a program or procedure when the scope of the section lists it, or when it is a field
of a group that lies in the section. Such an item carries the flag of its section and of no other one. Outside of
GLOBAL-STORAGE it is marked as global exactly when a GLOBAL clause counts for it: its own, that of the item that it is an
index of, or that of a group around it.
-/

set_option autoImplicit false

namespace CobolSymbols

open SymbolKind

/-- The items of a storage section: those that its scope lists and the fields of the groups among them, at any depth. -/
inductive Table.InSection (t : Table) (p : SymbolId) (kept : StorageSection) : SymbolId → Prop
  | entry {v : SymbolId} (h : v ∈ t.listed p kept.slot) : InSection t p kept v
  | field {group v : SymbolId} (hgroup : InSection t p kept group) (hfield : v ∈ t.fields group) : InSection t p kept v

/-- A group contains an item: the item is one of its fields, or a field of a group among them, at any depth. -/
def Table.Contains (t : Table) : SymbolId → SymbolId → Prop :=
  Relation.TransGen fun group field => field ∈ t.fields group

/-- The clauses of an item count for another one: it is the same item, the other one is an index of it, or it contains the
other one. -/
def Table.Governs (t : Table) (u v : SymbolId) : Prop :=
  u = v ∨ (t.get v).indexed? = some u ∨ t.Contains u v

/-- The definition of a symbol in a tree has a GLOBAL clause. -/
def Tree.DeclaresGlobal (tree : Tree) (v : SymbolId) : Prop :=
  ∃ n ∈ tree.nodes, n.symbol? = some v ∧ n.kind.declaresGlobal = true

namespace Table

variable {t : Table} {base base' : Nat} {p v group : SymbolId} {kept : StorageSection}

section Sections

/-- An item that carries the flag of a storage section is in order there. -/
theorem InPlace.laid_of_flag (h : t.InPlace) (hflag : (t.get v).flags.has kept.flag = true) : t.Laid (some kept) v := by
  by_cases hitem : t.IsItem v
  · rcases h.items v hitem with hbuiltin | ⟨origin, hlaid⟩
    · exact absurd ((hbuiltin.unmarked _ kept.isMark_flag).symm.trans hflag) Bool.false_ne_true
    · have horigin : origin = some kept := of_decide_eq_true ((hlaid.flags kept).symm.trans hflag)
      rw [← horigin]
      exact hlaid
  · exact absurd ((h.others v hitem _ kept.isMark_flag).symm.trans hflag) Bool.false_ne_true

theorem Laid.has_flag (h : t.Laid (some kept) v) : (t.get v).flags.has kept.flag = true :=
  (h.flags kept).trans (decide_eq_true rfl)

theorem Regular.isItem_of_fields (h : t.Regular) (hfield : v ∈ t.fields group) : t.IsItem group := by
  refine h.tidy.groups group ?_
  unfold fields Symbol.fieldList at hfield
  cases hfields : (t.get group).fields? with
  | none =>
    rw [hfields] at hfield
    exact absurd hfield List.not_mem_nil
  | some _ => rfl

/-- The field of a group that is in order in a section is in order there. -/
theorem InPlace.laid_field (h : t.InPlace) (hregular : t.Regular) (hformed : t.Formed base)
    (hgroup : t.Laid (some kept) group) (hfield : v ∈ t.fields group) : t.Laid (some kept) v := by
  have hown : t.OwnedBy v group := hformed.field_owner group v hfield
  have hitem : t.IsItem v := (hregular.standing v hown.lt_size).inner group hown hgroup.item
  rcases h.items v hitem with hbuiltin | ⟨origin, hlaid⟩
  · have hroot := hown.unique hbuiltin.owner
    have hkind := (hformed.root group).mpr hroot
    have hnot := hgroup.item
    unfold IsItem at hnot
    rcases hkind with hkind | hkind <;> · rw [hkind] at hnot; cases hnot
  · obtain ⟨owner, howner, _, hhosts⟩ := hlaid.owner
    obtain rfl := hown.unique howner
    rcases hhosts with ⟨hprog, _⟩ | ⟨hmarked, _⟩
    · have hscope := isScope_of_isProgramLike hprog
      rw [isScope_of_isItem hgroup.item] at hscope
      cases hscope
    · have horigin : origin = some kept := of_decide_eq_true ((hmarked.flags kept).symm.trans hgroup.has_flag)
      rw [← horigin]
      exact hlaid

theorem InPlace.laid_of_inSection (h : t.InPlace) (hregular : t.Regular) (hformed : t.Formed base)
    (hv : t.InSection p kept v) : t.Laid (some kept) v := by
  induction hv with
  | entry hlisted => exact h.laid_of_flag ((h.listed p kept _).mp hlisted).1
  | field _ hfield ih => exact h.laid_field hregular hformed ih hfield

/-- The group around an item that is in order in a section is in order there, and it is no index. -/
theorem Laid.around (h : t.Laid (some kept) v) (hregular : t.Regular) (hplace : t.InPlace) (hformed : t.Formed base)
    (hfield : v ∈ t.fields group) : t.Laid (some kept) group ∧ (t.get group).indexed? = none := by
  have hown : t.OwnedBy v group := hformed.field_owner group v hfield
  obtain ⟨owner, howner, _, hhosts⟩ := h.owner
  obtain rfl := hown.unique howner
  rcases hhosts with ⟨hprog, _⟩ | ⟨hmarked, hplain⟩
  · have hscope := isScope_of_isProgramLike hprog
    rw [isScope_of_isItem (hregular.isItem_of_fields hfield)] at hscope
    cases hscope
  · exact ⟨hplace.laid_of_flag ((hmarked.flags kept).trans (decide_eq_true rfl)), hplain⟩

/-- What a scope of a storage section lists belongs to no item. -/
theorem not_isItem_of_listed {slot : ScopeSlot} (h : v ∈ t.listed p slot) : ¬ t.IsItem p := by
  intro hitem
  have hnone : t.listed p slot = [] := congrFun (congrArg Prod.snd (Symbol.stock_of_isItem hitem)) slot
  rw [hnone] at h
  cases h

end Sections

section Types

theorem InPlace.flag_of_within (h : t.InPlace) (hformed : t.Formed base) {type : SymbolId} (htype : t.IsType type)
    (hwithin : t.Within type v) (kept : StorageSection) : (t.get v).flags.has kept.flag = false := by
  induction v using Nat.strongRecOn with
  | _ v ih =>
    rcases within_iff.mp hwithin with rfl | ⟨owner, hown, houter⟩
    · exact h.types _ htype kept
    · rw [← Bool.not_eq_true]
      intro hflag
      obtain ⟨other, hother, hlt, hhosts⟩ := (h.laid_of_flag hflag).owner
      obtain rfl := hown.unique hother
      rcases hhosts with ⟨hprog, _⟩ | ⟨hmarked, _⟩
      · exact hformed.scope_outside (isScope_of_isProgramLike hprog) type htype houter
      · have hkept : (t.get owner).flags.has kept.flag = true := (hmarked.flags kept).trans (decide_eq_true rfl)
        exact absurd ((ih owner hlt houter).symm.trans hkept) Bool.false_ne_true

theorem InPlace.marks_apart (h : t.InPlace) (v : SymbolId) :
    ¬ ((t.get v).flags.has .global = true ∧ (t.get v).flags.has .globalStorage = true) := by
  rintro ⟨hglobal, hstorage⟩
  have hlaid : t.Laid (some .globalStorage) v := h.laid_of_flag hstorage
  exact absurd ((hlaid.apart hstorage).symm.trans hglobal) Bool.false_ne_true

end Types

section Global

/-- What the tree of a unit tells about the items of the unit, whose symbols are those from `base` on: they are bound and
obey their clauses, and what they belong to is of the unit as well. -/
structure Declared (t : Table) (base : Nat) (tree : Tree) : Prop where
  obeys : ∀ k v, (k, v) ∈ (Forest.ofTree tree).bindings → t.Obeys k v
  covers : ∀ v, base ≤ v → t.IsItem v → (t.get v).indexed? = none → ∃ k, (k, v) ∈ (Forest.ofTree tree).bindings
  owner : ∀ v owner, base ≤ v → t.IsItem v → t.OwnedBy v owner → base ≤ owner

variable {tree : Tree}

theorem declaresGlobal_iff : tree.DeclaresGlobal v ↔
    ∃ k, (k, v) ∈ (Forest.ofTree tree).bindings ∧ k.declaresGlobal = true := by
  constructor
  · rintro ⟨n, hn, hsymbol, hglobal⟩
    have hdef : n.isDefinition = true := by
      unfold Node.isDefinition Node.definition?
      unfold NodeKind.declaresGlobal at hglobal
      cases hkind : n.kind.definition? with
      | none =>
        rw [hkind] at hglobal
        cases hglobal
      | some _ => rfl
    refine ⟨n.kind, List.mem_filterMap.mpr ⟨n, hn, ?_⟩, hglobal⟩
    unfold Node.binding?
    rw [if_pos hdef, hsymbol]
    rfl
  · rintro ⟨k, hk, hglobal⟩
    obtain ⟨n, hn, hbinding⟩ := List.mem_filterMap.mp hk
    unfold Node.binding? at hbinding
    split at hbinding
    · obtain ⟨id, hsymbol, heq⟩ := Option.map_eq_some_iff.mp hbinding
      cases heq
      exact ⟨n, hn, hsymbol, hglobal⟩
    · cases hbinding

/-- The owner of an item is global. -/
def OwnerGlobal (t : Table) (v : SymbolId) : Prop :=
  ∃ owner, t.OwnedBy v owner ∧ (t.get owner).flags.has .global = true

variable (h : t.Declared base tree)
include h

/-- An item whose definition has a GLOBAL clause is global outside of GLOBAL-STORAGE. -/
theorem Declared.global_of_declares (hlaid : t.Laid (some kept) v)
    (hkept : kept ≠ .globalStorage) (hglobal : tree.DeclaresGlobal v) : (t.get v).flags.has .global = true := by
  obtain ⟨k, hk, hclause⟩ := declaresGlobal_iff.mp hglobal
  exact ((h.obeys k v hk).rule kept hlaid.has_flag).mpr ⟨hkept, .inl hclause⟩

theorem Declared.global_plain (hv : base ≤ v) (hlaid : t.Laid (some kept) v)
    (hplain : (t.get v).indexed? = none) : (t.get v).flags.has .global = true ↔
      kept ≠ .globalStorage ∧ (tree.DeclaresGlobal v ∨ t.OwnerGlobal v) := by
  obtain ⟨k, hk⟩ := h.covers v hv hlaid.item hplain
  have hrule := (h.obeys k v hk).rule kept hlaid.has_flag
  constructor
  · intro hglobal
    obtain ⟨hkept, hclause⟩ := hrule.mp hglobal
    exact ⟨hkept, hclause.imp_left fun hclause => declaresGlobal_iff.mpr ⟨k, hk, hclause⟩⟩
  · rintro ⟨hkept, hglobal | howner⟩
    · exact h.global_of_declares hlaid hkept hglobal
    · exact hrule.mpr ⟨hkept, .inr howner⟩

/-- An item is global when its own clause asks for it, when it is an index of an item whose clause does, or when its owner
is global. -/
theorem Declared.global_iff (hformed : t.Formed base') (hplace : t.InPlace) (hv : base ≤ v)
    (hlaid : t.Laid (some kept) v) : (t.get v).flags.has .global = true ↔ kept ≠ .globalStorage ∧
      ((∃ u, (u = v ∨ (t.get v).indexed? = some u) ∧ tree.DeclaresGlobal u) ∨ t.OwnerGlobal v) := by
  cases hindexed : (t.get v).indexed? with
  | none =>
    rw [h.global_plain hv hlaid hindexed]
    simp
  | some item =>
    have hindex := hlaid.index item hindexed
    have hflag : (t.get item).flags.has kept.flag = true := (hindex.marks _ kept.isMark_flag).symm.trans hlaid.has_flag
    have hitem : t.Laid (some kept) item := hplace.laid_of_flag hflag
    obtain ⟨owner, hown, _⟩ := hlaid.owner
    have hown' : t.OwnedBy item owner := hindex.owner.symm.trans hown
    have hle : base ≤ item := (h.owner v owner hv hlaid.item hown).trans (hformed.ordered item owner hown').le
    have howner : t.OwnerGlobal v ↔ t.OwnerGlobal item := by
      unfold OwnerGlobal OwnedBy
      rw [hindex.owner]
    rw [howner]
    constructor
    · intro hglobal
      rw [hindex.marks _ rfl] at hglobal
      obtain ⟨hkept, hclause⟩ := (h.global_plain hle hitem hindex.plain).mp hglobal
      exact ⟨hkept, hclause.imp_left fun hclause => ⟨item, .inr rfl, hclause⟩⟩
    · rintro ⟨hkept, ⟨u, rfl | hu, hclause⟩ | howner⟩
      · exact h.global_of_declares hlaid hkept hclause
      · cases hu
        rw [hindex.marks _ rfl]
        exact (h.global_plain hle hitem hindex.plain).mpr ⟨hkept, .inl hclause⟩
      · rw [hindex.marks _ rfl]
        exact (h.global_plain hle hitem hindex.plain).mpr ⟨hkept, .inr howner⟩

/-- Groups hand the mark down. -/
theorem Declared.global_contained (hregular : t.Regular) (hplace : t.InPlace)
    (hformed : t.Formed base') (hkept : kept ≠ .globalStorage) {u : SymbolId} (hcontains : t.Contains u v)
    (hv : base ≤ v) (hlaid : t.Laid (some kept) v) : base ≤ u ∧ t.Laid (some kept) u ∧
      ((t.get u).flags.has .global = true → (t.get v).flags.has .global = true) := by
  have hstep : ∀ {group field : SymbolId}, field ∈ t.fields group → base ≤ field → t.Laid (some kept) field →
      base ≤ group ∧ t.Laid (some kept) group ∧
        ((t.get group).flags.has .global = true → (t.get field).flags.has .global = true) := by
    intro group field hfield hle hlaid
    have hown : t.OwnedBy field group := hformed.field_owner group field hfield
    refine ⟨h.owner field group hle hlaid.item hown, (hlaid.around hregular hplace hformed hfield).1, fun hglobal => ?_⟩
    exact (h.global_iff hformed hplace hle hlaid).mpr ⟨hkept, .inr ⟨group, hown, hglobal⟩⟩
  induction hcontains with
  | single hfield => exact hstep hfield hv hlaid
  | tail _ hfield ih =>
    obtain ⟨hle, hgroup, hdown⟩ := hstep hfield hv hlaid
    obtain ⟨hle', hgroup', hdown'⟩ := ih hle hgroup
    exact ⟨hle', hgroup', fun hglobal => hdown (hdown' hglobal)⟩

/-- An item of a section is global exactly when a GLOBAL clause counts for it. -/
theorem Declared.global_inSection (hregular : t.Regular) (hplace : t.InPlace)
    (hformed : t.Formed base') (hv : base ≤ v) (hsection : t.InSection p kept v) :
    (t.get v).flags.has .global = true ↔
      kept ≠ .globalStorage ∧ ∃ u, t.Governs u v ∧ tree.DeclaresGlobal u := by
  have hlaid := hplace.laid_of_inSection hregular hformed hsection
  constructor
  · intro hglobal
    refine ⟨((h.global_iff hformed hplace hv hlaid).mp hglobal).1, ?_⟩
    -- from the item outwards: a mark that no clause of its own asks for comes from the group
    induction hsection with
    | @entry v hlisted =>
      rcases ((h.global_iff hformed hplace hv hlaid).mp hglobal).2 with ⟨u, hu, hclause⟩ | ⟨owner, hown, hmark⟩
      · exact ⟨u, hu.imp_right .inl, hclause⟩
      · obtain rfl : owner = p := Option.some.inj (hown.symm.trans ((hplace.listed p kept _).mp hlisted).2.1)
        have hnone := hplace.others owner (not_isItem_of_listed hlisted) .global rfl
        exact absurd (hnone.symm.trans hmark) Bool.false_ne_true
    | @field group v hgroup hfield ih =>
      rcases ((h.global_iff hformed hplace hv hlaid).mp hglobal).2 with ⟨u, hu, hclause⟩ | ⟨owner, hown, hmark⟩
      · exact ⟨u, hu.imp_right .inl, hclause⟩
      · obtain rfl := hown.unique (hformed.field_owner group v hfield)
        obtain ⟨hlaidGroup, hplain⟩ := hlaid.around hregular hplace hformed hfield
        obtain ⟨u, hu, hclause⟩ := ih (h.owner v owner hv hlaid.item hown) hlaidGroup hmark
        refine ⟨u, .inr (.inr ?_), hclause⟩
        rcases hu with rfl | hindexed | hcontains
        · exact .single hfield
        · exact absurd (hplain.symm.trans hindexed) nofun
        · exact .tail hcontains hfield
  · rintro ⟨hkept, u, hu, hclause⟩
    rcases hu with rfl | hindexed | hcontains
    · exact h.global_of_declares hlaid hkept hclause
    · exact (h.global_iff hformed hplace hv hlaid).mpr ⟨hkept, .inl ⟨u, .inr hindexed, hclause⟩⟩
    · obtain ⟨_, hlaid', hdown⟩ := h.global_contained hregular hplace hformed hkept hcontains hv hlaid
      exact hdown (h.global_of_declares hlaid' hkept hclause)

end Global

end Table

namespace Session

variable {s : Session}

/-- The tree of a unit tells about the items of the unit. -/
theorem Regular.declared_compile (h : s.Regular) (hplace : s.table.InPlace) (file : FileId) (events : List Event) :
    (s.compile file events).2.table.Declared s.table.size (s.compile file events).1.tree := by
  have hbinds := h.binds_compile hplace file events
  have hcompiled := h.compile file events
  have hadvances := advances_compile h file events
  refine ⟨fun k v hv => ?_, fun v hv hitem => hbinds.covers v ⟨hv, hitem.lt_size⟩ hitem, fun v owner hv hitem hown => ?_⟩
  · exact (hbinds.obeys k v hv).resolve_left List.not_mem_nil
  · -- the item lies in a program of the unit, and so does its owner
    obtain ⟨_, program, hprog, hwithin⟩ := hadvances.gathered v hv hitem.lt_size
    have hle : s.table.size ≤ program := (hadvances.added program hprog).resolve_left List.not_mem_nil
    have hkind := (hcompiled.units (file, (s.compile file events).1.programs) (List.mem_cons_self ..) program hprog).1
    rcases Table.within_iff.mp hwithin with heq | ⟨other, hother, houter⟩
    · subst heq
      unfold Table.IsItem at hitem
      rw [hkind] at hitem
      cases hitem
    · obtain rfl := hown.unique hother
      exact hle.trans (Table.Within.le hcompiled.sound.ordered houter)

/-- Whatever has been built before and whatever is read, each item of a storage section carries the flag of that section
and of no other one. An item of the unit is marked as global exactly when its section is not GLOBAL-STORAGE and a GLOBAL
clause counts for it. Types and what lies in them carry the flag of no section, and no symbol is marked both as global and
as one of GLOBAL-STORAGE. -/
theorem section_items_marked (options : Options) (actions : List Action) (file : FileId) (events : List Event) :
    let s := reached options actions
    let tree := (s.compile file events).1.tree
    let t := (s.compile file events).2.table
    (∀ p kept v, t.InSection p kept v → ∀ other : StorageSection,
      (t.get v).flags.has other.flag = decide (other = kept)) ∧
    (∀ p kept v, s.table.size ≤ v → t.InSection p kept v → ((t.get v).flags.has .global = true ↔
      kept ≠ .globalStorage ∧ ∃ u, t.Governs u v ∧ tree.DeclaresGlobal u)) ∧
    (∀ type v, t.IsType type → t.Within type v → ∀ kept : StorageSection, (t.get v).flags.has kept.flag = false) ∧
    ∀ v, ¬ ((t.get v).flags.has .global = true ∧ (t.get v).flags.has .globalStorage = true) := by
  intro s tree t
  have hstart : s.Regular := regular_reached options actions
  have hplace : s.table.InPlace := inPlace_reached options actions
  have hregular := hstart.compile file events
  have hplace' : t.InPlace := hstart.inPlace_compile hplace file events
  have hformed : t.Formed t.size := hregular.sound.toFormed
  refine ⟨fun p kept v hv other => ?_, fun p kept v hle hv => ?_, fun type v htype hwithin kept => ?_,
    hplace'.marks_apart⟩
  · have hlaid := hplace'.laid_of_inSection hregular.table hformed hv
    rw [hlaid.flags other]
    exact decide_eq_decide.mpr ⟨fun heq => (Option.some.inj heq).symm, fun heq => heq ▸ rfl⟩
  · exact (hstart.declared_compile hplace file events).global_inSection hregular.table hplace' hformed hle hv
  · exact hplace'.flag_of_within hformed htype hwithin kept

end Session

/-- A program with a global group in its working storage and a table with an index in the group. -/
def globalGroup : List Event :=
  [.startProgram { name := "P", position := ⟨1, 8⟩ }, .startDataDivision ⟨2, 8⟩,
    .startStorage .workingStorage ⟨⟨3, 8⟩⟩,
    .dataEntry (DataEntry.named 1 "G" ⟨4, 8⟩).asGlobal,
    .dataEntry ((((DataEntry.named 2 "T" ⟨5, 8⟩).withPicture "X").withOccurs 3 3).indexedBy "I" ⟨5, 30⟩),
    .endStorage .workingStorage, .endDataDivision, .endProgram none]

/-- The index lies in the section by way of the group, and the clause of the group counts for it. -/
theorem section_items_marked_index :
    let t := ((Session.reached {} []).compile 0 globalGroup).2.table
    t.name 13 = "I" ∧ t.InSection 10 .workingStorage 13 ∧ (t.get 13).flags.has .workingStorage = true ∧
      (t.get 13).flags.has .linkage = false ∧ (t.get 13).flags.has .global = true := by
  intro t
  have hsize : (Session.reached {} []).table.size ≤ 13 := by decide +kernel
  have hfield : 13 ∈ t.fields 11 := by decide +kernel
  have hsection : t.InSection 10 .workingStorage 13 := .field (.entry (by decide +kernel)) hfield
  have hclause : ((Session.reached {} []).compile 0 globalGroup).1.tree.DeclaresGlobal 11 := by
    unfold Tree.DeclaresGlobal
    decide +kernel
  obtain ⟨hmarks, hglobal, _⟩ := Session.section_items_marked {} [] 0 globalGroup
  refine ⟨by decide +kernel, hsection, hmarks 10 _ 13 hsection .workingStorage, hmarks 10 _ 13 hsection .linkage, ?_⟩
  exact (hglobal 10 _ 13 hsize hsection).mpr ⟨nofun, 11, .inr (.inr (.single hfield)), hclause⟩

end CobolSymbols
