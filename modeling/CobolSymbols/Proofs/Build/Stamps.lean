import CobolSymbols.Proofs.Build.Binding
import CobolSymbols.Proofs.Build.Growth
import CobolSymbols.Proofs.Build.Indexed

/-!
# What a symbol is stamped with when it is made

A symbol is stamped with its name, its owner, its kind, the item that it is an index of, the procedure section that it
stands in as a paragraph, and its marks: the flags that tell its storage section and whether it is global. Nothing that
happens to it later changes its stamp.

Programs and procedures keep a stock of items: the lists of their scopes and their domain. Most changes of declarations
are quiet: they change no stamp and no stock, open and close nothing, and make no symbol.
-/

set_option autoImplicit false

namespace CobolSymbols

open List Option Symbol Table

/-- Whether a flag tells the storage section of an item or that the item is global. -/
def SymbolFlag.isMark : SymbolFlag → Bool
  | .global | .workingStorage | .linkage | .localStorage | .fileSection | .globalStorage => true
  | _ => false

theorem StorageSection.isMark_flag (s : StorageSection) : s.flag.isMark = true := by cases s <;> rfl

namespace SymbolFlags

/-- Flags without a mark. -/
abbrev Unmarked (flags : SymbolFlags) : Prop := flags.Avoids SymbolFlag.isMark

theorem Avoids.unmarked {flags : SymbolFlags} (h : flags.Avoids fun f => !f.tellsPassing) : flags.Unmarked :=
  h.mono fun f hf => by cases f <;> first | rfl | cases hf

end SymbolFlags

namespace Symbol

variable {s s' : Symbol} {f : ProgramData → ProgramData}

/-- The procedure section that a paragraph stands in. -/
def heading? (s : Symbol) : Option SymbolId :=
  match s.body with
  | .paragraph heading => heading
  | _ => none

theorem heading?_mapItem (s : Symbol) (f : ItemData → ItemData) : (s.mapItem f).heading? = s.heading? := by
  unfold mapItem heading?
  cases hbody : s.body <;> simp [hbody]

theorem heading?_mapProgram (s : Symbol) (f : ProgramData → ProgramData) : (s.mapProgram f).heading? = s.heading? := by
  unfold mapProgram heading?
  cases hbody : s.body <;> simp [hbody]

theorem heading?_mapScopes (s : Symbol) (f : Scopes → Scopes) : (s.mapScopes f).heading? = s.heading? := by
  unfold mapScopes heading?
  cases hbody : s.body <;> simp [hbody]

/-- What is settled about a symbol when it is made. -/
structure Stamp where
  name : String
  owner : Option SymbolId
  kind : SymbolKind
  indexed : Option SymbolId
  heading : Option SymbolId
  marks : SymbolFlag → Bool

/-- The stamp of a symbol. -/
def stamp (s : Symbol) : Stamp :=
  ⟨s.name, s.owner, s.kind, s.indexed?, s.heading?, fun f => f.isMark && s.flags.has f⟩

/-- The items of a program or procedure by name. -/
def domain (s : Symbol) : Domain SymbolId := (s.program?.map ProgramData.domain).getD {}

/-- The symbols in a slot in order. -/
def listing (s : Symbol) (slot : ScopeSlot) : List SymbolId := ((s.scope? slot).map Scope.order).getD []

/-- The lists that a symbol keeps of others. -/
def stock (s : Symbol) : Domain SymbolId × (ScopeSlot → List SymbolId) := (s.domain, s.listing)

/-- How a symbol is connected tells its stamp, except for the section of a paragraph and the marks. -/
theorem stamp_of_itemView (hview : s'.itemView = s.itemView) (hheading : s'.heading? = s.heading?)
    (hmarks : ∀ f : SymbolFlag, f.isMark = true → s'.flags.has f = s.flags.has f) : s'.stamp = s.stamp := by
  have hname : s'.name = s.name := congrArg ItemView.name hview
  have howner : s'.owner = s.owner := congrArg ItemView.owner hview
  have hkind : s'.kind = s.kind := congrArg ItemView.kind hview
  have hindexed : s'.indexed? = s.indexed? := congrArg ItemView.indexed hview
  have hflags : (fun f : SymbolFlag => f.isMark && s'.flags.has f) = fun f => f.isMark && s.flags.has f := by
    funext f
    cases hf : f.isMark with
    | false => rfl
    | true => rw [hmarks f hf]
  simp only [stamp, hname, howner, hkind, hindexed, hheading, hflags]

theorem stamp_mapProgram (s : Symbol) (f : ProgramData → ProgramData) : (s.mapProgram f).stamp = s.stamp :=
  stamp_of_itemView (itemView_mapProgram s f) (heading?_mapProgram s f) fun _ _ => by rw [mapProgram_flags]

theorem stamp_mapScopes (s : Symbol) (f : Scopes → Scopes) : (s.mapScopes f).stamp = s.stamp :=
  stamp_of_itemView (itemView_mapScopes s f) (heading?_mapScopes s f) fun _ _ => by rw [mapScopes_flags]

/-- Flags without a mark change no stamp. -/
theorem stamp_addFlags (s : Symbol) {flags : SymbolFlags} (h : flags.Unmarked) : (s.addFlags flags).stamp = s.stamp := by
  refine stamp_of_itemView rfl rfl fun f hf => ?_
  have hflags : (s.addFlags flags).flags = s.flags ∪ flags := rfl
  rw [hflags, FlagSet.has_union, h f hf, Bool.or_false]

theorem listing_congr (h : s'.scope? = s.scope?) : s'.listing = s.listing := by
  unfold listing
  rw [h]

theorem listing_mapProgram (s : Symbol) (h : ∀ data, (f data).scopes = data.scopes) :
    (s.mapProgram f).listing = s.listing := listing_congr (scope?_mapProgram s h)

theorem domain_mapScopes (s : Symbol) (f : Scopes → Scopes) : (s.mapScopes f).domain = s.domain := by
  unfold domain
  rw [mapScopes_program?]
  cases s.program? <;> rfl

theorem stock_of_body (h : s'.body = s.body) : s'.stock = s.stock := by
  have hscope : s'.scope? = s.scope? := by
    funext slot
    unfold scope?
    rw [h]
  simp only [stock, domain, program?, listing_congr hscope, h]

theorem stock_mapItem (s : Symbol) (f : ItemData → ItemData) : (s.mapItem f).stock = s.stock := by
  simp only [stock, domain, mapItem_program?, listing_congr (scope?_mapItem s f)]

theorem stock_mapProgram (s : Symbol) (hscopes : ∀ data, (f data).scopes = data.scopes)
    (hdomain : ∀ data, (f data).domain = data.domain) : (s.mapProgram f).stock = s.stock := by
  have hsame : (s.mapProgram f).domain = s.domain := by
    unfold domain
    rw [mapProgram_program?]
    cases s.program? with
    | none => rfl
    | some data => exact hdomain data
  rw [stock, hsame, listing_mapProgram s hscopes]
  rfl

/-- Items keep no lists. -/
theorem stock_of_isItem (h : s.kind.isItem = true) : s.stock = ({}, fun _ => []) := by
  have hprog : s.program? = none := by
    rw [← not_isSome_iff_eq_none, isSome_program?]
    cases hkind : s.kind <;> simp [hkind, SymbolKind.isItem, SymbolKind.isProgramLike] at h ⊢
  have hscope : ∀ slot, s.scope? slot = none := by
    intro slot
    rw [← not_isSome_iff_eq_none, isSome_scope?]
    cases hkind : s.kind <;> simp [hkind, SymbolKind.isItem, SymbolKind.hasScope] at h ⊢
  simp only [stock, domain, hprog]
  unfold listing
  simp [hscope]

theorem listing_sublist (s : Symbol) (slot : ScopeSlot) : (s.listing slot).Sublist s.contents := by
  have hmembers : ∀ scopes : Scopes, (scopes.get slot).order.Sublist scopes.members := by
    intro scopes
    unfold Scopes.members
    rw [flatMap_def]
    exact sublist_flatten_of_mem (List.mem_map.mpr ⟨slot, by cases slot <;> decide, rfl⟩)
  refine Sublist.trans ?_ (sublist_append_left s.members s.fieldList)
  unfold listing scope? members
  cases s.body with
  | root scopes | namespaceBody scopes =>
    refine Sublist.trans ?_ (hmembers scopes)
    cases slot <;> first | exact Sublist.refl _ | exact nil_sublist _
  | program data | procedure data =>
    refine Sublist.trans ?_ ((hmembers data.scopes).trans (sublist_append_left _ _))
    cases slot <;> first | exact Sublist.refl _ | exact nil_sublist _
  | _ => exact nil_sublist _

end Symbol

namespace Table

/-- The symbols in a slot of a symbol, in order. -/
def listed (t : Table) (owner : SymbolId) (slot : ScopeSlot) : List SymbolId := (t.get owner).listing slot

/-- The items of a program or procedure that bear a name. -/
def bearers (t : Table) (program : SymbolId) (name : String) : List SymbolId := (t.get program).domain.lookup name

section Stamps

variable {t t' : Table} {id : SymbolId}

/-- The stamp of a symbol is the same in two tables. -/
def SameStamp (t t' : Table) (id : SymbolId) : Prop := (t'.get id).stamp = (t.get id).stamp

variable (h : t.SameStamp t' id)
include h

theorem SameStamp.name : (t'.get id).name = (t.get id).name := congrArg Stamp.name h

theorem SameStamp.owner : (t'.get id).owner = (t.get id).owner := congrArg Stamp.owner h

theorem SameStamp.kind : (t'.get id).kind = (t.get id).kind := congrArg Stamp.kind h

theorem SameStamp.indexed? : (t'.get id).indexed? = (t.get id).indexed? :=
  congrArg Stamp.indexed h

theorem SameStamp.heading? : (t'.get id).heading? = (t.get id).heading? :=
  congrArg Stamp.heading h

theorem SameStamp.has {f : SymbolFlag} (hf : f.isMark = true) : (t'.get id).flags.has f = (t.get id).flags.has f := by
  have hmark : (f.isMark && (t'.get id).flags.has f) = (f.isMark && (t.get id).flags.has f) :=
    congrFun (congrArg Stamp.marks h) f
  rw [hf, Bool.true_and, Bool.true_and] at hmark
  exact hmark

theorem SameStamp.ownedBy_iff {owner : SymbolId} : t'.OwnedBy id owner ↔ t.OwnedBy id owner := by
  unfold OwnedBy
  rw [h.owner]

theorem SameStamp.isItem_iff : t'.IsItem id ↔ t.IsItem id := by
  unfold IsItem
  rw [h.kind]

theorem SameStamp.isType_iff : t'.IsType id ↔ t.IsType id := by
  unfold IsType
  rw [h.kind]

end Stamps

end Table

namespace Declarations

/-- What is open, and the sections being read. -/
structure Mode where
  scopes : List SymbolId
  openPrograms : List SymbolId
  storage : Option StorageSection
  heading : Option SymbolId

/-- What is open while a unit is read. -/
def mode (d : Declarations) : Mode := ⟨d.scopes, d.openPrograms, d.storage, d.heading⟩

/-- A change that opens and closes nothing and keeps the stamps of all symbols. -/
structure Stamped (d d' : Declarations) : Prop where
  mode : d'.mode = d.mode
  size_le : d.table.size ≤ d'.table.size
  stamp : ∀ id, id < d.table.size → d.table.SameStamp d'.table id

/-- A change that makes no symbol and changes no stamp and no stock. -/
structure Quiet (d d' : Declarations) : Prop where
  mode : d'.mode = d.mode
  size_eq : d'.table.size = d.table.size
  stamp : ∀ id, d.table.SameStamp d'.table id
  stock : ∀ id, (d'.table.get id).stock = (d.table.get id).stock

variable {d d' d'' : Declarations} {id : SymbolId} {typeBody : Option SymbolId}

section Mode

theorem currentScope_of_mode (h : d'.mode = d.mode) : d'.currentScope = d.currentScope :=
  congrArg (fun mode : Mode => mode.scopes.head?) h

theorem storage_of_mode (h : d'.mode = d.mode) : d'.storage = d.storage := congrArg Mode.storage h

end Mode

theorem Stamped.trans (h : Stamped d d') (h' : Stamped d' d'') : Stamped d d'' where
  mode := h'.mode.trans h.mode
  size_le := h.size_le.trans h'.size_le
  stamp id hid := (h'.stamp id (hid.trans_le h.size_le)).trans (h.stamp id hid)

theorem Quiet.refl (d : Declarations) : Quiet d d := ⟨rfl, rfl, fun _ => rfl, fun _ => rfl⟩

theorem Quiet.trans (h : Quiet d d') (h' : Quiet d' d'') : Quiet d d'' where
  mode := h'.mode.trans h.mode
  size_eq := h'.size_eq.trans h.size_eq
  stamp id := (h'.stamp id).trans (h.stamp id)
  stock id := (h'.stock id).trans (h.stock id)

theorem Quiet.stamped (h : Quiet d d') : Stamped d d' :=
  ⟨h.mode, h.size_eq.symm.le, fun id _ => h.stamp id⟩

theorem Quiet.listed (h : Quiet d d') (owner : SymbolId) (slot : ScopeSlot) :
    d'.table.listed owner slot = d.table.listed owner slot :=
  congrFun (congrArg Prod.snd (h.stock owner)) slot

theorem Quiet.bearers (h : Quiet d d') (program : SymbolId) (name : String) :
    d'.table.bearers program name = d.table.bearers program name :=
  congrArg (fun domain : Domain SymbolId => domain.lookup name) (congrArg Prod.fst (h.stock program))

section Quiet

variable (entry : DataEntry)

theorem quiet_of_table (hmode : d'.mode = d.mode) (htable : d'.table = d.table) : Quiet d d' := by
  refine ⟨hmode, congrArg Table.size htable, fun id => ?_, fun id => ?_⟩
  · unfold SameStamp
    rw [htable]
  · rw [htable]

theorem modify_quiet {f : Symbol → Symbol} (hstamp : ∀ s, (f s).stamp = s.stamp) (hstock : ∀ s, (f s).stock = s.stock) :
    Quiet d (d.modify id f) where
  mode := rfl
  size_eq := size_modify d.table id f
  stamp := view_modify Symbol.stamp (hstamp _)
  stock := view_modify Symbol.stock (hstock _)

theorem setType_quiet (type : DataType) : Quiet d (d.setType id type) :=
  modify_quiet (fun _ => rfl) fun _ => stock_of_body rfl

theorem addFlags_quiet (d : Declarations) (id : SymbolId) {flags : SymbolFlags} (h : flags.Unmarked) :
    Quiet d (d.addFlags id flags) :=
  modify_quiet (fun s => s.stamp_addFlags h) fun _ => stock_of_body rfl

theorem setSignature_quiet (signature : Signature) : Quiet d (d.setSignature id signature) :=
  modify_quiet (fun _ => rfl) fun _ => stock_of_body rfl

theorem queueTyped_quiet (typeBody : Option SymbolId) : Quiet d (d.queueTyped id typeBody) := by
  cases typeBody with
  | none => exact quiet_of_table rfl rfl
  | some type =>
    refine modify_quiet (fun s => ?_) fun s => s.stock_mapItem _
    exact stamp_of_itemView (s.itemView_addTypedItem id) (s.heading?_mapItem _) fun _ _ => by
      rw [mapItem_flags]

theorem queueDependent_quiet (typeBody : Option SymbolId) : Quiet d (d.queueDependent id typeBody) := by
  refine quiet_of_table ?_ (queueDependent_table d id typeBody)
  unfold queueDependent
  cases typeBody with
  | none => rfl
  | some type =>
    simp only
    split <;> rfl

theorem elementaryType_quiet : Quiet d (d.elementaryType entry).2 := by
  refine quiet_of_table ?_ (elementaryType_table entry)
  unfold elementaryType
  split
  · rfl
  · split <;> rfl

theorem setElementary_quiet (typeBody : Option SymbolId) : Quiet d (d.setElementary id entry typeBody) := by
  have hfirst : Quiet d (d.elementaryType entry).2 := elementaryType_quiet entry
  unfold setElementary
  split
  · rename_i type d' heq
    rw [heq] at hfirst
    exact hfirst.trans (setType_quiet type)
  · rename_i d' heq
    rw [heq] at hfirst
    refine hfirst.trans ?_
    split
    · exact (setType_quiet _).trans (queueTyped_quiet typeBody)
    · exact quiet_of_table rfl (Context.told_reportAt _ _ rfl _).table

theorem setLeading_quiet : Quiet d (d.setLeading id entry) :=
  (elementaryType_quiet entry).trans (modify_quiet (fun _ => rfl) fun _ => stock_of_body rfl)

theorem wrapArray_quiet (typeBody : Option SymbolId) : Quiet d (d.wrapArray id entry typeBody) := by
  unfold wrapArray
  split
  · split
    · exact Quiet.refl d
    · simp only
      split
      · exact (setType_quiet _).trans (queueDependent_quiet typeBody)
      · exact setType_quiet _
  · exact Quiet.refl d

theorem clearRenames_quiet : Quiet d d.clearRenames := quiet_of_table rfl rfl

theorem Checks.quiet (h : Checks d d') : Quiet d d' := by
  induction h with
  | refl => exact Quiet.refl d
  | report _ c htold ih => exact ih.trans (quiet_of_table rfl htold.table)
  | range _ pair _ range ih =>
    refine ih.trans (modify_quiet (fun s => ?_) fun s => s.stock_mapItem _)
    have hview := s.itemView_mapItem _ (ItemData.setRange_level range) (ItemData.setRange_core range)
    exact stamp_of_itemView hview (s.heading?_mapItem _) fun _ _ => by rw [mapItem_flags]

theorem addVariable_quiet : Quiet d (d.mapTable fun t => (t.addVariable id).2) where
  mode := rfl
  size_eq := size_addVariable d.table id
  stamp other := by
    have hget : (d.mapTable fun t => (t.addVariable id).2).table.get other = _ := addVariable_get d.table id other
    refine stamp_of_itemView (itemView_addVariable id) ?_ fun f _ => ?_
    · rw [hget]
      exact view_modify Symbol.heading? (heading?_mapItem _ _) other
    · rw [hget]
      exact congrArg (fun flags : SymbolFlags => flags.has f)
        (view_modify Symbol.flags (mapItem_flags _ _) other)
  stock other := by
    have hget : (d.mapTable fun t => (t.addVariable id).2).table.get other = _ := addVariable_get d.table id other
    rw [hget]
    exact view_modify Symbol.stock (stock_mapItem _ _) other

theorem registerType_quiet : Quiet d (d.registerType id) := ⟨rfl, rfl, fun _ => rfl, fun _ => rfl⟩

theorem registerProgram_quiet : Quiet d (d.registerProgram id) := ⟨rfl, rfl, fun _ => rfl, fun _ => rfl⟩

/-- Entering a field changes the type of its group. -/
theorem enterIn_fields_quiet (group : SymbolId) : Quiet d (d.enterIn id (some (.fields group))) := by
  have htable : (d.enterIn id (some (.fields group))).table = _ := enter_fields d.table group id
  refine ⟨rfl, ?_, fun v => ?_, fun v => ?_⟩
  · rw [htable, size_modify]
  · rw [SameStamp, htable]
    exact view_modify Symbol.stamp rfl v
  · rw [htable]
    exact view_modify Symbol.stock (stock_of_body rfl) v

end Quiet

section Stocking

theorem listed_enterIn_slot (id owner : SymbolId) (other : ScopeSlot) (p : SymbolId) (slot : ScopeSlot) :
    (d.enterIn id (some (.slot owner other))).table.listed p slot = d.table.listed p slot ++
      if p = owner ∧ slot = other ∧ ((d.table.get owner).scope? other).isSome = true then [id] else [] := by
  have htable : (d.enterIn id (some (.slot owner other))).table = d.table.enter (.slot owner other) id := rfl
  rw [Table.listed, htable, enter_slot]
  cases hscope : (d.table.get owner).scope? other with
  | none => simp [Table.listed]
  | some scope =>
    have hsome : (d.table.scope? (.slot owner other)).isSome = true := isSome_iff_exists.mpr ⟨scope, hscope⟩
    have howner : owner < d.table.size := lt_size_of_scope? hsome
    simp only [get_modify]
    by_cases hp : p = owner
    · subst hp
      rw [if_pos ⟨rfl, howner⟩]
      unfold Symbol.listing
      rw [scope?_mapScopes]
      by_cases hslot : slot = other
      · subst hslot
        simp [hscope, Table.listed, Symbol.listing, Scope.enter]
      · simp [hslot, Table.listed, Symbol.listing]
    · simp [hp, Table.listed]

theorem mem_listed_enterIn {parent : Option ScopeRef} {p v : SymbolId} {slot : ScopeSlot}
    (h : v ∈ (d.enterIn id parent).table.listed p slot) :
    v ∈ d.table.listed p slot ∨ parent = some (.slot p slot) ∧ v = id := by
  cases parent with
  | none => exact .inl h
  | some ref =>
    cases ref with
    | fields group =>
      left
      rwa [(enterIn_fields_quiet group).listed] at h
    | slot owner other =>
      rw [listed_enterIn_slot, mem_append] at h
      refine h.imp_right fun h => ?_
      split at h
      · rename_i hp
        exact ⟨by rw [hp.1, hp.2.1], mem_singleton.mp h⟩
      · cases h

section

variable (id)

theorem listed_subset_enterIn (parent : Option ScopeRef) (p : SymbolId) (slot : ScopeSlot) :
    d.table.listed p slot ⊆ (d.enterIn id parent).table.listed p slot := by
  cases parent with
  | none => exact List.Subset.refl _
  | some ref =>
    cases ref with
    | fields group =>
      rw [(enterIn_fields_quiet group).listed]
      exact List.Subset.refl _
    | slot owner other =>
      rw [listed_enterIn_slot]
      exact subset_append_left _ _

theorem enterIn_mode (parent : Option ScopeRef) : (d.enterIn id parent).mode = d.mode := by
  cases parent <;> rfl

theorem size_enterIn (parent : Option ScopeRef) : (d.enterIn id parent).table.size = d.table.size := by
  cases parent with
  | none => rfl
  | some ref => exact size_enter d.table ref id

theorem enterIn_stamp (parent : Option ScopeRef) (other : SymbolId) :
    d.table.SameStamp (d.enterIn id parent).table other := by
  cases parent with
  | none => rfl
  | some ref =>
    cases ref with
    | fields group => exact (enterIn_fields_quiet group).stamp other
    | slot owner slot =>
      have htable : (d.enterIn id (some (.slot owner slot))).table = d.table.enter (.slot owner slot) id := rfl
      rw [htable, enter_slot]
      split
      · exact view_modify Symbol.stamp (stamp_mapScopes _ _) other
      · rfl

theorem bearers_enterIn (parent : Option ScopeRef) (p : SymbolId) (name : String) :
    (d.enterIn id parent).table.bearers p name = d.table.bearers p name := by
  cases parent with
  | none => rfl
  | some ref =>
    cases ref with
    | fields group => exact (enterIn_fields_quiet group).bearers p name
    | slot owner slot =>
      have htable : (d.enterIn id (some (.slot owner slot))).table = d.table.enter (.slot owner slot) id := rfl
      unfold Table.bearers
      rw [htable, enter_slot]
      split
      · rw [view_modify Symbol.domain (domain_mapScopes _ _) p]
      · rfl

theorem enterIn_stamped (parent : Option ScopeRef) : Stamped d (d.enterIn id parent) :=
  ⟨enterIn_mode id parent, (size_enterIn id parent).symm.le, fun other _ => enterIn_stamp id parent other⟩

theorem storeVariable_mode (typeBody : Option SymbolId) : (d.storeVariable id typeBody).mode = d.mode := by
  cases typeBody with
  | none =>
    have hdomain : (d.addToDomain id).mode = d.mode := by
      unfold addToDomain
      split <;> rfl
    exact hdomain
  | some type => rfl

end

theorem addToDomain_stamp (id other : SymbolId) : d.table.SameStamp (d.addToDomain id).table other := by
  unfold addToDomain
  split
  · exact view_modify Symbol.stamp (stamp_mapProgram _ _) other
  · rfl

theorem storeVariable_stamp (id : SymbolId) (typeBody : Option SymbolId) (other : SymbolId) :
    d.table.SameStamp (d.storeVariable id typeBody).table other := by
  cases typeBody with
  | none => exact (addVariable_quiet.stamp other).trans (addToDomain_stamp id other)
  | some type => rfl

theorem storeVariable_stamped (id : SymbolId) (typeBody : Option SymbolId) : Stamped d (d.storeVariable id typeBody) :=
  ⟨storeVariable_mode id typeBody, (size_storeVariable id typeBody).symm.le,
    fun other _ => storeVariable_stamp id typeBody other⟩

theorem listed_storeVariable (id : SymbolId) (typeBody : Option SymbolId) (p : SymbolId) (slot : ScopeSlot) :
    (d.storeVariable id typeBody).table.listed p slot = d.table.listed p slot := by
  cases typeBody with
  | some type => rfl
  | none =>
    have hdomain : (d.addToDomain id).table.listed p slot = d.table.listed p slot := by
      unfold addToDomain
      split
      · rename_i scope _
        have hview := view_modify Symbol.listing (t := d.table)
          (f := Symbol.mapProgram fun data => { data with domain := data.domain.enter (d.table.name id) id })
          (listing_mapProgram (d.table.get scope) fun _ => rfl) p
        exact congrFun hview slot
      · rfl
    exact (addVariable_quiet.listed p slot).trans hdomain

/-- Storing an item outside of types makes it an item of the current program. -/
theorem mem_bearers_storeVariable {scope : SymbolId} (hscope : d.currentScope = some scope)
    (hprog : (d.table.get scope).kind.isProgramLike = true) (id : SymbolId) (typeBody : Option SymbolId)
    (p : SymbolId) (name : String) (v : SymbolId) :
    v ∈ (d.storeVariable id typeBody).table.bearers p name ↔ v ∈ d.table.bearers p name ∨
      typeBody = none ∧ p = scope ∧ (d.table.get id).name = name ∧ v = id := by
  cases typeBody with
  | some type => simp [storeVariable]
  | none =>
    have hquiet : (d.storeVariable id none).table.bearers p name = (d.addToDomain id).table.bearers p name :=
      addVariable_quiet.bearers p name
    have hlt : scope < d.table.size := lt_size_of_isProgramLike hprog
    have htable : (d.addToDomain id).table = d.table.addToDomain scope id := by
      unfold addToDomain
      rw [hscope]
      rfl
    rw [hquiet, htable]
    unfold Table.bearers Table.addToDomain
    rw [get_modify]
    by_cases hp : p = scope
    · subst hp
      rw [if_pos ⟨rfl, hlt⟩]
      obtain ⟨data, hdata⟩ := isSome_iff_exists.mp ((isSome_program? _).trans hprog)
      simp only [Symbol.domain, mapProgram_program?, hdata, map_some, getD_some,
        Domain.lookup_enter, Table.name, true_and]
      split
      · rename_i hname
        simp [hname]
      · rename_i hname
        simp [Ne.symm hname]
    · rw [if_neg fun h => hp h.1]
      simp [hp]

end Stocking

end Declarations

end CobolSymbols
