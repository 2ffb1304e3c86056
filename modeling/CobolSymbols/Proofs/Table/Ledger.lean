import CobolSymbols.Proofs.FlagSet
import CobolSymbols.Proofs.Name.Domain
import CobolSymbols.Proofs.Slot
import CobolSymbols.Proofs.Table.Extends

/-!
# What a table keeps about a symbol

A symbol is entered into other symbols, can be found by name, holds a slot among all variables and is marked when it is
removed. The ledger of a table tells all of this for each symbol. Every elementary change of a table changes the ledger
of one symbol at most.
-/

set_option autoImplicit false

namespace CobolSymbols

open List Symbol

theorem SymbolFlags.storage?_congr {a b : SymbolFlags} (h : ∀ s : StorageSection, a.has s.flag = b.has s.flag) :
    a.storage? = b.storage? := by
  unfold SymbolFlags.storage?
  congr 1
  funext s
  exact h s

/-- Whether a flag tells the storage section of an item or that a symbol is removed. -/
def SymbolFlag.tellsPlace : SymbolFlag → Bool
  | .removed | .workingStorage | .linkage | .localStorage | .fileSection | .globalStorage => true
  | _ => false

theorem StorageSection.tellsPlace_flag (s : StorageSection) : s.flag.tellsPlace = true := by cases s <;> rfl

namespace SymbolFlags

/-- Flags that tell neither a storage section nor that a symbol is removed. -/
abbrev Neutral (flags : SymbolFlags) : Prop := flags.Avoids SymbolFlag.tellsPlace

theorem neutral_restrictions : Neutral restrictions :=
  avoids_ofList [.strongType, .strictType, .weakType] (by decide)

end SymbolFlags

theorem count_one (id x : SymbolId) : List.count x [id] = if x = id then 1 else 0 := by
  by_cases hx : x = id
  · simp [hx]
  · rw [if_neg hx, count_eq_zero]
    simp [hx]

theorem Domain.count_lookup_enter (d : Domain SymbolId) (name key : String) (id x : SymbolId) :
    ((d.enter name id).lookup key).count x = (d.lookup key).count x + if key = name ∧ x = id then 1 else 0 := by
  rw [Domain.lookup_enter]
  by_cases hkey : key = name
  · subst hkey
    simp [count_one]
  · simp [hkey]

theorem Scopes.count_members_enter (scopes : Scopes) (slot : ScopeSlot) (name : String) (id x : SymbolId) :
    (scopes.modify slot fun scope => scope.enter name id).members.count x =
      scopes.members.count x + if x = id then 1 else 0 := by
  cases slot <;>
    simp only [members, Labelled.all, flatMap_cons, flatMap_nil, get, modify, Scope.enter, append_nil,
      count_append, count_one] <;> omega

namespace Symbol

variable {s : Symbol} {f : ProgramData → ProgramData} {slot : ScopeSlot}

/-- The symbols in the scopes of a symbol, refused programs included. -/
def members (s : Symbol) : List SymbolId :=
  match s.body with
  | .root scopes | .namespaceBody scopes => scopes.members
  | .program data | .procedure data => data.members
  | _ => []

/-- The symbols that are entered into a symbol. -/
def contents (s : Symbol) : List SymbolId := s.members ++ s.fieldList

/-- The slot of a data item among all variables. -/
def slot? (s : Symbol) : Option Nat := s.item?.bind (·.variableSlot)

/-- The part of a symbol that a ledger is made from. -/
def stance (s : Symbol) : List SymbolId × Option Nat × Bool × Option StorageSection :=
  (s.contents, s.slot?, s.isRemoved, s.flags.storage?)

theorem stance_setType {type : Option DataType}
    (h : ({ s with type } : Symbol).fieldList = s.fieldList) : ({ s with type } : Symbol).stance = s.stance := by
  have hcontents : ({ s with type } : Symbol).contents = s.contents := congrArg (s.members ++ ·) h
  simp only [stance, hcontents]
  rfl

section

variable (s)

theorem stance_mapType {f : DataType → DataType} (h : ∀ type, (f type).fields? = type.fields?) :
    ({ s with type := s.type.map f } : Symbol).stance = s.stance := by
  apply stance_setType
  unfold fieldList fields?
  cases s.type with
  | none => rfl
  | some type => simp [h]

theorem members_mapItem (f : ItemData → ItemData) : (s.mapItem f).members = s.members := by
  unfold mapItem members
  cases h : s.body <;> simp [h]

theorem contents_mapItem (f : ItemData → ItemData) : (s.mapItem f).contents = s.contents := by
  simp [contents, members_mapItem, fieldList, fields?]

theorem slot?_mapItem (f : ItemData → ItemData) :
    (s.mapItem f).slot? = s.item?.bind fun data => (f data).variableSlot := by
  unfold slot?
  rw [mapItem_item?]
  cases s.item? <;> rfl

theorem stance_mapItem {f : ItemData → ItemData} (h : ∀ data, (f data).variableSlot = data.variableSlot) :
    (s.mapItem f).stance = s.stance := by
  have hslot : (s.mapItem f).slot? = s.slot? := by
    rw [slot?_mapItem]
    simp only [h]
    rfl
  simp [stance, contents_mapItem, hslot, isRemoved]

theorem members_mapProgram (h : ∀ data, (f data).members = data.members) : (s.mapProgram f).members = s.members := by
  unfold mapProgram members
  cases hbody : s.body <;> simp [hbody, h]

theorem stance_mapProgram (h : ∀ data, (f data).members = data.members) : (s.mapProgram f).stance = s.stance := by
  simp [stance, contents, members_mapProgram s h, fieldList, fields?, slot?, isRemoved]

theorem stance_union {flags : SymbolFlags} (h : flags.Neutral) :
    ({ s with flags := s.flags ∪ flags } : Symbol).stance = s.stance := by
  have hremoved : (s.flags ∪ flags).has .removed = s.flags.has .removed := by simp [h .removed rfl]
  have hstorage : (s.flags ∪ flags).storage? = s.flags.storage? :=
    SymbolFlags.storage?_congr fun kept => by simp [h kept.flag kept.tellsPlace_flag]
  simp only [stance, isRemoved, hremoved, hstorage]
  rfl

theorem fieldList_mapScopes (f : Scopes → Scopes) : (s.mapScopes f).fieldList = s.fieldList := by
  unfold fieldList fields?
  rw [mapScopes_type]

theorem fieldList_mapProgram (f : ProgramData → ProgramData) : (s.mapProgram f).fieldList = s.fieldList := by
  unfold fieldList fields?
  rw [mapProgram_type]

end

theorem count_members_mapScopes (h : (s.scope? slot).isSome = true) (name : String) (id x : SymbolId) :
    (s.mapScopes fun scopes => scopes.modify slot fun scope => scope.enter name id).members.count x =
      s.members.count x + if x = id then 1 else 0 := by
  unfold scope? at h
  unfold mapScopes members
  cases hbody : s.body with
  | root scopes | namespaceBody scopes => exact Scopes.count_members_enter scopes slot name id x
  | program data | procedure data =>
    simp only [ProgramData.members, count_append, Scopes.count_members_enter]
    omega
  | item data => simp [hbody] at h
  | paragraph heading => simp [hbody] at h
  | heading => simp [hbody] at h

theorem count_contents_mapScopes (h : (s.scope? slot).isSome = true) (name : String) (id x : SymbolId) :
    (s.mapScopes fun scopes => scopes.modify slot fun scope => scope.enter name id).contents.count x =
      s.contents.count x + if x = id then 1 else 0 := by
  simp only [contents, count_append, count_members_mapScopes h, fieldList_mapScopes]
  omega

theorem count_contents_mapFields (h : s.fields?.isSome = true) (name : String) (id x : SymbolId) :
    ({ s with type := s.type.map (DataType.mapFields fun scope => scope.enter name id) } : Symbol).contents.count x =
      s.contents.count x + if x = id then 1 else 0 := by
  obtain ⟨scope, hscope⟩ := Option.isSome_iff_exists.mp h
  obtain ⟨type, htype, hfields⟩ := Option.bind_eq_some_iff.mp hscope
  have hold : s.fieldList = scope.order := by simp [fieldList, hscope]
  have hnew : ({ s with type := s.type.map (DataType.mapFields fun scope => scope.enter name id) } : Symbol).fieldList =
      scope.order ++ [id] := by
    simp [fieldList, fields?, htype, hfields, Scope.enter]
  simp only [contents, count_append, hold, hnew, count_one]
  rw [← Nat.add_assoc]
  rfl

/-- A program or procedure that refuses a program lists it. -/
theorem count_contents_addDuplicate (h : s.kind.isProgramLike = true) (id x : SymbolId) :
    (s.mapProgram fun data => { data with duplicates := data.duplicates ++ [id] }).contents.count x =
      s.contents.count x + if x = id then 1 else 0 := by
  rw [← isSome_program?] at h
  unfold program? at h
  simp only [contents, count_append, fieldList_mapProgram]
  unfold mapProgram members
  cases hbody : s.body with
  | program data | procedure data =>
    simp only [ProgramData.members, count_append, count_one]
    omega
  | _ => simp [hbody] at h

end Symbol

/-- What a table keeps about one symbol. -/
structure Ledger where
  /-- How often the symbol is entered into each of the others. -/
  listed : SymbolId → Nat
  slot : Option Nat
  /-- How often the symbol is found among the types of a name. -/
  types : String → Nat
  /-- How often the symbol is found among the programs and procedures of a name. -/
  programs : String → Nat
  removed : Bool
  storage : Option StorageSection

/-- The ledger of a symbol of which nothing is known. -/
def Ledger.blank : Ledger := ⟨fun _ => 0, none, fun _ => 0, fun _ => 0, false, none⟩

/-- The ledger of a symbol that is entered once more. -/
def Ledger.list (l : Ledger) (container : SymbolId) : Ledger :=
  { l with listed := fun c => l.listed c + if c = container then 1 else 0 }

namespace Table

variable {t t' : Table} {id : SymbolId} {f : Symbol → Symbol} {s : Symbol}

/-- The ledger of a symbol. -/
def ledger (t : Table) (id : SymbolId) : Ledger where
  listed c := (t.get c).contents.count id
  slot := (t.get id).slot?
  types name := (t.lookupType name).count id
  programs name := (t.lookupProgram name).count id
  removed := (t.get id).isRemoved
  storage := (t.get id).flags.storage?

theorem ledger_congr (hstance : ∀ id, (t'.get id).stance = (t.get id).stance) (htypes : t'.types = t.types)
    (hprogs : t'.programs = t.programs) : t'.ledger = t.ledger := by
  funext id
  have hcontents : ∀ c, (t'.get c).contents = (t.get c).contents := fun c => congrArg (·.1) (hstance c)
  have hslot : (t'.get id).slot? = (t.get id).slot? := congrArg (·.2.1) (hstance id)
  have hremoved : (t'.get id).isRemoved = (t.get id).isRemoved := congrArg (·.2.2.1) (hstance id)
  have hstorage : (t'.get id).flags.storage? = (t.get id).flags.storage? := congrArg (·.2.2.2) (hstance id)
  simp only [ledger, lookupType, lookupProgram, hcontents, hslot, hremoved, hstorage, htypes, hprogs]

theorem contents_alloc (hs : s.contents = []) (id : SymbolId) :
    ((t.alloc s).2.get id).contents = (t.get id).contents := by
  rw [get_alloc]
  split
  · rename_i hid
    rw [hid, hs, get_of_size_le le_rfl]
    rfl
  · rfl

/-- Making a symbol that holds nothing changes the ledger of no other. -/
theorem ledger_alloc_of_ne (hs : s.contents = []) (hid : id ≠ t.size) : (t.alloc s).2.ledger id = t.ledger id := by
  simp only [ledger, contents_alloc hs, get_alloc_of_ne s hid]
  rfl

theorem ledger_alloc_self (hs : s.contents = []) : (t.alloc s).2.ledger t.size =
    { t.ledger t.size with slot := s.slot?, removed := s.isRemoved, storage := s.flags.storage? } := by
  simp only [ledger, contents_alloc hs, get_alloc_self]
  rfl

/-- A change of one symbol that adds `id` to its contents. -/
theorem ledger_modify_contents {owner : SymbolId} (howner : owner < t.size)
    (hcount : ∀ x, (f (t.get owner)).contents.count x = (t.get owner).contents.count x + if x = id then 1 else 0)
    (hslot : (f (t.get owner)).slot? = (t.get owner).slot?) (hflags : (f (t.get owner)).flags = (t.get owner).flags)
    (x : SymbolId) : (t.modify owner f).ledger x = if x = id then Ledger.list (t.ledger x) owner else t.ledger x := by
  have hslot' := view_modify Symbol.slot? hslot x
  have hflags' := view_modify Symbol.flags hflags x
  have hlisted : ∀ c, ((t.modify owner f).get c).contents.count x =
      (t.get c).contents.count x + if c = owner ∧ x = id then 1 else 0 := by
    intro c
    by_cases hc : c = owner
    · rw [hc, get_modify_self f howner, hcount]
      simp
    · rw [get_modify_of_ne f hc]
      simp [hc]
  simp only [ledger, Symbol.isRemoved, hlisted, hslot', hflags']
  by_cases hx : x = id
  · simp only [hx, and_true, if_true, Ledger.list]
    rfl
  · simp only [hx, and_false, if_false, Nat.add_zero]
    rfl

theorem ledger_enter {ref : ScopeRef} (h : (t.scope? ref).isSome = true) (id x : SymbolId) :
    (t.enter ref id).ledger x = if x = id then Ledger.list (t.ledger x) ref.owner else t.ledger x := by
  have howner := lt_size_of_scope? h
  cases ref with
  | slot owner slot =>
    have hscope : ((t.get owner).scope? slot).isSome = true := h
    obtain ⟨scope, hsome⟩ := Option.isSome_iff_exists.mp hscope
    rw [enter_slot, hsome]
    refine ledger_modify_contents howner ?_ ?_ ?_ x
    · exact count_contents_mapScopes hscope (t.name id) id
    · simp [Symbol.slot?]
    · simp
  | fields owner =>
    rw [enter_fields]
    exact ledger_modify_contents howner (count_contents_mapFields h (t.name id) id) rfl rfl x

/-- A program that is refused is listed by the program that it lies in. -/
theorem ledger_addDuplicate {program : SymbolId} (h : (t.get program).kind.isProgramLike = true) (id x : SymbolId) :
    (t.modify program (Symbol.mapProgram fun data => { data with duplicates := data.duplicates ++ [id] })).ledger x =
      if x = id then Ledger.list (t.ledger x) program else t.ledger x := by
  have hlt : program < t.size := lt_size_of_isProgramLike h
  refine ledger_modify_contents hlt (count_contents_addDuplicate h id) ?_ ?_ x
  · simp [Symbol.slot?]
  · simp

theorem ledger_registerType (t : Table) (id x : SymbolId) : (t.registerType id).ledger x =
    if x = id then { t.ledger x with types := fun name => (t.ledger x).types name + if name = t.name id then 1 else 0 }
    else t.ledger x := by
  have hcount : ∀ name, ((t.registerType id).lookupType name).count x =
      (t.lookupType name).count x + if name = t.name id ∧ x = id then 1 else 0 := fun name =>
    Domain.count_lookup_enter t.types (t.name id) name id x
  simp only [ledger, hcount]
  by_cases hx : x = id <;> simp [hx, lookupProgram, registerType, get]

theorem ledger_registerProgram (t : Table) (id x : SymbolId) : (t.registerProgram id).ledger x =
    if x = id then
      { t.ledger x with programs := fun name => (t.ledger x).programs name + if name = t.name id then 1 else 0 }
    else t.ledger x := by
  have hcount : ∀ name, ((t.registerProgram id).lookupProgram name).count x =
      (t.lookupProgram name).count x + if name = t.name id ∧ x = id then 1 else 0 := fun name =>
    Domain.count_lookup_enter t.programs (t.name id) name id x
  simp only [ledger, hcount]
  by_cases hx : x = id <;> simp [hx, lookupType, registerProgram, get]

/-- The slot of an item that gets one is the index that the slot table tells. -/
theorem slot?_addVariable (h : (t.get id).kind.isItem = true) (x : SymbolId) :
    ((t.addVariable id).2.get x).slot? = if x = id then some (t.slots.insert id).1 else (t.get x).slot? := by
  rw [← isSome_item?] at h
  obtain ⟨data, hdata⟩ := Option.isSome_iff_exists.mp h
  rw [addVariable_get]
  by_cases hx : x = id
  · have hlt : id < t.size := by
      apply lt_size_of_get_ne
      intro hdefault
      rw [hdefault] at hdata
      cases hdata
    rw [hx, get_modify_self _ hlt, slot?_mapItem, hdata]
    simp
  · rw [get_modify_of_ne _ hx, if_neg hx]

theorem ledger_addVariable (h : (t.get id).kind.isItem = true) (x : SymbolId) :
    (t.addVariable id).2.ledger x =
      if x = id then { t.ledger x with slot := some (t.slots.insert id).1 } else t.ledger x := by
  have hcontents : ∀ c, ((t.addVariable id).2.get c).contents = (t.get c).contents := by
    intro c
    rw [addVariable_get]
    exact view_modify Symbol.contents (contents_mapItem _ _) c
  have hflags : ((t.addVariable id).2.get x).flags = (t.get x).flags := by
    rw [addVariable_get]
    exact view_modify Symbol.flags (mapItem_flags _ _) x
  simp only [ledger, hcontents, slot?_addVariable h, Symbol.isRemoved, hflags]
  by_cases hx : x = id <;> simp [hx, lookupType, lookupProgram, addVariable, modify]

/-- The slots of the table and those that items keep are the same. -/
structure SlotsAgree (t : Table) : Prop where
  inOrder : t.slots.InOrder
  slot_iff : ∀ index id, t.slots.get? index = some id ↔ (t.get id).slot? = some index

theorem SlotsAgree.congr (h : t.SlotsAgree) (hslots : t'.slots = t.slots)
    (hsame : ∀ id, (t'.get id).slot? = (t.get id).slot?) : t'.SlotsAgree where
  inOrder := by
    rw [hslots]
    exact h.inOrder
  slot_iff index id := by
    rw [hslots, hsame]
    exact h.slot_iff index id

/-- An item without a slot gets one that nothing else holds. -/
theorem SlotsAgree.addVariable (h : t.SlotsAgree) (hitem : (t.get id).kind.isItem = true)
    (hnone : (t.get id).slot? = none) : (t.addVariable id).2.SlotsAgree where
  inOrder := h.inOrder.insert id
  slot_iff index x := by
    have hslots : (t.addVariable id).2.slots = (t.slots.insert id).2 := rfl
    have hempty := SlotTable.get?_insert_fst h.inOrder id
    rw [hslots, SlotTable.get?_insert h.inOrder, slot?_addVariable hitem]
    have hold := h.slot_iff index x
    by_cases hx : x = id
    · subst hx
      by_cases hindex : index = (t.slots.insert x).1
      · simp [hindex]
      · have hne : (t.slots.insert x).1 ≠ index := fun h => hindex h.symm
        simp [hindex, hne, hold, hnone]
    · by_cases hindex : index = (t.slots.insert id).1
      · rw [hindex, hempty] at hold
        simp only [hindex, if_true, if_neg hx, ← hold, Option.some.injEq]
        exact ⟨fun h => absurd h.symm hx, nofun⟩
      · simp [hindex, hx, hold]

end Table

end CobolSymbols
