import CobolSymbols.Proofs.Table.Ledger

/-!
# Tables that grow by settled symbols

When a declaration is complete, each symbol that it made is settled: it is entered into one scope or group, made before
it, or it is an item outside of every storage section, which is entered nowhere; it holds a slot exactly when it is an
item outside of types, and it is found by name as what it is. The symbols that existed are kept as they are, so growth
composes.
-/

set_option autoImplicit false

namespace CobolSymbols.Table

variable {t t' t'' : Table} {base : Nat} {id : SymbolId} {s : Symbol}

/-- A data item of a program or procedure, no type definition, that is declared outside of every storage section. -/
structure Sectionless (t : Table) (id : SymbolId) : Prop where
  item : (t.get id).kind.isItem = true
  type : ¬ t.IsType id
  owner : ∃ owner, t.OwnedBy id owner ∧ (t.get owner).kind.isProgramLike = true
  storage : (t.get id).flags.storage? = none

/-- A symbol is entered into another one and nowhere else. The other one is its owner; only paragraphs are entered into
their program or procedure when a section owns them. -/
structure EnteredIn (t : Table) (id container : SymbolId) : Prop where
  listed : ∀ c, (t.ledger id).listed c = if c = container then 1 else 0
  lt : container < id
  owner : t.OwnedBy id container ∨ (t.get id).kind = .paragraph ∧ (t.get container).kind.isProgramLike = true

/-- A symbol of a unit whose declaration is complete. What lies in a data item is one itself. -/
structure Settled (t : Table) (base : Nat) (id : SymbolId) : Prop where
  present : (t.ledger id).removed = false
  owner : ∃ owner, t.OwnedBy id owner ∧ base ≤ owner ∧
    ((t.get owner).kind.isItem = true → (t.get id).kind.isItem = true)
  entered : ¬ t.Sectionless id → ∃ container, base ≤ container ∧ t.EnteredIn id container
  aside : t.Sectionless id → ∀ c, (t.ledger id).listed c = 0
  slot : (t.ledger id).slot.isSome = true ↔ (t.get id).kind.isItem = true ∧ t.Home id none
  types : ∀ name, (t.ledger id).types name = if (t.get id).kind = .typeDefinition ∧ name = t.name id then 1 else 0
  programs : ∀ name, (t.ledger id).programs name ≤
    if (t.get id).kind.isProgramLike = true ∧ name = t.name id then 1 else 0

/-- The ledger tells nothing about symbols that do not exist, the slots agree, and only data items are groups. -/
structure Tidy (t : Table) : Prop where
  ordered : t.Ordered
  beyond : ∀ id, t.size ≤ id → t.ledger id = .blank
  slots : t.SlotsAgree
  groups : ∀ id, (t.get id).fields?.isSome = true → (t.get id).kind.isItem = true

/-- The second table has the symbols of the first as they were, and new ones that are settled. -/
structure Grows (base : Nat) (t t' : Table) : Prop extends Extends t t' where
  tidy : t'.Tidy
  kept : ∀ id, id < t.size → t'.ledger id = t.ledger id
  settled : ∀ id, t.size ≤ id → id < t'.size → t'.Settled base id
  /-- Groups stay groups. -/
  groups : ∀ id, (t.get id).fields?.isSome = true → (t'.get id).fields?.isSome = true

/-- A symbol that lies in a type holds no storage of its own. -/
theorem Home.not_none {type : SymbolId} (h : t.Home id (some type)) : ¬ t.Home id none := fun hnone =>
  hnone type h.1 h.2

section

variable (h : Extends t t')
include h

theorem Extends.home_none_iff (ht : t.Ordered) (hid : id < t.size) : t'.Home id none ↔ t.Home id none := by
  refine ⟨fun hhome type htype hwithin => ?_, h.home ht hid⟩
  have hkept : t'.Home id (some type) := h.home ht hid ⟨htype, hwithin⟩
  exact hhome type hkept.1 hkept.2

theorem Extends.sectionless_iff (ht : t.Ordered) (hid : id < t.size)
    (hstorage : (t'.ledger id).storage = (t.ledger id).storage) : t'.Sectionless id ↔ t.Sectionless id := by
  have howner : ∀ owner, t.OwnedBy id owner → (t'.get owner).kind = (t.get owner).kind := fun owner hown =>
    h.kind ((ht id owner hown).trans hid)
  constructor
  · rintro ⟨hitem, htype, ⟨owner, hown, hkind⟩, hnone⟩
    have hown' := (h.ownedBy_iff hid).mp hown
    exact ⟨by rw [← h.kind hid, hitem], fun htype' => htype ((h.isType_iff hid).mpr htype'),
      ⟨owner, hown', by rw [← howner owner hown', hkind]⟩, hstorage.symm.trans hnone⟩
  · rintro ⟨hitem, htype, ⟨owner, hown, hkind⟩, hnone⟩
    exact ⟨by rw [h.kind hid, hitem], fun htype' => htype ((h.isType_iff hid).mp htype'),
      ⟨owner, (h.ownedBy_iff hid).mpr hown, by rw [howner owner hown, hkind]⟩, hstorage.trans hnone⟩

end

theorem EnteredIn.extends {container : SymbolId} (hentered : t.EnteredIn id container) (h : Extends t t')
    (hid : id < t.size) (hledger : t'.ledger id = t.ledger id) : t'.EnteredIn id container where
  listed := by
    rw [hledger]
    exact hentered.listed
  lt := hentered.lt
  owner := by
    rw [h.ownedBy_iff hid, h.kind hid, h.kind (hentered.lt.trans hid)]
    exact hentered.owner

/-- A settled symbol stays settled when its ledger stays. -/
theorem Settled.extends (hsettled : t.Settled base id) (h : Extends t t') (ht : t.Ordered) (hid : id < t.size)
    (hledger : t'.ledger id = t.ledger id) : t'.Settled base id where
  present := by
    rw [hledger]
    exact hsettled.present
  owner := by
    obtain ⟨owner, hown, hbase, hitem⟩ := hsettled.owner
    refine ⟨owner, (h.ownedBy_iff hid).mpr hown, hbase, ?_⟩
    rw [h.kind hid, h.kind ((ht id owner hown).trans hid)]
    exact hitem
  entered hsection := by
    rw [h.sectionless_iff ht hid (congrArg Ledger.storage hledger)] at hsection
    obtain ⟨container, hbase, hentered⟩ := hsettled.entered hsection
    exact ⟨container, hbase, hentered.extends h hid hledger⟩
  aside hsection := by
    rw [h.sectionless_iff ht hid (congrArg Ledger.storage hledger)] at hsection
    rw [hledger]
    exact hsettled.aside hsection
  slot := by
    rw [hledger, h.kind hid, h.home_none_iff ht hid]
    exact hsettled.slot
  types name := by
    rw [hledger, h.kind hid, Table.name, h.name hid]
    exact hsettled.types name
  programs name := by
    rw [hledger, h.kind hid, Table.name, h.name hid]
    exact hsettled.programs name

theorem Grows.trans (ht : t'.Ordered) (h : Grows base t t') (h' : Grows base t' t'') : Grows base t t'' where
  toExtends := h.toExtends.trans h'.toExtends
  tidy := h'.tidy
  kept id hid := (h'.kept id (hid.trans_le h.size_le)).trans (h.kept id hid)
  settled id hle hlt := by
    by_cases hid : id < t'.size
    · exact (h.settled id hle hid).extends h'.toExtends ht hid (h'.kept id hid)
    · exact h'.settled id (not_lt.mp hid) hlt
  groups id hid := h'.groups id (h.groups id hid)

/-- A change that concerns one symbol: it makes none, and the ledger of every other one stays. -/
structure Touches (id : SymbolId) (t t' : Table) : Prop extends Extends t t' where
  size_eq : t'.size = t.size
  tidy : t'.Tidy
  others : ∀ x, x ≠ id → t'.ledger x = t.ledger x
  groups : ∀ x, (t.get x).fields?.isSome = true → (t'.get x).fields?.isSome = true

theorem Touches.trans (h : Touches id t t') (h' : Touches id t' t'') : Touches id t t'' where
  toExtends := h.toExtends.trans h'.toExtends
  size_eq := h'.size_eq.trans h.size_eq
  tidy := h'.tidy
  others x hx := (h'.others x hx).trans (h.others x hx)
  groups x hx := h'.groups x (h.groups x hx)

theorem isSome_fields?_mapFields (s : Symbol) (f : Scope SymbolId → Scope SymbolId) :
    ({ s with type := s.type.map (DataType.mapFields f) } : Symbol).fields?.isSome = s.fields?.isSome := by
  unfold Symbol.fields?
  cases s.type <;> simp

theorem isSome_fields?_enter (t : Table) (ref : ScopeRef) (id x : SymbolId) :
    ((t.enter ref id).get x).fields?.isSome = (t.get x).fields?.isSome := by
  cases ref with
  | slot owner slot =>
    rw [enter_slot]
    split
    · exact view_modify (fun s => s.fields?.isSome) (by simp [Symbol.fields?]) x
    · rfl
  | fields owner => exact view_modify (fun s => s.fields?.isSome) (isSome_fields?_mapFields _ _) x

theorem slot?_enter (t : Table) (ref : ScopeRef) (id x : SymbolId) :
    ((t.enter ref id).get x).slot? = (t.get x).slot? := by
  cases ref with
  | slot owner slot =>
    rw [enter_slot]
    split
    · exact view_modify Symbol.slot? (by simp [Symbol.slot?]) x
    · rfl
  | fields owner => exact view_modify Symbol.slot? rfl x

theorem slots_enter (t : Table) (ref : ScopeRef) (id : SymbolId) : (t.enter ref id).slots = t.slots := by
  cases ref with
  | slot owner slot =>
    rw [enter_slot]
    split <;> rfl
  | fields owner => rfl

section

variable (ht : t.Tidy)
include ht

theorem Grows.refl : Grows base t t :=
  ⟨Extends.refl t, ht, fun _ _ => rfl, fun _ hle hlt => absurd hlt hle.not_gt, fun _ h => h⟩

/-- A change that makes no symbols and leaves the ledger as it is. -/
theorem Grows.of_ledger (hext : Extends t t') (hsize : t'.size = t.size) (hledger : t'.ledger = t.ledger)
    (hslots : t'.slots = t.slots) (hgroups : ∀ id, (t.get id).fields?.isSome = true → (t'.get id).fields?.isSome = true)
    (hitems : ∀ id, (t'.get id).fields?.isSome = true → (t'.get id).kind.isItem = true) : Grows base t t' where
  toExtends := hext
  tidy :=
    { ordered := by
        intro id owner hown
        have hid : id < t.size := hsize ▸ hown.lt_size
        exact ht.ordered id owner ((hext.ownedBy_iff hid).mp hown)
      beyond := by
        intro id hid
        rw [hledger]
        exact ht.beyond id (hsize ▸ hid)
      slots := ht.slots.congr hslots fun id => congrArg (fun ledger => (ledger id).slot) hledger
      groups := hitems }
  kept id _ := by rw [hledger]
  settled id hle hlt := absurd hlt (hsize ▸ hle).not_gt
  groups := hgroups

/-- A change of a table that makes no symbols keeps it tidy when the slots still agree. -/
theorem Tidy.touches (hext : Extends t t') (hsize : t'.size = t.size) (hid : id < t.size)
    (hothers : ∀ x, x ≠ id → t'.ledger x = t.ledger x) (hslots : t'.SlotsAgree)
    (hgroups : ∀ x, (t'.get x).fields?.isSome = (t.get x).fields?.isSome) : Touches id t t' where
  toExtends := hext
  size_eq := hsize
  tidy :=
    { ordered := by
        intro x owner hown
        have hx : x < t.size := hsize ▸ hown.lt_size
        exact ht.ordered x owner ((hext.ownedBy_iff hx).mp hown)
      beyond := by
        intro x hx
        rw [hsize] at hx
        rw [hothers x (hid.trans_le hx).ne']
        exact ht.beyond x hx
      slots := hslots
      groups := by
        intro x hx
        rw [hgroups] at hx
        have hlt : x < t.size := lt_size_of_fields? hx
        rw [hext.kind hlt]
        exact ht.groups x hx }
  others := hothers
  groups x hx := by rw [hgroups, hx]

theorem Tidy.enter {ref : ScopeRef} (hscope : (t.scope? ref).isSome = true) (hid : id < t.size) :
    Touches id t (t.enter ref id) := by
  refine ht.touches (Extends.enter t ref id) (size_enter t ref id) hid ?_ ?_ (isSome_fields?_enter t ref id)
  · intro x hx
    rw [ledger_enter hscope, if_neg hx]
  · exact ht.slots.congr (slots_enter t ref id) (slot?_enter t ref id)

theorem Tidy.register (hid : id < t.size) : Touches id t (t.registerType id) ∧ Touches id t (t.registerProgram id) := by
  constructor
  all_goals
    refine ht.touches (Extends.of_get rfl fun _ => rfl) rfl hid ?_ (ht.slots.congr rfl fun _ => rfl) fun _ => rfl
    intro x hx
  · rw [ledger_registerType, if_neg hx]
  · rw [ledger_registerProgram, if_neg hx]

theorem Tidy.addVariable (hitem : (t.get id).kind.isItem = true) (hnone : (t.get id).slot? = none)
    (hid : id < t.size) : Touches id t (t.addVariable id).2 := by
  refine ht.touches (Extends.addVariable t id) (size_addVariable t id) hid ?_ (ht.slots.addVariable hitem hnone) ?_
  · intro x hx
    rw [ledger_addVariable hitem, if_neg hx]
  · intro x
    rw [addVariable_get]
    exact view_modify (fun s => s.fields?.isSome) (by simp [Symbol.fields?]) x

theorem Tidy.addDuplicate {program : SymbolId} (h : (t.get program).kind.isProgramLike = true)
    (hid : id < t.size) : Touches id t
      (t.modify program (Symbol.mapProgram fun data => { data with duplicates := data.duplicates ++ [id] })) := by
  refine ht.touches (Extends.modify t program (Symbol.identity_mapProgram _ _)) (size_modify t program _) hid ?_ ?_ ?_
  · intro x hx
    rw [ledger_addDuplicate h, if_neg hx]
  · exact ht.slots.congr rfl (view_modify Symbol.slot? (by simp [Symbol.slot?]))
  · exact view_modify (fun s => s.fields?.isSome) (by simp [Symbol.fields?])

end

/-- Growth without new symbols concerns any symbol. -/
theorem Grows.touches (h : Grows base t t') (hsize : t'.size = t.size) (ht : t.Tidy) : Touches id t t' where
  toExtends := h.toExtends
  size_eq := hsize
  tidy := h.tidy
  others x _ := by
    by_cases hx : x < t.size
    · exact h.kept x hx
    · rw [ht.beyond x (Nat.le_of_not_lt hx), h.tidy.beyond x (hsize ▸ Nat.le_of_not_lt hx)]
  groups := h.groups

/-- A new symbol that holds nothing and has no slot. -/
theorem Tidy.alloc (ht : t.Tidy) (hcontents : s.contents = []) (hslot : s.slot? = none)
    (hfields : s.fields? = none) (hordered : (t.alloc s).2.Ordered) : (t.alloc s).2.Tidy where
  ordered := hordered
  beyond id hid := by
    rw [size_alloc] at hid
    rw [ledger_alloc_of_ne hcontents (Nat.ne_of_gt hid)]
    exact ht.beyond id (Nat.le_of_succ_le hid)
  slots := by
    refine ht.slots.congr rfl fun id => ?_
    rw [get_alloc]
    split
    · rename_i hid
      rw [hslot, hid, get_of_size_le le_rfl]
      rfl
    · rfl
  groups id hid := by
    rw [get_alloc] at hid ⊢
    split at hid
    · rw [hfields] at hid
      cases hid
    · rename_i hne
      rw [if_neg hne]
      exact ht.groups id hid

/-- The ledger of a symbol that has just been made. -/
theorem Tidy.ledger_alloc (ht : t.Tidy) (hcontents : s.contents = []) (hslot : s.slot? = none)
    (hremoved : s.isRemoved = false) :
    (t.alloc s).2.ledger t.size = { Ledger.blank with storage := s.flags.storage? } := by
  rw [ledger_alloc_self hcontents, ht.beyond t.size le_rfl, hslot, hremoved]
  rfl

/-- A symbol is made, what belongs to it grows, and then it is settled. -/
theorem Grows.settle {grown : Table} (hcontents : s.contents = []) (h : Grows base (t.alloc s).2 grown)
    (htouches : Touches t.size grown t') (hsettled : t'.Settled base t.size) : Grows base t t' where
  toExtends := ((Extends.alloc t s).trans h.toExtends).trans htouches.toExtends
  tidy := htouches.tidy
  kept id hid := by
    have hlt : id < (t.alloc s).2.size := by
      rw [size_alloc]
      exact Nat.lt_succ_of_lt hid
    rw [htouches.others id hid.ne, h.kept id hlt, ledger_alloc_of_ne hcontents hid.ne]
  settled id hle hlt := by
    by_cases hid : id = t.size
    · exact hid ▸ hsettled
    · have hle' : (t.alloc s).2.size ≤ id := by
        rw [size_alloc]
        omega
      rw [htouches.size_eq] at hlt
      exact (h.settled id hle' hlt).extends htouches.toExtends h.tidy.ordered hlt (htouches.others id hid)
  groups id hid := by
    apply htouches.groups
    apply h.groups
    have hlt : id < t.size := lt_size_of_fields? hid
    rw [get_alloc_of_lt s hlt, hid]

end CobolSymbols.Table
