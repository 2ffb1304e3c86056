import CobolSymbols.Proofs.Build.Indexed
import CobolSymbols.Proofs.Table.Growth

/-!
# Regular tables

What a table keeps about its symbols, whatever has been built and removed. Every symbol is entered into one other symbol
at most, which was made before it and lies in the same outermost program. A symbol that stays is entered somewhere,
unless it belongs to the root or is an item outside of every storage section; what is entered into a removed symbol is
removed as well. An item holds a slot as long as it stays, if it lies outside of types.
-/

set_option autoImplicit false

namespace CobolSymbols.Table

variable {t t' : Table} {base : Nat} {id : SymbolId} {container : SymbolId}

/-- A symbol that is entered nowhere. -/
def Unlisted (t : Table) (id : SymbolId) : Prop := ∀ c, (t.ledger id).listed c = 0

theorem Unlisted.not_enteredIn (h : t.Unlisted id) : ¬ t.EnteredIn id container := by
  intro hentered
  have hlisted := hentered.listed container
  rw [h container, if_pos rfl] at hlisted
  cases hlisted

theorem EnteredIn.unique {c c' : SymbolId} (h : t.EnteredIn id c) (h' : t.EnteredIn id c') : c = c' := by
  by_contra hne
  have hlisted := h.listed c
  rw [h'.listed, if_neg hne, if_pos rfl] at hlisted
  cases hlisted

/-- Two symbols lie in the same outermost program, or the first is the root. -/
def Together (t : Table) (container id : SymbolId) : Prop :=
  container = rootId ∨ ∃ program, t.OwnedBy program rootId ∧ t.Within program container ∧ t.Within program id

/-- What a table keeps about a symbol between two declarations. -/
structure Standing (t : Table) (id : SymbolId) : Prop where
  place : t.Unlisted id ∨ ∃ container, t.EnteredIn id container ∧ t.Together container id
  closed : ∀ container, t.EnteredIn id container → (t.ledger container).removed = true → (t.ledger id).removed = true
  complete : t.Unlisted id → (t.ledger id).removed = false → ∀ owner, t.OwnedBy id owner →
    owner = rootId ∨ t.Sectionless id
  aside : t.Sectionless id → t.Unlisted id
  inner : ∀ owner, t.OwnedBy id owner → (t.get owner).kind.isItem = true → (t.get id).kind.isItem = true
  /-- What lies in an item outside of every storage section stays. -/
  below : ∀ item, t.Sectionless item → t.Within item id → (t.ledger id).removed = false
  slot : (t.ledger id).slot.isSome = true ↔
    ((t.get id).kind.isItem = true ∧ t.Home id none) ∧ (t.ledger id).removed = false
  types : ∀ name, (t.ledger id).types name =
    if ((t.get id).kind = .typeDefinition ∧ name = t.name id) ∧ (t.ledger id).removed = false then 1 else 0
  programs : ∀ name, (t.ledger id).programs name ≤
    if ((t.get id).kind.isProgramLike = true ∧ name = t.name id) ∧ (t.ledger id).removed = false then 1 else 0

/-- A table in which every symbol is accounted for. -/
structure Regular (t : Table) : Prop where
  tidy : t.Tidy
  standing : ∀ id, id < t.size → t.Standing id
  indexed : t.Indexed
  root : (t.ledger rootId).removed = false
  bottom : (t.ledger bottomId).slot = some 0

/-- The symbols from `base` on are what an outermost program holds, and they all stay. -/
structure Gathered (t : Table) (base : Nat) : Prop where
  owner : t.OwnedBy base rootId
  within : ∀ id, base ≤ id → id < t.size → t.Within base id
  present : ∀ id, base ≤ id → id < t.size → (t.ledger id).removed = false

theorem Regular.bottom_lt (h : t.Regular) : bottomId < t.size := by
  apply lt_size_of_get_ne
  intro hdefault
  have hbottom : (t.get bottomId).slot? = some 0 := h.bottom
  rw [hdefault] at hbottom
  cases hbottom

theorem Together.extends (h : t.Together container id) (hext : Extends t t')
    (ht : t.Ordered) (hid : id < t.size) (hcont : container < t.size) : t'.Together container id := by
  rcases h with hroot | ⟨program, hown, hcontainer', hid'⟩
  · exact .inl hroot
  · exact .inr ⟨program, (hext.ownedBy_iff hown.lt_size).mpr hown, (hext.within_iff ht hcont).mpr hcontainer',
      (hext.within_iff ht hid).mpr hid'⟩

theorem EnteredIn.of_extends (h : t'.EnteredIn id container) (hext : Extends t t')
    (hid : id < t.size) (hledger : t'.ledger id = t.ledger id) : t.EnteredIn id container where
  listed := by
    rw [← hledger]
    exact h.listed
  lt := h.lt
  owner := by
    rw [← hext.ownedBy_iff hid, ← hext.kind hid, ← hext.kind (h.lt.trans hid)]
    exact h.owner

/-- A symbol keeps its standing when its ledger stays and what it is entered into is not removed. -/
theorem Standing.congr (h : t.Standing id) (hext : Extends t t') (ht : t.Ordered) (hid : id < t.size)
    (hledger : t'.ledger id = t.ledger id)
    (hcont : ∀ container, t.EnteredIn id container →
      (t'.ledger container).removed = true → (t.ledger container).removed = true)
    (hstorage : ∀ x, x < t.size → (t'.ledger x).storage = (t.ledger x).storage) : t'.Standing id where
  place := by
    rcases h.place with hnone | ⟨container, hentered, htogether⟩
    · left
      intro c
      rw [hledger]
      exact hnone c
    · exact .inr ⟨container, hentered.extends hext hid hledger,
        htogether.extends hext ht hid (hentered.lt.trans hid)⟩
  closed container hentered hremoved := by
    have hentered' := hentered.of_extends hext hid hledger
    rw [hledger]
    exact h.closed container hentered' (hcont container hentered' hremoved)
  complete hnone hpresent owner hown := by
    unfold Unlisted at hnone
    rw [hledger] at hnone hpresent
    rw [hext.sectionless_iff ht hid (hstorage id hid)]
    exact h.complete hnone hpresent owner ((hext.ownedBy_iff hid).mp hown)
  aside hsection := by
    rw [hext.sectionless_iff ht hid (hstorage id hid)] at hsection
    intro c
    rw [hledger]
    exact h.aside hsection c
  inner owner hown := by
    have hown' := (hext.ownedBy_iff hid).mp hown
    rw [hext.kind hid, hext.kind ((ht id owner hown').trans hid)]
    exact h.inner owner hown'
  below item hsection hwithin := by
    rw [hext.within_iff ht hid] at hwithin
    have hitem : item < t.size := (hwithin.le ht).trans_lt hid
    rw [hext.sectionless_iff ht hitem (hstorage item hitem)] at hsection
    rw [hledger]
    exact h.below item hsection hwithin
  slot := by
    rw [hledger, hext.kind hid, hext.home_none_iff ht hid]
    exact h.slot
  types name := by
    rw [hledger, hext.kind hid, Table.name, hext.name hid]
    exact h.types name
  programs name := by
    rw [hledger, hext.kind hid, Table.name, hext.name hid]
    exact h.programs name

/-- A symbol keeps its standing when the ledgers of all symbols that existed stay. -/
theorem Standing.extends (h : t.Standing id) (hext : Extends t t') (ht : t.Ordered) (hid : id < t.size)
    (hkept : ∀ x, x < t.size → t'.ledger x = t.ledger x) : t'.Standing id := by
  refine h.congr hext ht hid (hkept id hid) ?_ ?_
  · intro container hentered
    rw [hkept container (hentered.lt.trans hid)]
    exact fun hremoved => hremoved
  · intro x hx
    rw [hkept x hx]

/-- A settled symbol has its standing once the symbol that it is entered into stays. -/
theorem Settled.standing (h : t.Settled base id)
    (hcont : ∀ container, base ≤ container → t.EnteredIn id container →
      t.Together container id ∧ (t.ledger container).removed = false) : t.Standing id where
  place := by
    by_cases hsection : t.Sectionless id
    · exact .inl (h.aside hsection)
    · obtain ⟨container, hbase, hentered⟩ := h.entered hsection
      exact .inr ⟨container, hentered, (hcont container hbase hentered).1⟩
  closed container hentered hremoved := by
    have hsection : ¬ t.Sectionless id := fun hsection => Unlisted.not_enteredIn (h.aside hsection) hentered
    obtain ⟨other, hbase, hother⟩ := h.entered hsection
    rw [hentered.unique hother, (hcont other hbase hother).2] at hremoved
    cases hremoved
  complete hnone _ owner _ := by
    by_cases hsection : t.Sectionless id
    · exact .inr hsection
    · obtain ⟨container, _, hentered⟩ := h.entered hsection
      exact absurd hentered hnone.not_enteredIn
  aside := h.aside
  inner owner hown := by
    obtain ⟨other, hother, _, hitem⟩ := h.owner
    have heq : owner = other := by
      unfold OwnedBy at hown hother
      rw [hown] at hother
      exact Option.some.inj hother
    rw [heq]
    exact hitem
  below _ _ _ := h.present
  slot := by
    rw [h.slot, h.present]
    simp
  types name := by
    rw [h.types, h.present]
    simp
  programs name := by
    rw [h.present]
    simpa using h.programs name

/-- What is made lies in the outermost program, since its owner does. -/
theorem Gathered.grows (h : t.Gathered base) (ht : t.Ordered) (hgrows : Grows base t t') : t'.Gathered base where
  owner := (hgrows.ownedBy_iff h.owner.lt_size).mpr h.owner
  within id := by
    induction id using Nat.strongRecOn with
    | ind id ih =>
      intro hbase hlt
      by_cases hid : id < t.size
      · exact (hgrows.within_iff ht hid).mpr (h.within id hbase hid)
      · obtain ⟨owner, hown, howner, _⟩ := (hgrows.settled id (not_lt.mp hid) hlt).owner
        have hlt' := hgrows.tidy.ordered id owner hown
        exact Table.within_iff.mpr (.inr ⟨owner, hown, ih owner hlt' howner (hlt'.trans hlt)⟩)
  present id hbase hlt := by
    by_cases hid : id < t.size
    · rw [hgrows.kept id hid]
      exact h.present id hbase hid
    · exact (hgrows.settled id (not_lt.mp hid) hlt).present

/-- The second table has the symbols of the first as they were, and new ones. -/
structure Continues (t t' : Table) : Prop extends Extends t t' where
  kept : ∀ id, id < t.size → t'.ledger id = t.ledger id

theorem Continues.refl (t : Table) : Continues t t := ⟨Extends.refl t, fun _ _ => rfl⟩

theorem Continues.trans {t'' : Table} (h : Continues t t') (h' : Continues t' t'') : Continues t t'' where
  toExtends := h.toExtends.trans h'.toExtends
  kept id hid := (h'.kept id (hid.trans_le h.size_le)).trans (h.kept id hid)

theorem Grows.continues (h : Grows base t t') : Continues t t' := ⟨h.toExtends, h.kept⟩

/-- Growth keeps a table regular. -/
theorem Regular.grows (h : t.Regular) (hgathered : t.Gathered base) (hgrows : Grows base t t') (hindexed : t'.Indexed) :
    t'.Regular where
  tidy := hgrows.tidy
  standing id hid := by
    by_cases hold : id < t.size
    · exact (h.standing id hold).extends hgrows.toExtends h.tidy.ordered hold hgrows.kept
    · refine (hgrows.settled id (not_lt.mp hold) hid).standing fun container hbase hentered => ?_
      have hall := hgathered.grows h.tidy.ordered hgrows
      have hcont := hentered.lt.trans hid
      have hle : base ≤ id := hbase.trans hentered.lt.le
      exact ⟨.inr ⟨base, hall.owner, hall.within container hbase hcont, hall.within id hle hid⟩,
        hall.present container hbase hcont⟩
  indexed := hindexed
  root := by
    rw [hgrows.kept rootId (Nat.lt_of_le_of_lt (by decide) h.bottom_lt)]
    exact h.root
  bottom := by
    rw [hgrows.kept bottomId h.bottom_lt]
    exact h.bottom

end CobolSymbols.Table
