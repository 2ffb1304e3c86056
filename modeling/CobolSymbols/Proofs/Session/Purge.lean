import CobolSymbols.Proofs.Build.Spares
import CobolSymbols.Proofs.Session
import CobolSymbols.Proofs.Table.Removal

/-!
# Removing programs one after the other

A session that detaches a file removes the programs that the file gave, one after the other. What one removal keeps the
others keep as well, so that a list of programs is removed like a single one: the table stays regular, no slot is added,
all programs of the list end up as removed, and the symbols that were made before them are spared.
-/

set_option autoImplicit false

namespace CobolSymbols.Table

variable {t t' t'' : Table} {base : Nat} {program : SymbolId} {programs programs' : List SymbolId}

/-- Removing a program spares the symbols that were made before it. -/
theorem Regular.spares_removeProgram (h : t.Regular) (hsound : t.Sound base) (hkind : (t.get program).kind = .program)
    {n : Nat} (hn : n ≤ program) (howner : ∀ owner, (t.get program).owner = some owner → n ≤ owner ∨ owner = rootId) :
    Spares n t (t.removeProgram program).2 := by
  cases hpresent : (t.get program).isRemoved with
  | true =>
    rw [removeProgram_of_removed hpresent]
    exact Spares.refl n t
  | false =>
    have hdetached := h.detached_removeProgram hsound hkind hpresent
    intro id hid
    have hout : id ∉ t.owned program := by
      intro hmem
      have hle : program ≤ id := ((h.mem_owned hsound hkind).mp hmem).1.le
      exact absurd (hn.trans hle) hid.not_ge
    rw [hdetached.get, if_neg hout, get_delist]
    split
    · rename_i hown
      rcases howner id hown with hle | heq
      · exact absurd hle hid.not_ge
      · exact Symbol.lasting_enterProgram ((hsound.root id).mpr heq) _
    · rfl

/-- The second table is the first one after the programs of a list have been removed from it. -/
structure Purged (base : Nat) (programs : List SymbolId) (t t' : Table) : Prop extends Extends t t' where
  regular : t'.Regular
  sound : t'.Sound base
  size_eq : t'.size = t.size
  capacity : t'.slots.capacity = t.slots.capacity
  storage : ∀ id, (t'.ledger id).storage = (t.ledger id).storage
  /-- No slot changes its variable. -/
  slots : ∀ id index, (t'.ledger id).slot = some index → (t.ledger id).slot = some index
  /-- What was removed is, and so are the programs. -/
  marked : ∀ id, (t.ledger id).removed = true → (t'.ledger id).removed = true
  removed : ∀ program ∈ programs, (t'.ledger program).removed = true
  /-- The symbols that were made before all of the programs are spared. -/
  spares : ∀ n, (∀ program ∈ programs, n ≤ program ∧
    ∀ owner, t.OwnedBy program owner → n ≤ owner ∨ owner = rootId) → Spares n t t'

theorem Purged.refl (h : t.Regular) (hsound : t.Sound base) : Purged base [] t t where
  toExtends := Extends.refl t
  regular := h
  sound := hsound
  size_eq := rfl
  capacity := rfl
  storage _ := rfl
  slots _ _ hslot := hslot
  marked _ hid := hid
  removed := nofun
  spares n _ := Spares.refl n t

theorem Purged.trans (h : Purged base programs t t') (h' : Purged base programs' t' t'') :
    Purged base (programs ++ programs') t t'' where
  toExtends := h.toExtends.trans h'.toExtends
  regular := h'.regular
  sound := h'.sound
  size_eq := h'.size_eq.trans h.size_eq
  capacity := h'.capacity.trans h.capacity
  storage id := (h'.storage id).trans (h.storage id)
  slots id index hslot := h.slots id index (h'.slots id index hslot)
  marked id hid := h'.marked id (h.marked id hid)
  removed program hprog := by
    rcases List.mem_append.mp hprog with hfirst | hsecond
    · exact h'.marked program (h.removed program hfirst)
    · exact h'.removed program hsecond
  spares n hprogs := by
    refine (h.spares n fun program hprog => hprogs program (List.mem_append_left _ hprog)).trans
      (h'.spares n fun program hprog => ?_)
    obtain ⟨hle, howner⟩ := hprogs program (List.mem_append_right _ hprog)
    refine ⟨hle, fun owner hown => howner owner ?_⟩
    exact (h.toExtends.ownedBy_iff (h.size_eq ▸ hown.lt_size)).mp hown

theorem Regular.purged_removeProgram (h : t.Regular) (hsound : t.Sound base) (hkind : (t.get program).kind = .program) :
    Purged base [program] t (t.removeProgram program).2 := by
  obtain ⟨hext, hsize⟩ := h.extends_removeProgram hsound hkind
  have hspares : ∀ n, (∀ other ∈ [program], n ≤ other ∧
      ∀ owner, t.OwnedBy other owner → n ≤ owner ∨ owner = rootId) → Spares n t (t.removeProgram program).2 := by
    intro n hprogs
    obtain ⟨hle, howner⟩ := hprogs program List.mem_cons_self
    exact h.spares_removeProgram hsound hkind hle howner
  have hregular := h.removeProgram hsound hkind
  have hsound' := hsound.removeProgram program
  cases hpresent : (t.get program).isRemoved with
  | true =>
    rw [removeProgram_of_removed hpresent]
    refine { Purged.refl h hsound with removed := ?_, spares := fun n _ => Spares.refl n t }
    intro other hother
    rw [List.mem_singleton.mp hother]
    exact hpresent
  | false =>
    have hdetached := h.detached_removeProgram hsound hkind hpresent
    have hself := h.self_mem_owned hsound hkind
    obtain ⟨hkept, hgone⟩ := h.ledger_removed hself hdetached
    have hmarked : ∀ id ∈ t.owned program, ((t.removeProgram program).2.ledger id).removed = true := by
      intro id hid
      obtain ⟨listed, hledger, _⟩ := hgone id hid
      rw [hledger]
      rfl
    refine ⟨hext, hregular, hsound', hsize, ?_, hdetached.storage, ?_, ?_, ?_, hspares⟩
    · rw [hdetached.capacity, (t.delist_rest program).2.2.2]
    · intro id index hslot
      by_cases hmem : id ∈ t.owned program
      · obtain ⟨listed, hledger, _⟩ := hgone id hmem
        rw [hledger] at hslot
        cases hslot
      · rwa [hkept id hmem] at hslot
    · intro id hid
      by_cases hmem : id ∈ t.owned program
      · exact hmarked id hmem
      · rw [hkept id hmem]
        exact hid
    · intro other hother
      rw [List.mem_singleton.mp hother]
      exact hmarked program hself

/-- What removing a program keeps is kept when the programs of a list are removed; none of them loses its kind
meanwhile. -/
theorem Regular.foldl_removeProgram {P : Table → Prop} (h : t.Regular) (hsound : t.Sound base)
    (hkinds : ∀ program ∈ programs, (t.get program).kind = .program)
    (hstep : ∀ (t : Table) (program : SymbolId), t.Regular → t.Sound base → (t.get program).kind = .program → P t →
      P (t.removeProgram program).2) (hstart : P t) :
    P (programs.foldl (fun t program => (t.removeProgram program).2) t) := by
  induction programs generalizing t with
  | nil => exact hstart
  | cons program rest ih =>
    have hkind := hkinds program List.mem_cons_self
    have hfirst := h.purged_removeProgram hsound hkind
    refine ih hfirst.regular hfirst.sound (fun other hother => ?_) (hstep t program h hsound hkind hstart)
    have hkind' := hkinds other (List.mem_cons_of_mem program hother)
    exact (hfirst.toExtends.kind (lt_size_of_program hkind')).trans hkind'

theorem Regular.purged_foldl (h : t.Regular) (hsound : t.Sound base)
    (hkinds : ∀ program ∈ programs, (t.get program).kind = .program) :
    Purged base programs t (programs.foldl (fun t program => (t.removeProgram program).2) t) := by
  induction programs generalizing t with
  | nil => exact Purged.refl h hsound
  | cons program rest ih =>
    have hfirst := h.purged_removeProgram hsound (hkinds program List.mem_cons_self)
    refine hfirst.trans (ih hfirst.regular hfirst.sound fun other hother => ?_)
    have hkind := hkinds other (List.mem_cons_of_mem program hother)
    exact (hfirst.toExtends.kind (lt_size_of_program hkind)).trans hkind

end CobolSymbols.Table
