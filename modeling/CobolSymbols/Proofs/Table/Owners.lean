import CobolSymbols.Proofs.Table.Extends
import CobolSymbols.Table.Lookup

/-!
# The owners of a symbol

Owners come before what they own, so the chain of owners that starts at a symbol has no more members than the number of
the symbol tells, and it stays the same when the table grows.
-/

set_option autoImplicit false

namespace CobolSymbols.Table

variable {t t' : Table} {id owner : SymbolId}

/-- Further steps find no further owners. -/
theorem chainFrom_eq (ht : t.Ordered) {id : SymbolId} {steps steps' : Nat} (hsteps : id < steps) (hsteps' : id < steps') :
    t.chainFrom steps (some id) = t.chainFrom steps' (some id) := by
  induction steps generalizing id steps' with
  | zero => exact absurd hsteps (Nat.not_lt_zero id)
  | succ steps ih =>
    cases steps' with
    | zero => exact absurd hsteps' (Nat.not_lt_zero id)
    | succ steps' =>
      unfold chainFrom
      congr 1
      cases howner : (t.get id).owner with
      | none => cases steps <;> cases steps' <;> rfl
      | some owner =>
        have hlt : owner < id := ht id owner howner
        exact ih (hlt.trans_le (Nat.le_of_lt_succ hsteps)) (hlt.trans_le (Nat.le_of_lt_succ hsteps'))

theorem chainFrom_none (t : Table) (steps : Nat) : t.chainFrom steps none = [] := by cases steps <;> rfl

/-- A chain is a symbol followed by its owners. -/
theorem Ordered.chain_eq (ht : t.Ordered) (hid : id < t.size) : t.chain id = id :: t.owners id := by
  unfold chain owners
  cases hsize : t.size with
  | zero =>
    rw [hsize] at hid
    exact absurd hid (Nat.not_lt_zero id)
  | succ steps =>
    rw [hsize] at hid
    rw [chainFrom]
    congr 1
    cases howner : (t.get id).owner with
    | none => rw [chainFrom_none, chainFrom_none]
    | some owner =>
      have hlt : owner < id := ht id owner howner
      exact chainFrom_eq ht (hlt.trans_le (Nat.le_of_lt_succ hid)) (hlt.trans hid)

theorem owners_of_ownedBy (h : t.OwnedBy id owner) : t.owners id = t.chain owner := by
  unfold owners chain
  rw [h]

theorem owners_of_none (h : (t.get id).owner = none) : t.owners id = [] := by
  unfold owners
  rw [h, chainFrom_none]

/-- A symbol is declared in its owner, or in what its owner is declared in. -/
theorem Ordered.enclosingScope_eq (ht : t.Ordered) (h : t.OwnedBy id owner) :
    t.enclosingScope id = if (t.get owner).isScope then some owner else t.enclosingScope owner := by
  unfold enclosingScope
  rw [owners_of_ownedBy h, ht.chain_eq ((ht id owner h).trans h.lt_size), List.find?_cons]
  cases (t.get owner).isScope <;> rfl

/-- What is declared directly in a program or procedure. -/
theorem Ordered.enclosingScope_of_program (ht : t.Ordered) (hprog : (t.get owner).kind.isProgramLike = true)
    (hown : t.OwnedBy id owner) : t.enclosingScope id = some owner := by
  rw [ht.enclosingScope_eq hown, Symbol.isScope_eq, SymbolKind.isScope_of_isProgramLike hprog, if_pos rfl]

theorem Extends.chainFrom (h : Extends t t') (ht : t.Ordered) (steps : Nat) {id : SymbolId} (hid : id < t.size) :
    t'.chainFrom steps (some id) = t.chainFrom steps (some id) := by
  induction steps generalizing id with
  | zero => rfl
  | succ steps ih =>
    rw [Table.chainFrom, Table.chainFrom, h.owner hid]
    congr 1
    cases howner : (t.get id).owner with
    | none => rw [chainFrom_none, chainFrom_none]
    | some owner => exact ih ((ht id owner howner).trans hid)

theorem Extends.owners (h : Extends t t') (ht : t.Ordered) (hid : id < t.size) : t'.owners id = t.owners id := by
  unfold Table.owners
  rw [h.owner hid]
  cases howner : (t.get id).owner with
  | none => rw [chainFrom_none, chainFrom_none]
  | some owner =>
    have hlt : owner < t.size := (ht id owner howner).trans hid
    rw [h.chainFrom ht _ hlt, chainFrom_eq ht (hlt.trans_le h.size_le) hlt]

/-- A symbol stays declared in the same scope. -/
theorem Extends.enclosingScope (h : Extends t t') (ht : t.Ordered) (hid : id < t.size) :
    t'.enclosingScope id = t.enclosingScope id := by
  induction id using Nat.strongRecOn with
  | _ id ih =>
    unfold Table.enclosingScope
    rw [h.owners ht hid]
    cases howner : (t.get id).owner with
    | none => rw [owners_of_none howner]; rfl
    | some owner =>
      have hlt : owner < t.size := (ht id owner howner).trans hid
      have hscope : (t'.get owner).isScope = (t.get owner).isScope := by
        rw [Symbol.isScope_eq, Symbol.isScope_eq, h.kind hlt]
      have hrest := ih owner (ht id owner howner) hlt
      unfold Table.enclosingScope at hrest
      rw [h.owners ht hlt] at hrest
      rw [owners_of_ownedBy howner, ht.chain_eq hlt, List.find?_cons, List.find?_cons, hscope, hrest]

end CobolSymbols.Table
