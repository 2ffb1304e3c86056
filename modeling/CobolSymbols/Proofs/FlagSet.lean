import CobolSymbols.Symbol.Flag

/-!
# Reading sets of flags

`FlagSet.has` turns the operations on sets of flags into operations on truth values. A set of symbol flags holds the flags
that it is made of and no others, since no two flags share a bit.
-/

set_option autoImplicit false

namespace CobolSymbols

namespace FlagSet

variable {F : Type} [Flag F] (s t : FlagSet F) (f g : F)

@[simp] theorem has_union : (s ∪ t).has f = (s.has f || t.has f) := Nat.testBit_or _ _ _

@[simp] theorem has_inter : (s ∩ t).has f = (s.has f && t.has f) := Nat.testBit_and _ _ _

@[simp] theorem has_empty : (∅ : FlagSet F).has f = false := Nat.zero_testBit _

@[simp] theorem has_insert : (s.insert g).has f = (s.has f || (single g).has f) := has_union s (single g) f

@[simp] theorem has_insertIf (condition : Bool) :
    (s.insertIf condition g).has f = (s.has f || condition && (single g).has f) := by
  cases condition <;> simp [insertIf]

@[simp] theorem has_ofList (flags : List F) : (ofList flags).has f = flags.any fun g => (single g).has f := by
  induction flags with
  | nil => exact has_empty f
  | cons g rest ih =>
    have hcons : ofList (g :: rest) = single g ∪ ofList rest := rfl
    simp [hcons, ih]

theorem meets_single : s.meets (single f) = s.has f := by
  have hbit : ∀ i, (s.bits &&& 2 ^ Flag.position f).testBit i = (s.bits.testBit i && decide (Flag.position f = i)) := by
    intro i
    rw [Nat.testBit_and, Nat.testBit_two_pow]
  have hmeets : s.meets (single f) = (s.bits &&& 2 ^ Flag.position f != 0) := rfl
  rw [hmeets]
  cases hhas : s.has f with
  | true =>
    have hone := hbit (Flag.position f)
    rw [decide_eq_true rfl, Bool.and_true, show s.bits.testBit (Flag.position f) = true from hhas] at hone
    rw [bne_iff_ne]
    intro hzero
    rw [hzero, Nat.zero_testBit] at hone
    cases hone
  | false =>
    rw [bne_eq_false_iff_eq]
    refine Nat.eq_of_testBit_eq fun i => ?_
    rw [hbit, Nat.zero_testBit]
    by_cases hi : Flag.position f = i
    · rw [← hi, show s.bits.testBit (Flag.position f) = false from hhas, Bool.false_and]
    · rw [decide_eq_false hi, Bool.and_false]

theorem meets_ofList (flags : List F) : s.meets (ofList flags) = flags.any s.has := by
  induction flags with
  | nil => simp [meets, Inter.inter, ofList, EmptyCollection.emptyCollection]
  | cons g rest ih =>
    have hbits : (s ∩ ofList (g :: rest)).bits = s.bits &&& 2 ^ Flag.position g ||| (s ∩ ofList rest).bits :=
      Nat.and_or_distrib_left ..
    have hor : ∀ m n : Nat, (m ||| n != 0) = (m != 0 || n != 0) := by
      intro m n
      by_cases hm : m = 0
      · simp [hm]
      · have hle : m ≤ m ||| n := Nat.left_le_or
        rw [bne_iff_ne.mpr hm, Bool.true_or, bne_iff_ne]
        omega
    rw [List.any_cons, ← ih, ← meets_single]
    unfold meets
    rw [hbits, hor]
    rfl

end FlagSet

theorem SymbolFlag.has_single (f g : SymbolFlag) : (FlagSet.single g).has f = decide (g = f) := by
  have hbits : (FlagSet.single g).has f = decide (g.ctorIdx = f.ctorIdx) := Nat.testBit_two_pow
  rw [hbits, decide_eq_decide]
  constructor
  · intro h
    cases g <;> cases f <;> first | rfl | cases h
  · exact congrArg _

namespace SymbolFlags

/-- None of the flags of a class is set. -/
def Avoids (flags : SymbolFlags) (p : SymbolFlag → Bool) : Prop := ∀ f : SymbolFlag, p f = true → flags.has f = false

variable {a b : SymbolFlags} {p : SymbolFlag → Bool}

theorem avoids_empty : (∅ : SymbolFlags).Avoids p := fun f _ => FlagSet.has_empty f

theorem avoids_single {f : SymbolFlag} (h : p f = false) : Avoids (FlagSet.single f) p := by
  intro g hg
  rw [SymbolFlag.has_single, decide_eq_false_iff_not]
  rintro rfl
  rw [h] at hg
  cases hg

theorem avoids_ofList (flags : List SymbolFlag) (h : ∀ f ∈ flags, p f = false) : Avoids (FlagSet.ofList flags) p := by
  intro g hg
  rw [FlagSet.has_ofList, List.any_eq_false]
  intro f hf
  rw [avoids_single (h f hf) g hg]
  exact Bool.false_ne_true

theorem Avoids.inter (hb : b.Avoids p) : (a ∩ b).Avoids p := fun f hf => by simp [hb f hf]

theorem Avoids.insertIf (ha : a.Avoids p) (condition : Bool) {f : SymbolFlag} (h : p f = false) :
    Avoids (FlagSet.insertIf a condition f) p := fun g hg => by simp [ha g hg, avoids_single h g hg]

end SymbolFlags

end CobolSymbols
