import CobolSymbols.Proofs.Picture.Normalized

/-!
# Categories and scales of pictures

The category of a picture is found by asking for one symbol after the other, so the answer to an early question hides
symbols that a later one would find: an alphabetic picture may hold more than `A` and `B`. The scale is counted apart
from the digits. It leaves out `Z` and `*`, and it is counted for pictures that are not numbers as well.
-/

set_option autoImplicit false

namespace CobolSymbols

open List PictureItem

theorem PictureItem.occurs_iff {items : List PictureItem} {wanted : List PictureSymbol} :
    occurs items wanted = true ↔ ∃ s ∈ wanted, s ∈ spread items := by
  rw [occurs, decide_eq_true_iff, total_eq, countP_pos_iff]
  simp only [contains_iff_mem, and_comm]

namespace Picture

variable {p : Picture} {text : String}

/-- The questions that decide the category, as questions about the positions. -/
theorem category_eq (p : Picture) :
    p.category =
      if .doubleByte ∈ spread p.items then .dbcs
      else if .national ∈ spread p.items then .national
      else if .character ∈ spread p.items ∨ .letter ∈ spread p.items ∧ .digit ∈ spread p.items then
        if ∃ s ∈ ([.blank, .zero, .slash] : List PictureSymbol), s ∈ spread p.items then .alphanumericEdited else .alphanumeric
      else if .letter ∈ spread p.items then .alphabetic
      else if ∃ s ∈ ([.suppressed, .asterisk, .plus, .minus, .comma, .period, .currency, .credit, .debit, .exponent, .blank,
        .zero, .slash] : List PictureSymbol), s ∈ spread p.items then .numericEdited
      else .numeric := by
  simp only [category, PictureCategory.ofItems, Bool.or_eq_true, Bool.and_eq_true, occurs_iff, mem_cons, not_mem_nil, or_false,
    exists_eq_or_imp, exists_eq_left, or_assoc]

/-- The symbols of alphabetic, numeric and alphanumeric pictures: an alphabetic picture has an `A` and none of the symbols
asked for before it, whatever else it has. -/
theorem category_alphabets (p : Picture) :
    (p.category = .alphabetic ↔ .letter ∈ spread p.items ∧
      ∀ s ∈ ([.doubleByte, .national, .character, .digit] : List PictureSymbol), s ∉ spread p.items) ∧
    (p.category = .numeric ↔
      ∀ s ∈ spread p.items, s ∈ ([.digit, .sign, .point, .scaling, .one] : List PictureSymbol)) ∧
    (p.category = .alphanumeric ↔
      (.character ∈ spread p.items ∨ .letter ∈ spread p.items ∧ .digit ∈ spread p.items) ∧
      ∀ s ∈ ([.doubleByte, .national, .blank, .zero, .slash] : List PictureSymbol), s ∉ spread p.items) := by
  rw [category_eq]
  refine ⟨?_, ?_, ?_⟩
  · repeat' split
    all_goals grind
  · constructor
    · intro h s hs
      repeat' split at h
      all_goals try cases h
      cases s <;> simp_all
    · intro h
      have hnone : ∀ s ∉ ([.digit, .sign, .point, .scaling, .one] : List PictureSymbol), s ∉ spread p.items := fun s => mt (h s)
      simp [hnone]
  · repeat' split
    all_goals grind

/-- An alphabetic picture with a symbol that is neither `A` nor `B`, and a numeric one with a symbol that is none of `9`,
`S`, `V` and `P`. -/
theorem category_beyond_alphabet :
    (∃ p, parse "A0" = .ok p ∧ p.category = .alphabetic ∧ .zero ∈ spread p.items) ∧
    ∃ p, parse "1" = .ok p ∧ p.category = .numeric ∧ .one ∈ spread p.items :=
  ⟨⟨⟨"A0", [⟨.letter, 1⟩, ⟨.zero, 1⟩], by decide⟩, rfl, rfl, by decide⟩, ⟨⟨"1", [⟨.one, 1⟩], by decide⟩, rfl, rfl, by decide⟩⟩

/-- The positions to the right of the `V`. -/
def fraction (p : Picture) : List PictureSymbol := ((spread p.items).dropWhile (· != .point)).tail

/-- The positions that the digits of a number are counted by. -/
def isDigitPosition (s : PictureSymbol) : Bool := ([.digit, .suppressed, .asterisk, .scaling] : List PictureSymbol).contains s

theorem scale_eq_fraction (h : parse text = .ok p) :
    p.scale = p.fraction.countP ([.digit, .scaling] : List PictureSymbol).contains := by
  rw [scale_eq (count_pos h), fraction]
  cases hdrop : (spread p.items).dropWhile (· != .point) with
  | nil => rfl
  | cons s rest =>
    have hpoint := head?_dropWhile_not (p := (· != PictureSymbol.point)) (spread p.items)
    rw [hdrop] at hpoint
    obtain rfl : s = .point := by simpa using hpoint
    rfl

theorem digits_of_number (h : p.category.isNumber = true) : p.digits = (spread p.items).countP isDigitPosition :=
  (if_pos h).trans (total_eq _ _)

/-- The scale of a number is the number of digit positions to the right of its `V` that are neither `Z` nor `*`. A picture
that is not a number has no digits, but the `9` and `P` to the right of its `V` are its scale. -/
theorem scale_counts_fraction (h : parse text = .ok p) :
    (p.category.isNumber = true →
      p.scale + p.fraction.countP ([.suppressed, .asterisk] : List PictureSymbol).contains = p.fraction.countP isDigitPosition ∧
      p.fraction.countP isDigitPosition ≤ p.digits) ∧
    (p.category.isNumber = false →
      p.scale = p.fraction.countP ([.digit, .scaling] : List PictureSymbol).contains ∧ p.digits = 0) ∧
    (.point ∉ spread p.items → p.scale = 0) ∧
    (p.scale ≤ p.digits ↔ p.category.isNumber = true ∨ p.scale = 0) := by
  have hscale := scale_eq_fraction h
  have hsplit : p.scale + p.fraction.countP ([.suppressed, .asterisk] : List PictureSymbol).contains =
      p.fraction.countP isDigitPosition := by
    rw [hscale]
    induction p.fraction with
    | nil => rfl
    | cons s rest ih => cases s <;> simp [isDigitPosition] at ih ⊢ <;> omega
  have hwithin : p.category.isNumber = true → p.fraction.countP isDigitPosition ≤ p.digits := by
    intro hnumber
    rw [digits_of_number hnumber]
    exact Sublist.countP_le ((tail_sublist _).trans (dropWhile_sublist _))
  have hnone : p.category.isNumber = false → p.digits = 0 := fun hnumber => if_neg (Bool.eq_false_iff.mp hnumber)
  refine ⟨fun hnumber => ⟨hsplit, hwithin hnumber⟩, fun hnumber => ⟨hscale, hnone hnumber⟩, ?_, ?_⟩
  · intro hpoint
    have hall : ∀ s ∈ spread p.items, (s != .point) = true := fun s hs => bne_iff_ne.mpr fun heq => hpoint (heq ▸ hs)
    rw [hscale, fraction, ← append_nil (spread p.items), dropWhile_append_of_pos hall]
    rfl
  · cases hnumber : p.category.isNumber with
    | true =>
      have hle := hwithin hnumber
      simp only [true_or, iff_true]
      omega
    | false => simp [hnone hnumber]

theorem scale_counts_fraction_scaled :
    ∃ p, parse "S9VPZ" = .ok p ∧ p.category.isNumber = true ∧ p.scale + 1 = 2 ∧ p.fraction.countP isDigitPosition ≤ p.digits := by
  have h : parse "S9VPZ" = .ok ⟨"S9VPZ", [⟨.sign, 1⟩, ⟨.digit, 1⟩, ⟨.point, 1⟩, ⟨.scaling, 1⟩, ⟨.suppressed, 1⟩], by decide⟩ := rfl
  exact ⟨_, h, rfl, (scale_counts_fraction h).1 rfl⟩

/-- A number with a digit position to the right of its `V` and no scale, and a picture with more scale than digits. -/
theorem scale_apart_from_digits :
    (∃ p, parse "9VZ" = .ok p ∧ p.category.isNumber = true ∧ p.fraction.countP isDigitPosition = 1 ∧ p.scale = 0) ∧
    ∃ p, parse "XV9" = .ok p ∧ p.digits = 0 ∧ p.scale = 1 :=
  ⟨⟨⟨"9VZ", _, by decide⟩, rfl, rfl, rfl, rfl⟩, ⟨"XV9", _, by decide⟩, rfl, rfl, rfl⟩

end Picture

end CobolSymbols
