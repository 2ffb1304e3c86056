import CobolSymbols.Proofs.Picture.Normalized
import CobolSymbols.Table.Size

/-!
# Pictures in 32-bit words

The numbers of a picture are counted in 32-bit words. Here each sum and each product is a step that fails where its result
does not fit. The positions are counted first, with such steps; a picture whose positions are few enough never meets
a failing step afterwards, neither when it is read nor when its bytes are counted.
-/

set_option autoImplicit false

namespace CobolSymbols

open List

-- A sum starts from the numeral, whatever algebra of numbers is in scope.
attribute [local instance (high)] Zero.ofOfNat0

/-- Words that are added up one after the other fail as soon as their sum does not fit. -/
theorem foldlM_checkedSize {α : Type} (f : α → Nat) (l : List α) {start : Nat} (h : start ≤ Text.wordMax) :
    l.foldlM (fun sum a => checkedSize (sum + f a)) start = checkedSize (start + (l.map f).sum) := by
  induction l generalizing start with
  | nil => exact (if_pos h).symm
  | cons a rest ih =>
    rw [foldlM_cons, map_cons, sum_cons, ← Nat.add_assoc]
    by_cases hfits : start + f a ≤ Text.wordMax
    · rw [checkedSize, if_pos hfits]
      exact ih hfits
    · rw [checkedSize, if_neg hfits, checkedSize, if_neg (by omega)]
      rfl

namespace PictureItem

/-- The sum of the counts of the items whose symbol is one of those wanted, in words. -/
def totalWord (items : List PictureItem) (wanted : List PictureSymbol) : Option Nat :=
  (items.filter fun i => wanted.contains i.symbol).foldlM (fun sum i => checkedSize (sum + i.count)) 0

def positionsWord (i : PictureItem) : Option Nat := checkedSize (i.count * i.symbol.width)

def declaredWord (items : List PictureItem) : Option Nat :=
  items.foldlM (fun sum i => i.positionsWord.bind fun n => checkedSize (n + sum)) 0

/-- What has been counted on the way through the items: whether the `V` was met, the scale and the length. -/
structure Count where
  point : Bool
  scale : Nat
  length : Nat

def Count.next (c : Count) (i : PictureItem) : Option Count := do
  let scale ← if c.point && ([.digit, .scaling] : List PictureSymbol).contains i.symbol then checkedSize (c.scale + i.count)
    else some c.scale
  let length ← if ([.sign, .point, .scaling] : List PictureSymbol).contains i.symbol then some c.length
    else i.positionsWord.bind fun n => checkedSize (c.length + n)
  return ⟨c.point || i.symbol == .point, scale, length⟩

theorem declaredWord_eq (items : List PictureItem) : declaredWord items = checkedSize (declared items) := by
  have hstep : ∀ (sum : Nat) (i : PictureItem),
      (i.positionsWord.bind fun n => checkedSize (n + sum)) = checkedSize (sum + i.positions) := by
    intro sum i
    unfold positionsWord checkedSize positions
    split
    · rw [Option.bind_some, Nat.add_comm]
    · rw [Option.bind_none, if_neg (by omega)]
  simp only [declaredWord, hstep]
  rw [foldlM_checkedSize positions items (Nat.zero_le _), Nat.zero_add, declared]

theorem count_le_positions (i : PictureItem) : i.count ≤ i.positions := by
  have hwidth : 0 < i.symbol.width := by cases i.symbol <;> decide
  exact Nat.le_mul_of_pos_right _ hwidth

/-- Numbers of some of the items, none greater than its positions, are together no more than all positions. -/
theorem sum_filter_le_declared (items : List PictureItem) (wanted : PictureItem → Bool) {f : PictureItem → Nat}
    (hf : ∀ i, f i ≤ i.positions) : ((items.filter wanted).map f).sum ≤ declared items := by
  induction items with
  | nil => exact Nat.le_refl _
  | cons item rest ih =>
    have hitem := hf item
    unfold declared at ih ⊢
    rw [filter_cons, map_cons, sum_cons]
    split
    · rw [map_cons, sum_cons]
      omega
    · omega

theorem totalWord_eq {items : List PictureItem} (h : declared items ≤ maxPositions) (wanted : List PictureSymbol) :
    totalWord items wanted = some (total items wanted) := by
  have hle := sum_filter_le_declared items (fun i => wanted.contains i.symbol) count_le_positions
  have hmax : maxPositions ≤ Text.wordMax := by decide
  rw [totalWord, foldlM_checkedSize _ _ (Nat.zero_le _), checkedSize, if_pos (by omega), Nat.zero_add, total]

/-- The count behind an item, without a bound. -/
def Count.behind (c : Count) (i : PictureItem) : Count :=
  ⟨c.point || i.symbol == .point,
    c.scale + (if c.point && ([.digit, .scaling] : List PictureSymbol).contains i.symbol then i.count else 0),
    c.length + (if ([.sign, .point, .scaling] : List PictureSymbol).contains i.symbol then 0 else i.positions)⟩

theorem Count.next_eq {c : Count} {i : PictureItem} (hscale : c.scale + i.positions ≤ Text.wordMax)
    (hlength : c.length + i.positions ≤ Text.wordMax) :
    c.next i = some (c.behind i) ∧ (c.behind i).scale ≤ c.scale + i.positions ∧ (c.behind i).length ≤ c.length + i.positions := by
  have hcount := i.count_le_positions
  have hpositions : i.positionsWord = some i.positions := if_pos (by unfold positions at hlength; omega)
  have hscaled : checkedSize (c.scale + i.count) = some (c.scale + i.count) := if_pos (by omega)
  have hlonger : checkedSize (c.length + i.positions) = some (c.length + i.positions) := if_pos hlength
  unfold Count.next Count.behind
  rw [hpositions, hscaled, Option.bind_some, hlonger]
  refine ⟨by split <;> split <;> rfl, ?_, ?_⟩ <;> simp only <;> split <;> omega

/-- The way through items whose positions still fit counts the scale behind the `V` and the length. -/
theorem foldlM_next (items : List PictureItem) {c : Count} (hscale : c.scale + declared items ≤ Text.wordMax)
    (hlength : c.length + declared items ≤ Text.wordMax) :
    ∃ point, items.foldlM Count.next c = some ⟨point,
      c.scale + total (if c.point then items else items.dropWhile fun i => i.symbol != .point) [.digit, .scaling],
      c.length + declared (items.filter fun i => !([.sign, .point, .scaling] : List PictureSymbol).contains i.symbol)⟩ := by
  induction items generalizing c with
  | nil => exact ⟨c.point, by simp [total, declared]⟩
  | cons i rest ih =>
    rw [declared_cons] at hscale hlength
    obtain ⟨hnext, hscale', hlength'⟩ := Count.next_eq (c := c) (i := i) (by omega) (by omega)
    obtain ⟨point, hrest⟩ := ih (c := c.behind i) (by omega) (by omega)
    refine ⟨point, ?_⟩
    rw [foldlM_cons, hnext]
    refine hrest.trans ?_
    congr 2
    · cases hpoint : c.point with
      | true => simp [Count.behind, hpoint, total_cons, Nat.add_assoc]
      | false =>
        by_cases hsymbol : i.symbol = .point
        · simp [Count.behind, hpoint, hsymbol, total_cons]
        · simp [Count.behind, hpoint, hsymbol]
    · rw [filter_cons, Count.behind]
      cases hcounted : ([.sign, .point, .scaling] : List PictureSymbol).contains i.symbol with
      | true => rfl
      | false => exact Nat.add_assoc _ _ _

end PictureItem

namespace Picture

open PictureItem

variable (p : Picture)

theorem digits_le : p.digits ≤ declared p.items := by
  unfold digits digitsOf
  split
  · exact sum_filter_le_declared p.items _ count_le_positions
  · exact Nat.zero_le _

theorem length_le : p.length ≤ declared p.items := sum_filter_le_declared p.items _ fun _ => Nat.le_refl _

/-- The bytes under a usage, in words. -/
def sizeWord (format : UsageFormat) (signSeparate : Bool) : Option Nat :=
  let separateSign := if signSeparate && p.category == .numeric && p.isSigned then 1 else 0
  match format with
  | some .comp3 | some .packedDecimal => checkedSize (p.digits / 2 + 1)
  | some .binary | some .comp | some .comp4 | some .comp5 =>
    some (if p.digits ≤ 4 then 2 else if p.digits ≤ 9 then 4 else 8)
  | some .national => (checkedSize (p.length + separateSign)).bind fun n => checkedSize (2 * n)
  | some .display1 => checkedSize (2 * p.length)
  | other =>
    if p.category == .national || p.category == .dbcs then checkedSize (2 * p.length)
    else (checkedSize (p.length + separateSign)).map (UsageFormat.fixedSize? other).getD

theorem sizeWord_eq (format : UsageFormat) (signSeparate : Bool) :
    p.sizeWord format signSeparate = some (p.size format signSeparate) := by
  have hbounded : declared p.items ≤ 134217727 := p.bounded
  have hdigits := p.digits_le
  have hlength := p.length_le
  have hsign : (if signSeparate && p.category == .numeric && p.isSigned then 1 else 0) ≤ 1 := by split <;> decide
  have hfits : ∀ n ≤ 268435456, checkedSize n = some n := fun n hn => if_pos (Nat.le_trans hn (by decide))
  unfold sizeWord size
  simp only
  rw [hfits (p.length + _) (by omega), hfits (p.digits / 2 + 1) (by omega), hfits (2 * p.length) (by omega), Option.bind_some,
    hfits (2 * (p.length + _)) (by omega)]
  rcases format with _ | usage
  · simp only [Option.map_some, apply_ite some]
  · cases usage <;> simp only [Option.map_some, apply_ite some]

/-- No operation on 32-bit words fails when a text is read as a picture or when the bytes of a picture are counted. The
factors of a text are words, and its positions are too many in words where they are too many at all. If they are not too
many, every sum of counts, the scale and the length are found in words. An accepted picture keeps its limits, and its size
under every usage is found in words. -/
theorem words_suffice (text : String) :
    (∀ items, readAll ((Text.trim text.toList).map Text.upper).length ((Text.trim text.toList).map Text.upper) = .ok items →
      (∀ i ∈ items, i.count ≤ Text.wordMax) ∧ declaredWord items = checkedSize (declared items)) ∧
    (∀ (items : List PictureItem) (h : declared items ≤ maxPositions),
      (∀ wanted, totalWord items wanted = some (total items wanted)) ∧
      ∃ point, items.foldlM Count.next ⟨false, 0, 0⟩ = some ⟨point, scale ⟨text, items, h⟩, length ⟨text, items, h⟩⟩) ∧
    ∀ p, parse text = .ok p → p.length ≤ maxPositions ∧ p.digits ≤ maxDigits ∧
      ∀ format signSeparate, p.sizeWord format signSeparate = some (p.size format signSeparate) := by
  refine ⟨fun items hread => ⟨?_, declaredWord_eq items⟩, fun items h => ⟨totalWord_eq h, ?_⟩, fun p h => ?_⟩
  · obtain ⟨_, hterms⟩ := (PictureTerm.readAll_eq_ok_iff (Nat.le_refl _)).mp hread
    exact fun i hi => (hterms.count_bounds i hi).2
  · have hmax : maxPositions ≤ Text.wordMax := by decide
    obtain ⟨point, hcount⟩ := foldlM_next items (c := ⟨false, 0, 0⟩) (by simp only; omega) (by simp only; omega)
    refine ⟨point, hcount.trans ?_⟩
    simp only [Nat.zero_add]
    rfl
  · obtain ⟨_, _, hallowed, _⟩ := parse_eq_ok_iff.mp h
    exact ⟨Nat.le_trans p.length_le p.bounded, digitsOf_le_iff.mpr hallowed.digits, p.sizeWord_eq⟩

end Picture

end CobolSymbols
