import CobolSymbols.Picture.Basic
import Mathlib.Tactic.Common

/-!
# The grammar of pictures

A picture is written as a sequence of terms: a symbol, and a repetition factor in parentheses where the symbol is
repeated. Reading accepts exactly the sequences of terms whose items may stand together. A text is written by one sequence
of terms at most, since no symbol starts another one and no factor holds a closing parenthesis.
-/

set_option autoImplicit false

namespace CobolSymbols

open List Option

/-- A symbol as it is written, with the text of its repetition factor if it has one. -/
structure PictureTerm where
  symbol : PictureSymbol
  factor : Option (List Char)

namespace PictureTerm

def factorText : Option (List Char) → List Char
  | none => []
  | some factor => '(' :: factor ++ [')']

def text (term : PictureTerm) : List Char := term.symbol.chars ++ factorText term.factor

/-- How often a symbol stands; a factor has to be a positive number. -/
def count? : Option (List Char) → Option Nat
  | none => some 1
  | some factor => (Text.word? factor).filter (0 < ·)

def item? (term : PictureTerm) : Option PictureItem := (count? term.factor).map (⟨term.symbol, ·⟩)

/-- The terms write the text and stand for the items. -/
structure Spells (terms : List PictureTerm) (cs : List Char) (items : List PictureItem) : Prop where
  written : terms.flatMap PictureTerm.text = cs
  items : terms.map item? = items.map some

end PictureTerm

theorem Text.digits?_isSome {cs : List Char} {acc n : Nat} (h : digits? cs acc = some n) : ∀ c ∈ cs, (digit? c).isSome := by
  induction cs generalizing acc with
  | nil => exact forall_mem_nil _
  | cons c rest ih =>
    obtain ⟨d, hd, hrest⟩ := bind_eq_some_iff.mp h
    exact forall_mem_cons.mpr ⟨isSome_of_eq_some hd, ih hrest⟩

/-- A numeral holds no closing parenthesis. -/
theorem Text.not_mem_of_word? {cs : List Char} {n : Nat} (h : word? cs = some n) : ')' ∉ cs := by
  have hdigits : ∀ {cs : List Char}, natural? cs = some n → ')' ∉ cs := by
    intro cs hcs hmem
    unfold natural? at hcs
    split at hcs
    · cases hcs
    · exact absurd (digits?_isSome hcs ')' hmem) (by decide)
  have hnumeral := (filter_eq_some_iff.mp h).1
  split at hnumeral
  · exact fun hmem => hdigits hnumeral ((mem_cons.mp hmem).resolve_left (by decide))
  · exact hdigits hnumeral

namespace PictureSymbol

theorem read_chars (s : PictureSymbol) (rest : List Char) : read (s.chars ++ rest) = .ok (s, rest) := by
  cases s <;> simp [chars, read, ofChar?]

theorem chars_of_ofChar? {c : Char} {s : PictureSymbol} (h : ofChar? c = some s) : s.chars = [c] := by
  unfold ofChar? at h
  split at h <;> cases h <;> rfl

theorem eq_of_read {cs rest : List Char} {s : PictureSymbol} (h : read cs = .ok (s, rest)) : cs = s.chars ++ rest := by
  unfold read at h
  split at h
  · cases h
    rfl
  · cases h
    rfl
  · cases h
  · split at h
    · rename_i hchar
      cases h
      rw [chars_of_ofChar? hchar]
      rfl
    · cases h
  · cases h

end PictureSymbol

namespace PictureItem

variable {cs rest : List Char} {n : Nat} {item : PictureItem}

open PictureTerm

theorem readFactor_factorText {factor : Option (List Char)} (h : count? factor = some n)
    (hrest : rest.head? ≠ some '(') : readFactor (factorText factor ++ rest) = .ok (n, rest) := by
  cases factor with
  | none =>
    cases h
    show readFactor rest = _
    unfold readFactor
    split
    · exact absurd rfl hrest
    · rfl
  | some factor =>
    obtain ⟨hword, _⟩ := filter_eq_some_iff.mp h
    have hnone : ∀ c ∈ factor, (c != ')') = true := fun c hc => bne_iff_ne.mpr fun heq => Text.not_mem_of_word? hword (heq ▸ hc)
    have hcount : (Text.word? factor).filter (0 < ·) = some n := h
    simp [factorText, readFactor, takeWhile_append_of_pos hnone, dropWhile_append_of_pos hnone, hcount]

theorem eq_of_readFactor (h : readFactor cs = .ok (n, rest)) :
    ∃ factor, count? factor = some n ∧ cs = factorText factor ++ rest := by
  unfold readFactor at h
  split at h
  · rename_i after
    simp only at h
    split at h
    · cases h
    · rename_i close tail hdrop
      split at h
      · rename_i count hcount
        cases h
        have hclose : close = ')' := by
          have hhead := head?_dropWhile_not (p := (· != ')')) after
          rw [hdrop] at hhead
          simpa using hhead
        refine ⟨some (after.takeWhile (· != ')')), hcount, ?_⟩
        have hsplit := takeWhile_append_dropWhile (p := (· != ')')) (l := after)
        rw [hdrop, hclose] at hsplit
        simp [factorText, hsplit]
      · cases h
  · cases h
    exact ⟨none, rfl, rfl⟩

/-- Reading takes a term off the text. -/
theorem read_text {term : PictureTerm} (h : term.item? = some item)
    (hrest : rest.head? ≠ some '(') : read (term.text ++ rest) = .ok (item, rest) := by
  obtain ⟨count, hcount, rfl⟩ := map_eq_some_iff.mp h
  simp [read, PictureTerm.text, PictureSymbol.read_chars, readFactor_factorText hcount hrest]

theorem eq_of_read (h : read cs = .ok (item, rest)) :
    ∃ term : PictureTerm, term.item? = some item ∧ cs = term.text ++ rest := by
  unfold read at h
  split at h
  · cases h
  · rename_i symbol after hsymbol
    split at h
    · cases h
    · rename_i count tail hfactor
      cases h
      obtain ⟨factor, hcount, hafter⟩ := eq_of_readFactor hfactor
      refine ⟨⟨symbol, factor⟩, by simp [item?, hcount], ?_⟩
      rw [PictureSymbol.eq_of_read hsymbol, hafter, PictureTerm.text, append_assoc]

end PictureItem

namespace PictureTerm

open PictureItem (read readAll)

variable {terms terms' : List PictureTerm} {cs : List Char} {items items' : List PictureItem}

theorem text_pos (term : PictureTerm) : 0 < term.text.length := by
  obtain ⟨symbol, factor⟩ := term
  cases symbol <;> simp [text, PictureSymbol.chars]

theorem head?_flatMap_text (terms : List PictureTerm) : (terms.flatMap text).head? ≠ some '(' := by
  cases terms with
  | nil => simp
  | cons term rest =>
    obtain ⟨symbol, factor⟩ := term
    cases symbol <;> simp [text, PictureSymbol.chars]

/-- Reading takes the first of the terms off a text. -/
theorem Spells.read_head {term : PictureTerm} {rest : List PictureTerm} (h : Spells (term :: rest) cs items) :
    ∃ item remaining, items = item :: remaining ∧ term.item? = some item ∧ Spells rest (rest.flatMap text) remaining ∧
      read cs = .ok (item, rest.flatMap text) := by
  obtain ⟨rfl, hitems⟩ := h
  cases items with
  | nil => cases hitems
  | cons item remaining =>
    obtain ⟨hitem, hremaining⟩ := List.cons.inj hitems
    exact ⟨item, remaining, rfl, hitem, ⟨rfl, hremaining⟩, PictureItem.read_text hitem (head?_flatMap_text rest)⟩

/-- A text is written by one sequence of terms at most. -/
theorem Spells.unique (h : Spells terms cs items) (h' : Spells terms' cs items') : terms' = terms ∧ items' = items := by
  induction terms generalizing terms' cs items items' with
  | nil =>
    obtain ⟨rfl, hitems⟩ := h
    cases terms' with
    | nil =>
      rw [map_eq_nil_iff.mp hitems.symm, map_eq_nil_iff.mp h'.items.symm]
      exact ⟨rfl, rfl⟩
    | cons term' rest' =>
      have hpos := term'.text_pos
      have hnil := congrArg List.length h'.written
      simp only [flatMap_cons, length_append, flatMap_nil, length_nil] at hnil
      omega
  | cons term rest ih =>
    cases terms' with
    | nil =>
      have hpos := term.text_pos
      have hnil := congrArg List.length (h.written.trans h'.written.symm)
      simp only [flatMap_cons, length_append, flatMap_nil, length_nil] at hnil
      omega
    | cons term' rest' =>
      obtain ⟨item, remaining, rfl, hitem, hrest, hread⟩ := h.read_head
      obtain ⟨item', remaining', rfl, hitem', hrest', hread'⟩ := h'.read_head
      obtain ⟨rfl, hafter⟩ := Prod.mk.inj (Except.ok.inj (hread'.symm.trans hread))
      obtain ⟨rfl, rfl⟩ := ih hrest (hafter ▸ hrest')
      have htext : term'.text = term.text := append_cancel_right (h'.written.trans h.written.symm)
      obtain ⟨symbol, factor⟩ := term
      obtain ⟨symbol', factor'⟩ := term'
      obtain ⟨_, _, rfl⟩ := map_eq_some_iff.mp hitem
      obtain ⟨_, _, hsame⟩ := map_eq_some_iff.mp hitem'
      obtain ⟨rfl, _⟩ := PictureItem.mk.inj hsame
      have hfactor : factorText factor' = factorText factor := append_cancel_left htext
      refine ⟨?_, rfl⟩
      cases factor <;> cases factor' <;> simp [factorText] at hfactor <;> simp [hfactor]

theorem exists_spells_nil : (∃ terms, Spells terms [] items) ↔ items = [] := by
  have hnil : Spells [] [] [] := ⟨rfl, rfl⟩
  exact ⟨fun ⟨_, h⟩ => (hnil.unique h).2, fun h => ⟨[], h ▸ hnil⟩⟩

/-- The terms of a text are read in as many steps as it has characters. -/
theorem readAll_eq_ok_iff {steps : Nat} (hsteps : cs.length ≤ steps) :
    readAll steps cs = .ok items ↔ ∃ terms, Spells terms cs items := by
  induction steps generalizing cs items with
  | zero =>
    obtain rfl : cs = [] := eq_nil_of_length_eq_zero (Nat.le_zero.mp hsteps)
    simp [readAll, exists_spells_nil, eq_comm]
  | succ steps ih =>
    cases cs with
    | nil => simp [readAll, exists_spells_nil, eq_comm]
    | cons c cs =>
      constructor
      · intro h
        unfold readAll at h
        split at h
        · cases h
        · rename_i item rest hread
          split at h
          · cases h
          · rename_i remaining hremaining
            cases h
            obtain ⟨term, hitem, hcs⟩ := PictureItem.eq_of_read hread
            have hlength := congrArg List.length hcs
            have hpos := term.text_pos
            simp only [length_append, length_cons] at hlength hsteps
            obtain ⟨terms, hterms⟩ := (ih (by omega)).mp hremaining
            refine ⟨term :: terms, ?_, ?_⟩
            · rw [flatMap_cons, hterms.written, hcs]
            · rw [map_cons, map_cons, hitem, hterms.items]
      · rintro ⟨terms, h⟩
        cases terms with
        | nil => cases h.written
        | cons term rest =>
          obtain ⟨item, remaining, rfl, hitem, hrest, hread⟩ := h.read_head
          have hlength := congrArg List.length h.written
          have hpos := term.text_pos
          simp only [flatMap_cons, length_append, length_cons] at hlength hsteps
          have hremaining := (ih (by omega)).mpr ⟨rest, hrest⟩
          simp [readAll, hread, hremaining]

theorem count?_bounds {factor : Option (List Char)} {n : Nat} (h : count? factor = some n) : 0 < n ∧ n ≤ Text.wordMax := by
  cases factor with
  | none =>
    cases h
    decide
  | some factor =>
    obtain ⟨hword, hpos⟩ := filter_eq_some_iff.mp h
    exact ⟨of_decide_eq_true hpos, of_decide_eq_true (filter_eq_some_iff.mp hword).2⟩

theorem Spells.count_bounds (h : Spells terms cs items) : ∀ i ∈ items, 0 < i.count ∧ i.count ≤ Text.wordMax := by
  intro i hi
  obtain ⟨term, _, hterm⟩ := List.mem_map.mp (h.items ▸ List.mem_map_of_mem hi)
  obtain ⟨count, hcount, rfl⟩ := map_eq_some_iff.mp hterm
  exact count?_bounds hcount

theorem Spells.count_pos (h : Spells terms cs items) : ∀ i ∈ items, 0 < i.count := fun i hi => (h.count_bounds i hi).1

end PictureTerm

namespace PictureItem

/-- The items may stand together: there are not too many positions, one sign at most, which is leftmost, one decimal point
at most, and a number has not too many digits. -/
structure Allowed (items : List PictureItem) : Prop where
  positions : declared items ≤ maxPositions
  sign : total items [.sign] ≤ 1
  leftmost : total items.tail [.sign] = 0
  point : total items [.point] ≤ 1
  digits : PictureCategory.ofItems items = .numeric ∨ PictureCategory.ofItems items = .numericEdited →
    total items [.digit, .suppressed, .asterisk, .scaling] ≤ maxDigits

end PictureItem

namespace Picture

open PictureItem PictureTerm

theorem digitsOf_le_iff {items : List PictureItem} :
    digitsOf items ≤ maxDigits ↔
      (PictureCategory.ofItems items = .numeric ∨ PictureCategory.ofItems items = .numericEdited →
        total items [.digit, .suppressed, .asterisk, .scaling] ≤ maxDigits) := by
  unfold digitsOf PictureCategory.isNumber
  split
  · rename_i hnumber
    simp only [Bool.or_eq_true, beq_iff_eq] at hnumber
    exact ⟨fun hle _ => hle, fun hle => hle hnumber⟩
  · rename_i hnumber
    simp only [Bool.or_eq_true, beq_iff_eq] at hnumber
    exact ⟨fun _ hnumber' => absurd hnumber' hnumber, fun _ => Nat.zero_le _⟩

theorem ofItems_eq_ok_iff {text : String} {items : List PictureItem} (h : ∀ i ∈ items, 0 < i.count)
    (hpositions : declared items ≤ maxPositions) {p : Picture} :
    ofItems text items hpositions = .ok p ↔ p = ⟨text, items, hpositions⟩ ∧ Allowed items := by
  have hsign : (total items [.sign] > 1 || (total items [.sign] == 1 && (items.head?.map (·.symbol)) != some .sign)) = false ↔
      total items [.sign] ≤ 1 ∧ total items.tail [.sign] = 0 := by
    cases items with
    | nil => simp [total]
    | cons item rest =>
      have hpos := h item mem_cons_self
      by_cases hsymbol : item.symbol = .sign
      · simp [total, hsymbol]
        omega
      · simp [total, hsymbol]
        omega
  unfold ofItems
  simp only
  constructor
  · intro hok
    split at hok
    · cases hok
    · rename_i hplaced
      obtain ⟨hone, hleft⟩ := hsign.mp (Bool.not_eq_true _ ▸ hplaced)
      split at hok
      · cases hok
      · split at hok
        · cases hok
        · cases hok
          exact ⟨rfl, hpositions, hone, hleft, by omega, digitsOf_le_iff.mp (by omega)⟩
  · rintro ⟨rfl, hallowed⟩
    have hpoint := hallowed.point
    have hfew := digitsOf_le_iff.mpr hallowed.digits
    rw [hsign.mpr ⟨hallowed.sign, hallowed.leftmost⟩, if_neg Bool.false_ne_true, if_neg (by omega), if_neg (by omega)]

theorem parse_eq_ok_iff {text : String} {p : Picture} :
    parse text = .ok p ↔ p.text = String.ofList (Text.trim text.toList) ∧ p.items ≠ [] ∧ Allowed p.items ∧
      ∃ terms, Spells terms ((Text.trim text.toList).map Text.upper) p.items := by
  unfold parse
  simp only
  split
  · rename_i hempty
    rw [List.isEmpty_iff.mp hempty, exists_spells_nil]
    exact ⟨nofun, fun ⟨_, hne, _, hnil⟩ => absurd hnil hne⟩
  · rename_i hempty
    constructor
    · intro h
      split at h
      · cases h
      · rename_i items hread
        obtain ⟨terms, hterms⟩ := (readAll_eq_ok_iff (Nat.le_refl _)).mp hread
        split at h
        · rename_i hpositions
          obtain ⟨rfl, hallowed⟩ := (ofItems_eq_ok_iff hterms.count_pos hpositions).mp h
          refine ⟨rfl, ?_, hallowed, terms, hterms⟩
          rintro rfl
          have hnil : terms = [] := map_eq_nil_iff.mp hterms.items
          exact hempty (List.isEmpty_iff.mpr (by rw [← hterms.written, hnil]; rfl))
        · cases h
    · rintro ⟨htext, _, hallowed, terms, hterms⟩
      rw [(readAll_eq_ok_iff (Nat.le_refl _)).mpr ⟨terms, hterms⟩]
      simp only
      rw [dif_pos hallowed.positions, ofItems_eq_ok_iff hterms.count_pos hallowed.positions]
      exact ⟨by rw [← htext], hallowed⟩

/-- A text is read as a picture if and only if, without the blanks around it and in upper case, it is a non-empty sequence
of terms whose items may stand together. Such a text is written by these terms only, and the picture has their items. -/
theorem parse_accepts_grammar (text : String) :
    ((∃ p, parse text = .ok p) ↔
      ∃ terms items, Spells terms ((Text.trim text.toList).map Text.upper) items ∧ terms ≠ [] ∧ Allowed items) ∧
    ∀ p, parse text = .ok p → p.text = String.ofList (Text.trim text.toList) ∧
      ∃ terms, Spells terms ((Text.trim text.toList).map Text.upper) p.items ∧
        ∀ terms' items', Spells terms' ((Text.trim text.toList).map Text.upper) items' → terms' = terms ∧ items' = p.items := by
  have hnil : ∀ {terms cs items}, Spells terms cs items → (terms = [] ↔ items = []) := fun h => by
    rw [← map_eq_nil_iff (f := item?), h.items, map_eq_nil_iff]
  refine ⟨⟨?_, ?_⟩, ?_⟩
  · rintro ⟨p, h⟩
    obtain ⟨_, hne, hallowed, terms, hterms⟩ := parse_eq_ok_iff.mp h
    exact ⟨terms, p.items, hterms, mt (hnil hterms).mp hne, hallowed⟩
  · rintro ⟨terms, items, hterms, hne, hallowed⟩
    exact ⟨⟨_, items, hallowed.positions⟩, parse_eq_ok_iff.mpr ⟨rfl, mt (hnil hterms).mpr hne, hallowed, terms, hterms⟩⟩
  · intro p h
    obtain ⟨htext, _, _, terms, hterms⟩ := parse_eq_ok_iff.mp h
    exact ⟨htext, terms, hterms, fun _ _ => hterms.unique⟩

end Picture

end CobolSymbols
