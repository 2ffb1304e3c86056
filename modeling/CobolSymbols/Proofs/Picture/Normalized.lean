import CobolSymbols.Proofs.Picture.Grammar

/-!
# The normalized form of a picture

Everything a picture says is said by its positions: the symbols one by one, each as often as its item repeats it. The
normalized form writes the positions without factors, and no text writes two sequences of positions. So the normalized
form is read as a picture of the same meaning, and pictures with one normalized form have one meaning.
-/

set_option autoImplicit false

namespace CobolSymbols

open List

-- A sum starts from the numeral, whatever algebra of numbers is in scope.
attribute [local instance (high)] Zero.ofOfNat0

namespace PictureItem

/-- The symbols of the items, each as often as it is repeated. -/
def spread (items : List PictureItem) : List PictureSymbol := items.flatMap fun i => replicate i.count i.symbol

/-- The items of symbols that are written one by one. -/
def single (symbols : List PictureSymbol) : List PictureItem := symbols.map (⟨·, 1⟩)

variable {items : List PictureItem} {symbols : List PictureSymbol}

theorem spread_cons (i : PictureItem) (rest : List PictureItem) :
    spread (i :: rest) = replicate i.count i.symbol ++ spread rest := flatMap_cons

@[simp]
theorem spread_single (symbols : List PictureSymbol) : spread (single symbols) = symbols := by
  induction symbols with
  | nil => rfl
  | cons s rest ih =>
    rw [single, map_cons, spread_cons]
    exact congrArg (s :: ·) ih

theorem total_cons (i : PictureItem) (rest : List PictureItem) (wanted : List PictureSymbol) :
    total (i :: rest) wanted = (if wanted.contains i.symbol then i.count else 0) + total rest wanted := by
  rw [total, filter_cons]
  split
  · rw [map_cons, sum_cons, total]
  · rw [Nat.zero_add, total]

theorem total_eq (items : List PictureItem) (wanted : List PictureSymbol) :
    total items wanted = (spread items).countP wanted.contains := by
  induction items with
  | nil => rfl
  | cons i rest ih => rw [spread_cons, countP_append, countP_replicate, ← ih, total_cons]

theorem declared_cons (i : PictureItem) (rest : List PictureItem) : declared (i :: rest) = i.positions + declared rest := rfl

theorem declared_eq (items : List PictureItem) : declared items = ((spread items).map PictureSymbol.width).sum := by
  induction items with
  | nil => rfl
  | cons i rest ih =>
    rw [spread_cons, map_append, sum_append_nat, ← ih, map_replicate, sum_replicate_nat, declared_cons, positions]

/-- Items of some symbols are spread as the positions of these symbols. -/
theorem spread_filter (items : List PictureItem) (wanted : PictureSymbol → Bool) :
    spread (items.filter fun i => wanted i.symbol) = (spread items).filter wanted := by
  induction items with
  | nil => rfl
  | cons i rest ih =>
    rw [spread_cons, filter_append, ← ih, filter_replicate, filter_cons]
    split
    · rw [spread_cons]
    · rfl

/-- The items from the first one with a symbol on are spread as the positions from this symbol on. -/
theorem spread_dropWhile (h : ∀ i ∈ items, 0 < i.count) (skipped : PictureSymbol → Bool) :
    spread (items.dropWhile fun i => skipped i.symbol) = (spread items).dropWhile skipped := by
  induction items with
  | nil => rfl
  | cons i rest ih =>
    obtain ⟨hpos, hrest⟩ := forall_mem_cons.mp h
    rw [dropWhile_cons]
    split
    · rename_i hskipped
      have hall : ∀ s ∈ replicate i.count i.symbol, skipped s = true := fun s hs => eq_of_mem_replicate hs ▸ hskipped
      rw [ih hrest, spread_cons, dropWhile_append_of_pos hall]
    · rename_i hkept
      obtain ⟨n, hn⟩ := Nat.exists_eq_succ_of_ne_zero (Nat.ne_of_gt hpos)
      rw [spread_cons, hn, replicate_succ, cons_append, dropWhile_cons_of_neg hkept]

theorem ofItems_congr {items' : List PictureItem} (h : spread items = spread items') :
    PictureCategory.ofItems items = PictureCategory.ofItems items' := by
  have hoccurs : occurs items = occurs items' := funext fun wanted => by rw [occurs, occurs, total_eq, total_eq, h]
  rw [PictureCategory.ofItems, PictureCategory.ofItems, hoccurs]

/-- Written one by one, symbols may stand together where they may with their factors. -/
theorem Allowed.single (h : Allowed items) (hpos : ∀ i ∈ items, 0 < i.count) : Allowed (single (spread items)) := by
  have htotal : ∀ wanted, total (PictureItem.single (spread items)) wanted = total items wanted := fun wanted => by
    rw [total_eq, total_eq, spread_single]
  refine ⟨?_, htotal _ ▸ h.sign, ?_, htotal _ ▸ h.point, ?_⟩
  · rw [declared_eq, spread_single, ← declared_eq]
    exact h.positions
  · cases items with
    | nil => rfl
    | cons i rest =>
      -- The first item may hide a second sign only if it repeats the sign itself.
      obtain ⟨n, hn⟩ := Nat.exists_eq_succ_of_ne_zero (Nat.ne_of_gt (hpos i mem_cons_self))
      have hone := h.sign
      have hrest := h.leftmost
      rw [total_eq, spread_cons, countP_append, countP_replicate, hn] at hone
      rw [tail_cons, total_eq] at hrest
      have htail : (PictureItem.single (spread (i :: rest))).tail = PictureItem.single (replicate n i.symbol ++ spread rest) := by
        rw [spread_cons, hn]
        rfl
      rw [htail, total_eq, spread_single, countP_append, countP_replicate, hrest]
      split
      · rename_i hsign
        rw [if_pos hsign] at hone
        omega
      · rfl
  · rw [ofItems_congr (spread_single _), htotal]
    exact h.digits

end PictureItem

namespace PictureTerm

theorem spells_single (symbols : List PictureSymbol) :
    Spells (symbols.map (⟨·, none⟩)) (symbols.flatMap PictureSymbol.chars) (PictureItem.single symbols) := by
  refine ⟨?_, ?_⟩
  · simp [flatMap_map, text, factorText]
  · simp [PictureItem.single, item?, count?]

/-- No text writes two sequences of symbols. -/
theorem flatMap_chars_injective : Function.Injective (flatMap PictureSymbol.chars) := by
  intro symbols symbols' h
  have hsame := ((spells_single symbols).unique (h ▸ spells_single symbols')).2
  rw [← PictureItem.spread_single symbols, ← PictureItem.spread_single symbols', hsame]

end PictureTerm

theorem Text.trim_eq_self {cs : List Char} (h : ∀ c ∈ cs, isBlank c = false) : trim cs = cs := by
  have hdrop : ∀ {cs : List Char}, (∀ c ∈ cs, isBlank c = false) → cs.dropWhile isBlank = cs := by
    intro cs h
    cases cs with
    | nil => rfl
    | cons c rest => rw [dropWhile_cons_of_neg (by simp [h c mem_cons_self])]
  rw [trim, hdrop h, hdrop fun c hc => h c (mem_reverse.mp hc), reverse_reverse]

/-- Symbols are written in upper case and without blanks. -/
theorem PictureSymbol.chars_plain (s : PictureSymbol) : ∀ c ∈ s.chars, Text.isBlank c = false ∧ Text.upper c = c := by
  have hall : (s.chars.all fun c => !Text.isBlank c && Text.upper c == c) = true := by cases s <;> rfl
  simpa using hall

namespace Picture

open PictureItem PictureTerm

variable {p q : Picture} {text : String}

theorem normalized_eq (p : Picture) : p.normalized = String.ofList ((spread p.items).flatMap PictureSymbol.chars) := by
  have hchars : ∀ i : PictureItem, (replicate i.count i.symbol.chars).flatten = (replicate i.count i.symbol).flatMap PictureSymbol.chars :=
    fun i => by rw [flatMap_def, map_replicate]
  simp only [normalized, spread, flatMap_assoc, hchars]

theorem length_eq (p : Picture) :
    p.length = (((spread p.items).filter fun s => !([.sign, .point, .scaling] : List PictureSymbol).contains s).map
      PictureSymbol.width).sum := by
  rw [length, declared_eq, ← spread_filter p.items fun s => !([.sign, .point, .scaling] : List PictureSymbol).contains s]

theorem scale_eq (h : ∀ i ∈ p.items, 0 < i.count) :
    p.scale = ((spread p.items).dropWhile (· != .point)).countP ([.digit, .scaling] : List PictureSymbol).contains := by
  rw [scale, total_eq, ← spread_dropWhile h (· != .point)]

/-- The pictures describe the same data. -/
structure Agrees (p q : Picture) : Prop where
  category : p.category = q.category
  digits : p.digits = q.digits
  scale : p.scale = q.scale
  isSigned : p.isSigned = q.isSigned
  length : p.length = q.length
  size : ∀ format signSeparate, p.size format signSeparate = q.size format signSeparate

theorem count_pos (h : parse text = .ok p) : ∀ i ∈ p.items, 0 < i.count := by
  obtain ⟨_, _, _, _, hterms⟩ := parse_eq_ok_iff.mp h
  exact hterms.count_pos

/-- What a picture describes is told by its positions. -/
theorem agrees_of_spread (hp : ∀ i ∈ p.items, 0 < i.count) (hq : ∀ i ∈ q.items, 0 < i.count)
    (h : spread p.items = spread q.items) : Agrees p q := by
  have htotal : ∀ wanted, total p.items wanted = total q.items wanted := fun wanted => by rw [total_eq, total_eq, h]
  have hcategory : p.category = q.category := ofItems_congr h
  have hdigits : p.digits = q.digits := by rw [digits, digits, digitsOf, digitsOf, ofItems_congr h, htotal]
  have hsigned : p.isSigned = q.isSigned := by simp only [isSigned, occurs, htotal]
  have hlength : p.length = q.length := by rw [length_eq, length_eq, h]
  refine ⟨hcategory, hdigits, ?_, hsigned, hlength, fun format signSeparate => ?_⟩
  · rw [scale_eq hp, scale_eq hq, h]
  · simp only [size, hcategory, hdigits, hsigned, hlength]

theorem agrees_of_normalized {text' : String} (hp : parse text = .ok p) (hq : parse text' = .ok q)
    (h : p.normalized = q.normalized) : Agrees p q := by
  rw [normalized_eq, normalized_eq, String.ofList_inj] at h
  exact agrees_of_spread (count_pos hp) (count_pos hq) (flatMap_chars_injective h)

/-- The normalized form is read as the picture of the same positions. -/
theorem parse_normalized (h : parse text = .ok p) :
    ∃ q, parse p.normalized = .ok q ∧ spread q.items = spread p.items := by
  obtain ⟨_, hne, hallowed, _⟩ := parse_eq_ok_iff.mp h
  have hone := hallowed.single (count_pos h)
  have hplain : ∀ c ∈ (spread p.items).flatMap PictureSymbol.chars, Text.isBlank c = false ∧ Text.upper c = c := by
    intro c hc
    obtain ⟨s, _, hs⟩ := mem_flatMap.mp hc
    exact s.chars_plain c hs
  have htrim := Text.trim_eq_self fun c hc => (hplain c hc).1
  have hupper := (map_congr_left fun c hc => (hplain c hc).2).trans (map_id' _)
  refine ⟨⟨p.normalized, single (spread p.items), hone.positions⟩, parse_eq_ok_iff.mpr ⟨?_, ?_, hone, ?_⟩, spread_single _⟩
  · rw [normalized_eq, String.toList_ofList, htrim]
  · obtain ⟨i, rest, hitems⟩ := exists_cons_of_ne_nil hne
    have hpos := count_pos h i (hitems ▸ mem_cons_self)
    simp only [single, ne_eq, map_eq_nil_iff, hitems, spread_cons, append_eq_nil_iff, replicate_eq_nil_iff]
    omega
  · rw [normalized_eq, String.toList_ofList, htrim, hupper]
    exact ⟨_, spells_single _⟩

/-- The normalized form of a picture is read as a picture of the same normalized form and of the same meaning. Two texts
with one normalized form have the same meaning. -/
theorem normalized_keeps_meaning (h : parse text = .ok p) :
    (∃ q, parse p.normalized = .ok q ∧ q.normalized = p.normalized ∧ Agrees q p) ∧
    ∀ text' p', parse text' = .ok p' → p'.normalized = p.normalized → Agrees p' p := by
  refine ⟨?_, fun _ _ h' hnormalized => agrees_of_normalized h' h hnormalized⟩
  obtain ⟨q, hq, hspread⟩ := parse_normalized h
  exact ⟨q, hq, by rw [normalized_eq, normalized_eq, hspread], agrees_of_spread (count_pos hq) (count_pos h) hspread⟩

theorem normalized_keeps_meaning_counted :
    ∃ p q, parse " 9(2)db(2)" = .ok p ∧ p.normalized = "99DBDB" ∧ parse "99DBDB" = .ok q ∧ Agrees q p := by
  have h : parse " 9(2)db(2)" = .ok ⟨"9(2)db(2)", [⟨.digit, 2⟩, ⟨.debit, 2⟩], by decide⟩ := rfl
  have hnormalized : Picture.normalized ⟨"9(2)db(2)", [⟨.digit, 2⟩, ⟨.debit, 2⟩], by decide⟩ = "99DBDB" := by
    decide +kernel
  obtain ⟨⟨q, hq, -, hagrees⟩, -⟩ := normalized_keeps_meaning h
  rw [hnormalized] at hq
  exact ⟨_, q, h, hnormalized, hq, hagrees⟩

end Picture

end CobolSymbols
