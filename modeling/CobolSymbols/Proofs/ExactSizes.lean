import CobolSymbols.Proofs.Picture.Words
import CobolSymbols.Proofs.Session.Regular

/-!
# Sizes are exact

The bytes that a type takes are a number without a bound. The size of a symbol is this number when it fits 32 bits, and
there is none otherwise. No sum or product on the way is cut off, and none is given up where the result would fit: fields
only add to each other, and an array has more than one element. A picture always fits, as its positions are few enough.
-/

set_option autoImplicit false

namespace CobolSymbols

open Option DataType List Symbol Table

theorem UsageFormat.fixedSize?_le {format : UsageFormat} {n : Nat} (h : format.fixedSize? = some n) : n ≤ 8 := by
  cases format with
  | none => cases h
  | some usage => cases usage <;> cases h <;> decide

/-- Every picture fits 32 bits under every usage. -/
theorem Picture.size_le_wordMax (p : Picture) (format : UsageFormat) (signSeparate : Bool) :
    p.size format signSeparate ≤ Text.wordMax := by
  have hbounded : PictureItem.declared p.items ≤ 134217727 := p.bounded
  have hdigits := p.digits_le
  have hlength := p.length_le
  have hsign : (if signSeparate && p.category == .numeric && p.isSigned then 1 else 0) ≤ 1 := by split <;> decide
  unfold size Text.wordMax
  simp only
  split
  pick_goal 9
  · split
    · omega
    · cases hfixed : UsageFormat.fixedSize? format with
      | none =>
        rw [getD_none]
        omega
      | some n =>
        have hle := UsageFormat.fixedSize?_le hfixed
        rw [getD_some]
        omega
  all_goals
    repeat' split
    all_goals omega

mutual

/-- The bytes that an item of a type takes. -/
inductive Table.Takes (t : Table) : DataType → Nat → Prop
  | usage {format : UsageFormat} {n : Nat} (h : format.fixedSize? = some n) : t.Takes (.usage format) n
  | picture (clause : PictureClause) :
      t.Takes (.picture clause) (clause.picture.size clause.usage clause.signSeparate)
  | fields {fields : Scope SymbolId} {leading : Option DataType} {owner : SymbolId} {n : Nat}
      (hcounted : ∃ field ∈ fields.order, (t.get field).takesStorage = true) (h : t.TakesAll fields.order n) :
      t.Takes (.group fields leading owner) n
  | leading {fields : Scope SymbolId} {type : DataType} {owner : SymbolId} {n : Nat}
      (hnone : ¬ ∃ field ∈ fields.order, (t.get field).takesStorage = true) (h : t.Takes type n) :
      t.Takes (.group fields (some type) owner) n
  | array {element : DataType} {n : Nat} (min max : UInt32) (object : Option DependingOn)
      (h : t.Takes element n) : t.Takes (.array element min max object) (max.toNat * n)
  | named {reference : TypeReference} {target : SymbolId} {type : DataType} {n : Nat}
      (htarget : reference.target = some target) (htype : (t.get target).type = some type) (h : t.Takes type n) :
      t.Takes (.named reference) n

/-- The bytes that fields take together; those that take no storage of their own are passed over. -/
inductive Table.TakesAll (t : Table) : List SymbolId → Nat → Prop
  | nil : t.TakesAll [] 0
  | pass {field : SymbolId} {rest : List SymbolId} {n : Nat} (hnone : (t.get field).takesStorage = false)
      (h : t.TakesAll rest n) : t.TakesAll (field :: rest) n
  | add {field : SymbolId} {rest : List SymbolId} {type : DataType} {n m : Nat}
      (hcounted : (t.get field).takesStorage = true) (htype : (t.get field).type = some type) (h : t.Takes type n)
      (hrest : t.TakesAll rest m) : t.TakesAll (field :: rest) (n + m)

end

theorem checkedSize_eq_some_iff {n m : Nat} : checkedSize n = some m ↔ n = m ∧ n ≤ Text.wordMax := by
  unfold checkedSize
  split <;> simp [*]

section Suited

variable {s s' : Symbol} (h : s'.identity = s.identity)
include h

theorem Symbol.suits_of_identity : s'.suits = s.suits := by
  have hkind : s'.kind = s.kind := congrArg (·.2.2.1) h
  have hlevel : s'.level? = s.level? := congrArg (·.2.2.2.1) h
  rw [suits.eq_unfold]
  simp only [hkind, hlevel]

theorem Symbol.isSuited_congr (htype : s'.type = s.type) : s'.isSuited = s.isSuited := by
  rw [isSuited, suits_of_identity h, htype, isSuited]

theorem Symbol.isSuited_map {f : DataType → DataType} (htype : s'.type = s.type.map f)
    (hf : ∀ type, (f type).isRoomy = type.isRoomy ∧ (f type).isCondition = type.isCondition) :
    s'.isSuited = s.isSuited := by
  rw [isSuited, suits_of_identity h, htype, isSuited, suits.eq_unfold, Option.all_map]
  simp only [hf]

end Suited

namespace Table

variable {t : Table} {base n : Nat}

/-- Every symbol has a type that it can have. -/
def Suited (t : Table) : Prop := ∀ id, (t.get id).isSuited = true

theorem Suited.of_type (h : t.Suited) {id : SymbolId} {type : DataType} (htype : (t.get id).type = some type) :
    (t.get id).suits type = true := by
  have hid := h id
  rwa [Symbol.isSuited, htype] at hid

theorem Suited.isRoomy (h : t.Suited) {id : SymbolId} {type : DataType} (htype : (t.get id).type = some type) :
    type.isRoomy = true :=
  (Bool.and_eq_true_iff.mp (Bool.and_eq_true_iff.mp (h.of_type htype)).1).1

/-- The table answers with the bytes that the type of a symbol takes. -/
def Answers (t : Table) (id : SymbolId) : Prop :=
  ∀ n, t.sizeOf id = some n → (∃ type, (t.get id).type = some type ∧ t.Takes type n) ∧ n ≤ Text.wordMax

/-- A sum of sizes that is found is the sum of what the fields take. -/
theorem takesAll_of_foldlM (fields : List SymbolId) (total : Nat) (htotal : total ≤ Text.wordMax)
    (hasked : ∀ field ∈ fields, (t.get field).takesStorage = true → t.Answers field)
    (h : (fields.filter fun field => (t.get field).takesStorage).foldlM
      (fun total field => (t.sizeOf field).bind fun size => checkedSize (total + size)) total = some n) :
    n ≤ Text.wordMax ∧ ∃ m, n = total + m ∧ t.TakesAll fields m := by
  induction fields generalizing total with
  | nil =>
    cases h
    exact ⟨htotal, 0, rfl, .nil⟩
  | cons field rest ih =>
    have hrest := fun other hother => hasked other (mem_cons_of_mem _ hother)
    cases hcounted : (t.get field).takesStorage with
    | false =>
      rw [filter_cons_of_neg (by simp [hcounted])] at h
      obtain ⟨hle, m, heq, hall⟩ := ih total htotal hrest h
      exact ⟨hle, m, heq, .pass hcounted hall⟩
    | true =>
      rw [filter_cons_of_pos (by exact hcounted), foldlM_cons] at h
      obtain ⟨total', hsum, hafter⟩ := bind_eq_some_iff.mp h
      obtain ⟨size, hsize, hchecked⟩ := bind_eq_some_iff.mp hsum
      obtain ⟨rfl, hfits⟩ := checkedSize_eq_some_iff.mp hchecked
      obtain ⟨⟨type, htype, htakes⟩, _⟩ := hasked field mem_cons_self hcounted size hsize
      obtain ⟨hle, m, heq, hall⟩ := ih (total + size) hfits hrest hafter
      exact ⟨hle, size + m, by omega, .add hcounted htype htakes hall⟩

/-- A size that is found is what the type takes, if this is so for the sizes that it asks for. -/
theorem takes_of_sizeWith : ∀ type : DataType, (∀ id ∈ type.demands t, t.Answers id) →
    ∀ n, type.sizeWith t t.sizeOf = some n → t.Takes type n ∧ n ≤ Text.wordMax
  | .usage _, _, n, h => ⟨.usage h, (UsageFormat.fixedSize?_le h).trans (by decide)⟩
  | .picture clause, _, n, h => by
    cases h
    exact ⟨.picture clause, clause.picture.size_le_wordMax _ _⟩
  | .condition, _, _, h | .signature _, _, _, h => by cases h
  | .group fields leading _, hasked, n, h => by
    unfold DataType.demands at hasked
    unfold DataType.sizeWith at h
    cases hcounted : fields.order.filter fun field => (t.get field).takesStorage with
    | nil =>
      have hnone : ¬ ∃ field ∈ fields.order, (t.get field).takesStorage = true := by
        rintro ⟨field, hfield, hcounts⟩
        exact filter_eq_nil_iff.mp hcounted field hfield hcounts
      rw [hcounted] at h hasked
      cases leading with
      | none => cases h
      | some type =>
        obtain ⟨htakes, hle⟩ := takes_of_sizeWith type hasked n h
        exact ⟨.leading hnone htakes, hle⟩
    | cons field rest =>
      have hmem := mem_filter.mp (hcounted ▸ mem_cons_self (a := field) (l := rest))
      rw [hcounted] at h hasked
      simp only at h hasked
      rw [← hcounted] at h hasked
      obtain ⟨hle, m, heq, hall⟩ := takesAll_of_foldlM fields.order 0 (by decide)
        (fun other hother hcounts => hasked other (mem_filter.mpr ⟨hother, hcounts⟩)) h
      rw [Nat.zero_add] at heq
      exact ⟨.fields ⟨field, hmem⟩ (heq ▸ hall), hle⟩
  | .array element min max object, hasked, n, h => by
    obtain ⟨size, hsize, hchecked⟩ := bind_eq_some_iff.mp h
    obtain ⟨rfl, hle⟩ := checkedSize_eq_some_iff.mp hchecked
    exact ⟨.array min max object (takes_of_sizeWith element hasked size hsize).1, hle⟩
  | .named reference, hasked, n, h => by
    obtain ⟨target, htarget, hsize⟩ := bind_eq_some_iff.mp h
    obtain ⟨⟨type, htype, htakes⟩, hle⟩ := hasked target (by simp [DataType.demands, htarget]) n hsize
    exact ⟨.named htarget htype htakes, hle⟩

theorem Sound.answers (hsound : t.Sound base) (id : SymbolId) : t.Answers id := by
  induction id using hsound.demands_wellFounded.induction with
  | h id ih =>
    intro n h
    rw [hsound.sizeOf_eq] at h
    obtain ⟨type, htype, hsize⟩ := bind_eq_some_iff.mp h
    obtain ⟨htakes, hle⟩ := takes_of_sizeWith type (fun asked hasked => ih asked ⟨type, htype, hasked⟩) n hsize
    exact ⟨⟨type, htype, htakes⟩, hle⟩

/-- What a type takes is found, if it fits. -/
theorem Sound.sizeWith_of_takes (hsound : t.Sound base) (hroomy : t.Suited) {id : SymbolId} {type : DataType}
    (htype : (t.get id).type = some type) (h : t.Takes type n) (hle : n ≤ Text.wordMax) :
    type.sizeWith t t.sizeOf = some n := by
  -- along the derivation, with the sums of the fields starting from any total
  refine @Takes.rec t
    (fun type n _ => (∀ leading, type.leading? = some leading → leading.IsElementary) → type.isRoomy = true →
      n ≤ Text.wordMax → type.sizeWith t t.sizeOf = some n)
    (fun fields n _ => ∀ total, total + n ≤ Text.wordMax →
      (fields.filter fun field => (t.get field).takesStorage).foldlM
        (fun total field => (t.sizeOf field).bind fun size => checkedSize (total + size)) total = some (total + n))
    (fun h _ _ _ => h) (fun _ _ _ _ => rfl) ?_ ?_ ?_ ?_ (fun _ _ => rfl) ?_ ?_ _ _ h (hsound.leading_of_type htype)
    (hroomy.isRoomy htype) hle
  · intro fields leading owner n hcounted _ ih _ _ hle
    obtain ⟨field, hfield⟩ := hcounted
    unfold DataType.sizeWith
    split
    · rename_i hnil
      exact absurd hfield.2 (filter_eq_nil_iff.mp hnil field hfield.1)
    · have hsum := ih 0 (by omega)
      rwa [Nat.zero_add] at hsum
  · intro fields type owner n hnone _ ih hleading _ hle
    have hnil := filter_eq_nil_iff.mpr fun field hfield hcounts => hnone ⟨field, hfield, hcounts⟩
    unfold DataType.sizeWith
    rw [hnil]
    have helem := hleading type rfl
    refine ih (fun _ h => ?_) (isRoomy_of_not_isArray (not_isArray_of_isElementary helem)) hle
    cases type <;> cases helem <;> cases h
  · intro element n min max object _ ih hleading hroomy hle
    simp only [DataType.isRoomy, Bool.and_eq_true, decide_eq_true_eq, Bool.not_eq_true'] at hroomy
    have hmax : 1 < max.toNat := hroomy.1
    have hless : n ≤ max.toNat * n := Nat.le_mul_of_pos_left n (by omega)
    unfold DataType.sizeWith
    rw [ih hleading (isRoomy_of_not_isArray hroomy.2) (hless.trans hle)]
    exact checkedSize_eq_some_iff.mpr ⟨rfl, hle⟩
  · intro reference target type n htarget htype _ ih _ _ hle
    unfold DataType.sizeWith
    rw [htarget, bind_some, hsound.sizeOf_eq, htype]
    exact ih (hsound.leading_of_type htype) (hroomy.isRoomy htype) hle
  · intro field rest n hnone _ ih total hle
    rw [filter_cons_of_neg (by simp [hnone])]
    exact ih total hle
  · intro field rest type n m hcounted htype _ _ ih ihrest total hle
    rw [filter_cons_of_pos (by exact hcounted), foldlM_cons, hsound.sizeOf_eq, htype, bind_some,
      ih (hsound.leading_of_type htype) (hroomy.isRoomy htype) (by omega),
      bind_some, checkedSize_eq_some_iff.mpr ⟨rfl, by omega⟩]
    rw [← Nat.add_assoc]
    exact ihrest (total + n) (by omega)

theorem Regular.suited_removeProgram {program : SymbolId} (h : t.Regular) (hsound : t.Sound base)
    (hkind : (t.get program).kind = .program) (hsuited : t.Suited) : (t.removeProgram program).2.Suited := by
  intro id
  rw [h.view_removeProgram Symbol.isSuited hsound hkind (fun s f => ?_) fun s => ?_]
  · exact hsuited id
  · exact isSuited_congr (identity_mapScopes _ _) (mapScopes_type _ _)
  · exact isSuited_congr (identity_mapItem _ _ (fun _ => rfl) fun _ => rfl) (mapItem_type _ _)

end Table

namespace Declarations

variable {base old : Nat} {parent : Option ScopeRef} {d d' : Declarations}

/-- Symbols are only given types that they can have. -/
theorem Move.suited (hmove : Move base old parent d d') (h : d.table.Suited) : d'.table.Suited := by
  intro id
  rcases hmove.size_eq_or_alloc with hsize | ⟨s, owner, hfresh, _, _, rfl⟩
  · by_cases hlt : id < d.table.size
    · have hid := h id
      have hsuits := suits_of_identity (hmove.extends.identity id hlt)
      rw [Symbol.isSuited, hsuits]
      generalize hs : d'.table.get id = s
      cases hs ▸ hmove.edit hlt with
      | same | flags => exact hid
      | type type hnew hsuited => exact hsuited hid
      | refer type hnew other hsuited =>
        rw [mapItem_type]
        exact hsuited
      | item => rwa [mapItem_type]
      | domain | duplicate => rwa [mapProgram_type]
      | enter => rwa [mapScopes_type]
      | field => simpa [Symbol.isSuited, suits.eq_unfold, Option.all_map, Function.comp_def] using hid
    · rw [get_of_size_le (hsize ▸ not_lt.mp hlt)]
      rfl
  · exact (view_alloc Symbol.isSuited hfresh.suited id).trans (h id)

theorem blind_isSuited : Linker.Blind Symbol.isSuited where
  bind _ type _ := isSuited_map rfl rfl (isRoomy_bindReference type)
  list _ _ := isSuited_congr (identity_mapProgram _ _) (mapProgram_type _ _)
  object _ target := isSuited_map rfl rfl (isRoomy_bindDependingOn target)

end Declarations

namespace Session

theorem suited_reached (options : Options) (actions : List Action) : (reached options actions).table.Suited :=
  table_reached (forall_initial (P := fun _ s => s.isSuited = true) (by decide) fun _ _ => rfl)
    (fun _ file events h hs => h.keeps_compile (fun hstep hready => hstep.keeps (P := Suited)
      (fun hmove => hmove.suited) (fun d hd id => (d.view_link Declarations.blind_isSuited id).trans (hd id)) hready)
      hs file events)
    (fun _ _ _ h hsound hkind => h.suited_removeProgram hsound hkind) options actions

/-- In every table that a session reaches, the size of a symbol is a number exactly when its type takes this number of bytes
and the number fits 32 bits. -/
theorem sizes_exact (options : Options) (actions : List Action) (id : SymbolId) (n : Nat) :
    let t := (reached options actions).table
    t.sizeOf id = some n ↔ (∃ type, (t.get id).type = some type ∧ t.Takes type n) ∧ n ≤ Text.wordMax := by
  have hsound := (regular_reached options actions).sound
  refine ⟨hsound.answers id n, ?_⟩
  rintro ⟨⟨type, htype, htakes⟩, hle⟩
  rw [hsound.sizeOf_eq, htype]
  exact hsound.sizeWith_of_takes (suited_reached options actions) htype htakes hle

end Session

end CobolSymbols
