import CobolSymbols.Proofs.Table.Sound
import CobolSymbols.Table.Size
import Mathlib.Data.Finset.Card

/-!
# Sizes can be followed to their end

The size of a symbol asks for the sizes of other symbols: of the fields of a group that take storage, and of the type that
a reference is bound to. In a sound table this never comes back: a way from a symbol to itself would use a reference,
and the references on it would lead from type to type around a cycle. So a size is known after finitely many questions,
and the bound on their number that the computation uses is never met.
-/

set_option autoImplicit false

namespace CobolSymbols

variable {sizeOf sizeOf' : SymbolId → Option Nat}

open Relation (TransGen ReflTransGen)

/-- The symbols whose sizes the size of a type asks for. -/
def DataType.demands (t : Table) : DataType → List SymbolId
  | .group fields leading _ =>
    match fields.order.filter fun field => (t.get field).takesStorage with
    | [] =>
      match leading with
      | some type => type.demands t
      | none => []
    | counted => counted
  | .array element _ _ _ => element.demands t
  | .named reference => reference.target.toList
  | .usage _ | .picture _ | .condition | .signature _ => []

/-- Adding up sizes depends only on the sizes that are added. -/
theorem foldlM_size_congr (fields : List SymbolId) (total : Nat) (h : ∀ field ∈ fields, sizeOf field = sizeOf' field) :
    fields.foldlM (fun total field => (sizeOf field).bind fun size => checkedSize (total + size)) total =
      fields.foldlM (fun total field => (sizeOf' field).bind fun size => checkedSize (total + size)) total := by
  induction fields generalizing total with
  | nil => rfl
  | cons field rest ih =>
    simp only [List.foldlM_cons, h field List.mem_cons_self]
    refine congrArg _ (funext fun total' => ?_)
    exact ih total' fun other hother => h other (List.mem_cons_of_mem _ hother)

/-- The size of a type depends only on the sizes that it asks for. -/
theorem DataType.sizeWith_congr (t : Table) :
    ∀ type : DataType, (∀ id ∈ type.demands t, sizeOf id = sizeOf' id) →
      type.sizeWith t sizeOf = type.sizeWith t sizeOf'
  | .usage _, _ | .picture _, _ | .condition, _ | .signature _, _ => rfl
  | .group fields leading _, h => by
    unfold demands at h
    unfold sizeWith
    cases hcounted : fields.order.filter fun field => (t.get field).takesStorage with
    | nil =>
      rw [hcounted] at h
      cases leading with
      | none => rfl
      | some type => exact sizeWith_congr t type h
    | cons field rest =>
      rw [hcounted] at h
      exact foldlM_size_congr (field :: rest) 0 h
  | .array element _ max _, h => by
    unfold sizeWith
    rw [sizeWith_congr t element h]
  | .named reference, h => by
    unfold sizeWith
    cases htarget : reference.target with
    | none => rfl
    | some target => exact h target (by simp [demands, htarget])

/-- An elementary type asks for no sizes. -/
theorem DataType.demands_of_isElementary (t : Table) {type : DataType} (h : type.IsElementary) :
    type.demands t = [] := by
  cases type with
  | usage _ => rfl
  | picture _ => rfl
  | _ => cases h

theorem DataType.mem_demands (t : Table) {id : SymbolId} :
    ∀ type : DataType, (∀ leading, type.leading? = some leading → leading.IsElementary) → id ∈ type.demands t →
      id ∈ (type.fields?.map Scope.order).getD [] ∨ ∃ reference, type.reference? = some reference ∧ reference.target = some id
  | .usage _, _, h | .picture _, _, h | .condition, _, h | .signature _, _, h => by cases h
  | .group fields leading _, helem, h => by
    unfold demands at h
    cases hcounted : fields.order.filter fun field => (t.get field).takesStorage with
    | nil =>
      rw [hcounted] at h
      cases leading with
      | none => cases h
      | some type =>
        simp only [demands_of_isElementary t (helem type rfl)] at h
        cases h
    | cons field rest =>
      have hmem : id ∈ fields.order.filter fun field => (t.get field).takesStorage := by
        rw [hcounted] at h ⊢
        exact h
      exact .inl (List.mem_of_mem_filter hmem)
  | .array element _ _ _, helem, h => mem_demands t element helem h
  | .named reference, _, h => .inr ⟨reference, rfl, by simpa [demands] using h⟩

namespace Table

variable {t : Table} {base : Nat} {asked id : SymbolId}

/-- The size of a symbol asks for the size of another one. -/
def Demands (t : Table) (id asked : SymbolId) : Prop := ∃ type, (t.get id).type = some type ∧ asked ∈ type.demands t

theorem Formed.leading_of_type (h : t.Formed base) {type : DataType} (htype : (t.get id).type = some type)
    (leading : DataType) (hleading : type.leading? = some leading) : leading.IsElementary := by
  refine h.leading id leading ?_
  rwa [Symbol.leading?, htype]

/-- A size asks for the sizes of fields and of types that are referred to. -/
theorem Formed.of_demands (hformed : t.Formed base) (h : t.Demands id asked) :
    t.OwnedBy asked id ∨ t.Refers id asked := by
  obtain ⟨type, htype, hasked⟩ := h
  rcases DataType.mem_demands t type (hformed.leading_of_type htype) hasked with hfield | ⟨reference, href, htarget⟩
  · refine .inl (hformed.field_owner id asked ?_)
    unfold Symbol.fieldList Symbol.fields?
    rw [htype]
    exact hfield
  · refine .inr ⟨reference, ?_, htarget⟩
    unfold Symbol.reference?
    rw [htype]
    exact href

/-- Whatever a symbol in a type leads to lies in a type that this one leads to. -/
theorem Sound.type_of_demands (hsound : t.Sound base) {start : SymbolId} (hstart : t.IsType start)
    (hid : t.Within start id) (h : ReflTransGen t.Demands id asked) :
    ∃ type, ReflTransGen t.Edge start type ∧ t.IsType type ∧ t.Within type asked := by
  induction h with
  | refl => exact ⟨start, .refl, hstart, hid⟩
  | tail _ hstep ih =>
    obtain ⟨type, hreach, htype, hwithin⟩ := ih
    rcases hsound.of_demands hstep with hown | hrefers
    · exact ⟨type, hreach, htype, within_iff.mpr (.inr ⟨_, hown, hwithin⟩)⟩
    · have hlisted := hsound.listed type _ htype hwithin hrefers.isSome
      exact ⟨_, hreach.tail ⟨_, hlisted, hrefers⟩, hsound.target_type _ _ hrefers, .refl⟩

/-- A way along questions goes up in number or uses a reference. -/
theorem Formed.lt_or_refers (hformed : t.Formed base) (h : TransGen t.Demands id asked) :
    id < asked ∨ ∃ item type, ReflTransGen t.Demands id item ∧ t.Refers item type ∧
      ReflTransGen t.Demands type asked := by
  induction h with
  | single hstep =>
    rcases hformed.of_demands hstep with hown | hrefers
    · exact .inl (hformed.ordered _ _ hown)
    · exact .inr ⟨_, _, .refl, hrefers, .refl⟩
  | tail hbefore hstep ih =>
    rcases ih with hlt | ⟨item, type, hitem, hrefers, hafter⟩
    · rcases hformed.of_demands hstep with hown | hrefers
      · exact .inl (hlt.trans (hformed.ordered _ _ hown))
      · exact .inr ⟨_, _, hbefore.to_reflTransGen, hrefers, .refl⟩
    · exact .inr ⟨item, type, hitem, hrefers, hafter.tail hstep⟩

/-- No size asks for itself. -/
theorem Sound.demands_acyclic (hsound : t.Sound base) (id : SymbolId) : ¬ TransGen t.Demands id id := by
  intro hcycle
  rcases hsound.lt_or_refers hcycle with hlt | ⟨item, type, hitem, hrefers, hafter⟩
  · exact Nat.lt_irrefl id hlt
  · -- the reference on the cycle leads from its type back into the item that it belongs to
    have htype := hsound.target_type item type hrefers
    obtain ⟨last, hreach, hlast, hwithin⟩ := hsound.type_of_demands htype .refl (hafter.trans hitem)
    have hlisted := hsound.listed last item hlast hwithin hrefers.isSome
    exact hsound.acyclic type (.tail' hreach ⟨item, hlisted, hrefers⟩)

/-- A symbol that is asked for lies in the table. -/
theorem Sound.lt_size_of_demands (hsound : t.Sound base) (h : t.Demands id asked) : asked < t.size := by
  rcases hsound.of_demands h with hown | hrefers
  · exact hown.lt_size
  · exact (hsound.target_type _ _ hrefers).lt_size

open Classical in
/-- The number of symbols that the size of a symbol comes to ask for. -/
noncomputable def demandCount (t : Table) (id : SymbolId) : Nat :=
  ((Finset.range t.size).filter fun asked => TransGen t.Demands id asked).card

theorem demandCount_le (t : Table) (id : SymbolId) : t.demandCount id ≤ t.size := by
  classical
  calc t.demandCount id ≤ (Finset.range t.size).card := Finset.card_filter_le _ _
    _ = t.size := Finset.card_range _

variable (hsound : t.Sound base)
include hsound

/-- What is asked for has fewer questions left. -/
theorem Sound.demandCount_lt (h : t.Demands id asked) : t.demandCount asked < t.demandCount id := by
  classical
  refine Finset.card_lt_card ⟨?_, ?_⟩
  · intro other hother
    simp only [Finset.mem_filter] at hother ⊢
    exact ⟨hother.1, .head h hother.2⟩
  · intro hsubset
    have hasked : asked ∈ (Finset.range t.size).filter fun other => TransGen t.Demands id other :=
      Finset.mem_filter.mpr ⟨Finset.mem_range.mpr (hsound.lt_size_of_demands h), .single h⟩
    exact hsound.demands_acyclic asked (Finset.mem_filter.mp (hsubset hasked)).2

/-- Asking for sizes comes to an end. -/
theorem Sound.demands_wellFounded : WellFounded fun asked id => t.Demands id asked :=
  Subrelation.wf hsound.demandCount_lt (measure t.demandCount).wf

/-- A bound beyond the number of questions makes no difference. -/
theorem Sound.sizeWithin_eq {steps steps' : Nat} (h : t.demandCount id < steps)
    (h' : t.demandCount id < steps') : t.sizeWithin steps id = t.sizeWithin steps' id := by
  induction steps generalizing steps' id with
  | zero => exact absurd h (Nat.not_lt_zero _)
  | succ steps ih =>
    cases steps' with
    | zero => exact absurd h' (Nat.not_lt_zero _)
    | succ steps' =>
      unfold sizeWithin
      cases htype : (t.get id).type with
      | none => rfl
      | some type =>
        refine DataType.sizeWith_congr t type fun asked hasked => ?_
        have hless := hsound.demandCount_lt ⟨type, htype, hasked⟩
        exact ih (by lia) (by lia)

theorem Sound.sizeOf_eq (id : SymbolId) : t.sizeOf id = (t.get id).type.bind (DataType.sizeWith t t.sizeOf) := by
  unfold sizeOf
  rw [sizeWithin]
  cases htype : (t.get id).type with
  | none => rfl
  | some type =>
    refine DataType.sizeWith_congr t type fun asked hasked => ?_
    have hless := hsound.demandCount_lt ⟨type, htype, hasked⟩
    have hle := t.demandCount_le id
    exact hsound.sizeWithin_eq (by lia) (by lia)

end Table

end CobolSymbols
