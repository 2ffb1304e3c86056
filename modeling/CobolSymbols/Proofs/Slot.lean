import CobolSymbols.Slot.Table
import Mathlib.Data.List.Nodup
import Mathlib.Data.List.Count
import Mathlib.Data.List.Induction
import Mathlib.Logic.Function.Basic

/-!
# Slot tables as finite maps

In a slot table that is in order the free indices are those of the empty slots, each listed once. Inserting then fills a
slot that was empty and changes no other one, removing empties one slot, and the number of occupied slots is counted by
the pool. A table grows only when every slot is taken. Any run of calls answers as a partial map from indices would.
-/

set_option autoImplicit false

namespace CobolSymbols.SlotTable

open List

variable {α : Type} {t : SlotTable α} {index : Nat}

/-- The pool knows the empty slots. -/
structure InOrder (t : SlotTable α) : Prop where
  next_eq : t.pool.next = t.slots.length
  nodup : t.pool.free.Nodup
  mem_free : ∀ index, index ∈ t.pool.free ↔ t.slots[index]? = some none

theorem inOrder_empty : ({} : SlotTable α).InOrder := ⟨rfl, nodup_nil, by simp⟩

theorem get?_eq_some {value : α} : t.get? index = some value ↔ t.slots[index]? = some (some value) := by
  unfold get?
  cases t.slots[index]? <;> simp

theorem remove_of_none (h : t.get? index = none) : (t.remove index).2 = t := by
  unfold remove
  rw [h]

theorem remove_of_some {value : α} (h : t.get? index = some value) :
    (t.remove index).2 = ⟨t.slots.set index none, t.pool.release index⟩ := by
  unfold remove
  rw [h]

theorem get?_remove (t : SlotTable α) (removed index : Nat) :
    (t.remove removed).2.get? index = if index = removed then none else t.get? index := by
  cases hremoved : t.get? removed with
  | none =>
    rw [remove_of_none hremoved]
    by_cases hindex : index = removed
    · simp [hindex, hremoved]
    · simp [hindex]
  | some value =>
    rw [remove_of_some hremoved]
    have hlt : removed < t.slots.length := (List.getElem?_eq_some_iff.mp (get?_eq_some.mp hremoved)).1
    by_cases hindex : index = removed
    · simp [get?, hindex, hlt]
    · simp [get?, hindex, Ne.symm hindex]

theorem mem_occupiedFrom (start : Nat) (slots : List (Option α)) (index : Nat) (value : α) :
    (index, value) ∈ occupiedFrom start slots ↔ start ≤ index ∧ slots[index - start]? = some (some value) := by
  induction slots generalizing start with
  | nil => simp [occupiedFrom]
  | cons slot rest ih =>
    have hnext : start + 1 ≤ index → (slot :: rest)[index - start]? = rest[index - (start + 1)]? := by
      intro hle
      have hsub : index - start = index - (start + 1) + 1 := by omega
      rw [hsub, getElem?_cons_succ]
    cases slot with
    | none =>
      rw [occupiedFrom, ih]
      constructor
      · intro h
        exact ⟨by omega, (hnext h.1).trans h.2⟩
      · intro h
        have hne : index ≠ start := by
          rintro rfl
          simp at h
        have hle : start + 1 ≤ index := by omega
        exact ⟨hle, (hnext hle).symm.trans h.2⟩
    | some first =>
      rw [occupiedFrom, mem_cons, ih]
      constructor
      · rintro (h | h)
        · cases h
          simp
        · exact ⟨by omega, (hnext h.1).trans h.2⟩
      · intro h
        by_cases hne : index = start
        · subst hne
          simp at h
          exact .inl (by rw [h])
        · have hle : start + 1 ≤ index := by omega
          exact .inr ⟨hle, (hnext hle).symm.trans h.2⟩

theorem mem_toList {value : α} : (index, value) ∈ t.toList ↔ t.get? index = some value := by
  rw [toList, mem_occupiedFrom, get?_eq_some]
  simp

theorem pairwise_occupiedFrom (start : Nat) (slots : List (Option α)) :
    (occupiedFrom start slots).Pairwise fun first second => first.1 < second.1 := by
  induction slots generalizing start with
  | nil => exact Pairwise.nil
  | cons slot rest ih =>
    cases slot with
    | none => exact ih (start + 1)
    | some value =>
      refine pairwise_cons.mpr ⟨?_, ih (start + 1)⟩
      intro entry hentry
      exact ((mem_occupiedFrom (start + 1) rest entry.1 entry.2).mp hentry).1

theorem nodup_keys_occupiedFrom (start : Nat) (slots : List (Option α)) :
    ((occupiedFrom start slots).map (·.1)).Nodup :=
  pairwise_map.mpr ((pairwise_occupiedFrom start slots).imp Nat.ne_of_lt)

section

variable (h : t.InOrder)
include h

theorem insert_cases (value : α) :
    (∃ index rest, t.pool.free = index :: rest ∧ t.slots[index]? = some none ∧ index < t.slots.length ∧
      t.insert value = (index, ⟨t.slots.set index (some value), ⟨t.pool.next, rest⟩⟩)) ∨
    (t.pool.free = [] ∧ t.insert value =
      (t.slots.length, ⟨t.slots ++ [some value], ⟨t.pool.next + 1, []⟩⟩)) := by
  unfold insert IndexPool.allocate
  cases hfree : t.pool.free with
  | nil => exact .inr ⟨rfl, by simp [h.next_eq]⟩
  | cons index rest =>
    have hindex : t.slots[index]? = some none := (h.mem_free index).mp (by simp [hfree])
    have hlt : index < t.slots.length := (List.getElem?_eq_some_iff.mp hindex).1
    exact .inl ⟨index, rest, rfl, hindex, hlt, by simp [Nat.ne_of_lt hlt]⟩

theorem get?_insert (value : α) (index : Nat) :
    (t.insert value).2.get? index = if index = (t.insert value).1 then some value else t.get? index := by
  rcases insert_cases h value with ⟨taken, rest, _, _, hlt, heq⟩ | ⟨_, heq⟩
  · rw [heq]
    by_cases hindex : index = taken
    · simp [get?, hindex, hlt]
    · simp [get?, hindex, Ne.symm hindex]
  · rw [heq]
    simp only [get?, getElem?_append]
    by_cases hlt : index < t.slots.length
    · simp [hlt, Nat.ne_of_lt hlt]
    · by_cases hindex : index = t.slots.length
      · simp [hindex]
      · have hgt : 1 ≤ index - t.slots.length := by omega
        simp [hlt, hindex, getElem?_eq_none, hgt]

theorem get?_insert_fst (value : α) : t.get? (t.insert value).1 = none := by
  rcases insert_cases h value with ⟨taken, rest, _, htaken, _, heq⟩ | ⟨_, heq⟩
  · simp [heq, get?, htaken]
  · simp [heq, get?]

theorem InOrder.insert_fst_le (value : α) : (t.insert value).1 ≤ t.capacity := by
  rcases insert_cases h value with ⟨taken, rest, _, _, hlt, heq⟩ | ⟨_, heq⟩
  · rw [heq]
    exact Nat.le_of_lt hlt
  · rw [heq]
    exact Nat.le_refl _

theorem InOrder.insert (value : α) : (t.insert value).2.InOrder := by
  rcases insert_cases h value with ⟨taken, rest, hfree, _, _, heq⟩ | ⟨hfree, heq⟩
  · have hnodup : taken ∉ rest ∧ rest.Nodup := nodup_cons.mp (hfree ▸ h.nodup)
    rw [heq]
    refine ⟨by simpa using h.next_eq, hnodup.2, ?_⟩
    intro index
    have hmem := h.mem_free index
    rw [hfree, mem_cons] at hmem
    by_cases hindex : index = taken
    · subst hindex
      simp [hnodup.1, getElem?_set]
    · simpa [hindex, Ne.symm hindex] using hmem
  · rw [heq]
    refine ⟨by simp [h.next_eq], nodup_nil, ?_⟩
    intro index
    have hmem := h.mem_free index
    rw [hfree] at hmem
    simp only [not_mem_nil, false_iff, getElem?_append] at hmem ⊢
    split
    · exact hmem
    · cases hrest : index - t.slots.length <;> simp

theorem InOrder.remove (removed : Nat) : (t.remove removed).2.InOrder := by
  cases hremoved : t.get? removed with
  | none => rwa [remove_of_none hremoved]
  | some value =>
    have hslot := get?_eq_some.mp hremoved
    have hlt : removed < t.slots.length := (List.getElem?_eq_some_iff.mp hslot).1
    have hused : removed ∉ t.pool.free := by
      intro hfree
      rw [h.mem_free, hslot] at hfree
      cases hfree
    rw [remove_of_some hremoved]
    refine ⟨by simpa [IndexPool.release] using h.next_eq, nodup_cons.mpr ⟨hused, h.nodup⟩, ?_⟩
    intro index
    by_cases hindex : index = removed
    · simp [hindex, IndexPool.release, hlt]
    · simpa [hindex, Ne.symm hindex, IndexPool.release] using h.mem_free index

/-- The pool counts the empty slots. -/
theorem InOrder.length_free : t.pool.free.length + t.toList.length = t.capacity := by
  have hempty : t.pool.free.Perm ((List.range t.capacity).filter fun i => (t.get? i).isNone) := by
    rw [perm_ext_iff_of_nodup h.nodup (nodup_range.filter _)]
    intro index
    rw [h.mem_free, mem_filter, mem_range]
    constructor
    · intro hindex
      exact ⟨(List.getElem?_eq_some_iff.mp hindex).1, by simp [get?, hindex]⟩
    · rintro ⟨hlt, hnone⟩
      have hlt' : index < t.slots.length := hlt
      simpa [get?, hlt'] using hnone
  have hoccupied : (t.toList.map (·.1)).Perm ((List.range t.capacity).filter fun i => !(t.get? i).isNone) := by
    have hnodup : (t.toList.map (·.1)).Nodup := nodup_keys_occupiedFrom 0 t.slots
    rw [perm_ext_iff_of_nodup hnodup (nodup_range.filter _)]
    intro index
    rw [mem_map, mem_filter, mem_range]
    constructor
    · rintro ⟨⟨_, value⟩, hentry, rfl⟩
      have hget := mem_toList.mp hentry
      exact ⟨(List.getElem?_eq_some_iff.mp (get?_eq_some.mp hget)).1, by simp [hget]⟩
    · rintro ⟨_, hsome⟩
      cases hget : t.get? index with
      | none => simp [hget] at hsome
      | some value => exact ⟨(index, value), mem_toList.mpr hget, rfl⟩
  have hsplit := length_eq_length_filter_add (l := List.range t.capacity) fun i => (t.get? i).isNone
  rw [length_range, ← hempty.length_eq, ← hoccupied.length_eq, length_map] at hsplit
  exact hsplit.symm

theorem InOrder.size_eq : t.size = t.toList.length := by
  have hlength := h.length_free
  have hnext : t.pool.next = t.capacity := h.next_eq
  unfold size IndexPool.live
  omega

theorem InOrder.size_insert (value : α) : (t.insert value).2.size = t.size + 1 := by
  have hlength := h.length_free
  have hnext : t.pool.next = t.capacity := h.next_eq
  rcases insert_cases h value with ⟨taken, rest, hfree, _, _, heq⟩ | ⟨hfree, heq⟩
  · rw [hfree, length_cons] at hlength
    simp only [heq, size, IndexPool.live, hfree, length_cons]
    omega
  · simp [heq, size, IndexPool.live, hfree]

/-- A table grows only when every slot is taken. -/
theorem InOrder.capacity_insert (value : α) : (t.insert value).2.capacity = max t.capacity (t.size + 1) := by
  have hlength := h.length_free
  have hsize := h.size_eq
  rcases insert_cases h value with ⟨taken, rest, hfree, _, _, heq⟩ | ⟨hfree, heq⟩
  · rw [hfree, length_cons] at hlength
    simp only [heq, capacity, length_set] at hlength ⊢
    omega
  · rw [hfree, length_nil] at hlength
    simp only [heq, capacity, length_append, length_singleton] at hlength ⊢
    omega

end

theorem capacity_remove (t : SlotTable α) (removed : Nat) : (t.remove removed).2.capacity = t.capacity := by
  cases hremoved : t.get? removed with
  | none => rw [remove_of_none hremoved]
  | some value => simp [remove_of_some hremoved, capacity]

theorem InOrder.size_le_capacity (h : t.InOrder) : t.size ≤ t.capacity := by
  have hlength := h.length_free
  have hsize := h.size_eq
  omega

/-- The second table comes from the first by putting in values: it has grown only when all slots were taken. -/
structure Fills (t t' : SlotTable α) : Prop where
  inOrder : t'.InOrder
  size_le : t.size ≤ t'.size
  capacity_eq : t'.capacity = max t.capacity t'.size

theorem Fills.refl (h : t.InOrder) : Fills t t := ⟨h, Nat.le_refl _, (Nat.max_eq_left h.size_le_capacity).symm⟩

theorem Fills.trans {t' t'' : SlotTable α} (h : Fills t t') (h' : Fills t' t'') : Fills t t'' where
  inOrder := h'.inOrder
  size_le := Nat.le_trans h.size_le h'.size_le
  capacity_eq := by
    have hfirst := h.capacity_eq
    have hsecond := h'.capacity_eq
    have hle := h'.size_le
    omega

theorem InOrder.fills_insert (h : t.InOrder) (value : α) : Fills t (t.insert value).2 where
  inOrder := h.insert value
  size_le := by
    rw [h.size_insert]
    exact Nat.le_succ _
  capacity_eq := by rw [h.capacity_insert, h.size_insert]

/-! ### Runs -/

inductive Call (α : Type) where
  | insert (value : α)
  | remove (index : Nat)
  | get (index : Nat)

/-- A call with its answer. -/
inductive Answer (α : Type) where
  | inserted (index : Nat) (value : α)
  | removed (index : Nat) (found : Option α)
  | got (index : Nat) (found : Option α)
deriving DecidableEq

def Call.apply (t : SlotTable α) : Call α → SlotTable α
  | .insert value => (t.insert value).2
  | .remove index => (t.remove index).2
  | .get _ => t

def Call.answer (t : SlotTable α) : Call α → Answer α
  | .insert value => .inserted (t.insert value).1 value
  | .remove index => .removed index (t.remove index).1
  | .get index => .got index (t.get? index)

/-- The table after some calls. -/
def run (t : SlotTable α) (calls : List (Call α)) : SlotTable α := calls.foldl Call.apply t

def answers (t : SlotTable α) : List (Call α) → List (Answer α)
  | [] => []
  | c :: rest => c.answer t :: (c.apply t).answers rest

/-- The answers are those of a partial map from indices to values: a value is put where there was none, and what is found
or taken out is what was put there last. -/
def AnswersOf (map : Nat → Option α) : List (Answer α) → Prop
  | [] => True
  | .inserted index value :: rest => map index = none ∧ AnswersOf (Function.update map index (some value)) rest
  | .removed index found :: rest => found = map index ∧ AnswersOf (Function.update map index none) rest
  | .got index found :: rest => found = map index ∧ AnswersOf map rest

theorem remove_fst (t : SlotTable α) (index : Nat) : (t.remove index).1 = t.get? index := by
  unfold remove
  split <;> simp [*]

theorem InOrder.apply (h : t.InOrder) (c : Call α) : (c.apply t).InOrder := by
  cases c with
  | insert value => exact h.insert value
  | remove index => exact h.remove index
  | get index => exact h

theorem inOrder_run (calls : List (Call α)) : (run {} calls).InOrder :=
  foldlRecOn calls _ inOrder_empty fun _ h c _ => h.apply c

theorem InOrder.answersOf (h : t.InOrder) (calls : List (Call α)) : AnswersOf t.get? (t.answers calls) := by
  induction calls generalizing t with
  | nil => trivial
  | cons c rest ih =>
    have hrest := ih (h.apply c)
    cases c with
    | insert value =>
      have hmap : (t.insert value).2.get? = Function.update t.get? (t.insert value).1 (some value) := by
        funext index
        rw [get?_insert h, Function.update_apply]
      exact ⟨get?_insert_fst h value, hmap ▸ hrest⟩
    | remove removed =>
      have hmap : (t.remove removed).2.get? = Function.update t.get? removed none := by
        funext index
        rw [get?_remove, Function.update_apply]
      exact ⟨t.remove_fst removed, hmap ▸ hrest⟩
    | get index => exact ⟨rfl, hrest⟩

/-- The table grows when and only when more slots are taken than there are. -/
theorem InOrder.capacity_apply (h : t.InOrder) (c : Call α) :
    (c.apply t).capacity = max t.capacity (c.apply t).size := by
  have hle := (h.apply c).size_le_capacity
  cases c with
  | insert value => exact (h.fills_insert value).capacity_eq
  | remove index =>
    have hcapacity : (Call.apply t (.remove index)).capacity = t.capacity := capacity_remove t index
    omega
  | get index => exact (Nat.max_eq_left hle).symm

theorem peak_run (calls : List (Call α)) :
    (∀ earlier, earlier <+: calls → (run {} earlier).size ≤ (run {} calls : SlotTable α).capacity) ∧
      ∃ earlier, earlier <+: calls ∧ (run {} earlier).size = (run {} calls : SlotTable α).capacity := by
  induction calls using reverseRecOn with
  | nil =>
    refine ⟨fun earlier hearlier => ?_, [], prefix_rfl, rfl⟩
    rw [prefix_nil.mp hearlier]
    exact Nat.le_refl 0
  | append_singleton calls c ih =>
    obtain ⟨hle, peak, hpeak, heq⟩ := ih
    have hrun : run {} (calls ++ [c]) = c.apply (run {} calls) := foldl_append
    have hcapacity := (inOrder_run calls).capacity_apply c
    rw [← hrun] at hcapacity
    constructor
    · intro earlier hearlier
      rcases prefix_concat_iff.mp hearlier with rfl | hbefore
      · omega
      · have := hle earlier hbefore
        omega
    · by_cases hgrown : (run {} calls).capacity < (run {} (calls ++ [c])).size
      · exact ⟨calls ++ [c], prefix_rfl, by omega⟩
      · exact ⟨peak, hpeak.trans (prefix_append calls [c]), by omega⟩

/-- After any calls a slot table behaves as a partial map: its answers are those of one, a value goes into a slot of the
table or the next one behind it, its size counts the occupied slots, which are listed by increasing index, and it has as
many slots as were ever occupied at once. -/
theorem answers_as_map (calls : List (Call α)) :
    AnswersOf (fun _ => none) (answers {} calls) ∧
    (∀ value, ((run {} calls).insert value).1 ≤ (run {} calls : SlotTable α).capacity) ∧
    (run {} calls).size = (run {} calls).toList.length ∧
    ((run {} calls).toList.Pairwise fun first second => first.1 < second.1) ∧
    (∀ index value, (index, value) ∈ (run {} calls).toList ↔ (run {} calls).get? index = some value) ∧
    (∀ earlier, earlier <+: calls → (run {} earlier).size ≤ (run {} calls : SlotTable α).capacity) ∧
    ∃ earlier, earlier <+: calls ∧ (run {} earlier).size = (run {} calls : SlotTable α).capacity := by
  have h := inOrder_run calls
  exact ⟨inOrder_empty.answersOf calls, h.insert_fst_le, h.size_eq, pairwise_occupiedFrom 0 _, fun _ _ => mem_toList,
    peak_run calls⟩

end CobolSymbols.SlotTable
