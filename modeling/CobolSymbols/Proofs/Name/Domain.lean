import CobolSymbols.Name.Scope
import Mathlib.Data.List.Nodup

/-!
# What a domain finds after a change

Entering a value under a name appends it to what is found under the name and changes nothing under other names. Deleting
one undoes this, as long as no two buckets have the same name: with two, deleting the last value of the first bucket
would bring the second to light.
-/

set_option autoImplicit false

namespace CobolSymbols

open List

section EraseLast

variable {α : Type} [DecidableEq α] {value : α} {l : List α}

/-- The first occurrence from the end goes. -/
theorem eraseLast?_eq (value : α) (l : List α) :
    eraseLast? value l = if value ∈ l then some (l.reverse.erase value).reverse else none := by
  induction l with
  | nil => rfl
  | cons x rest ih =>
    rw [eraseLast?, ih, reverse_cons]
    by_cases hrest : value ∈ rest
    · simp [hrest, erase_append_left _ (mem_reverse.mpr hrest)]
    · have hreverse : value ∉ rest.reverse := mt mem_reverse.mp hrest
      by_cases hx : x = value
      · simp [hrest, hx, erase_append_right _ hreverse]
      · simp [hrest, hx, Ne.symm hx]

theorem eraseLast?_eq_none : eraseLast? value l = none ↔ value ∉ l := by simp [eraseLast?_eq]

theorem eraseLast?_eq_some {kept : List α} :
    eraseLast? value l = some kept ↔ value ∈ l ∧ (l.reverse.erase value).reverse = kept := by simp [eraseLast?_eq]

theorem eraseLast?_concat_self (value : α) (l : List α) : eraseLast? value (l ++ [value]) = some l := by
  simp [eraseLast?_eq]

section Other

variable {other : α} {kept : List α} (hother : other ≠ value)
include hother

theorem eraseLast?_concat (l : List α) : eraseLast? value (l ++ [other]) = (eraseLast? value l).map (· ++ [other]) := by
  rw [eraseLast?_eq, eraseLast?_eq]
  by_cases h : value ∈ l <;> simp [h, hother, Ne.symm hother]

theorem mem_iff_of_eraseLast? (h : eraseLast? value l = some kept) : other ∈ l ↔ other ∈ kept := by
  rw [← (eraseLast?_eq_some.mp h).2, mem_reverse, mem_erase_of_ne hother, mem_reverse]

/-- Taking out two values does not depend on the order. -/
theorem eraseLast?_erase (h : eraseLast? value l = some kept) :
    eraseLast? value (l.reverse.erase other).reverse = some (kept.reverse.erase other).reverse := by
  obtain ⟨hmem, rfl⟩ := eraseLast?_eq_some.mp h
  refine eraseLast?_eq_some.mpr ⟨?_, ?_⟩
  · rw [mem_reverse, mem_erase_of_ne hother.symm, mem_reverse]
    exact hmem
  · rw [reverse_reverse, reverse_reverse, erase_comm]

end Other

theorem getD_eraseLast? (value : α) (l : List α) : (eraseLast? value l).getD l = (l.reverse.erase value).reverse := by
  rw [eraseLast?_eq]
  by_cases h : value ∈ l
  · rw [if_pos h, Option.getD_some]
  · rw [if_neg h, Option.getD_none, erase_of_not_mem (mt mem_reverse.mp h), reverse_reverse]

/-- In a list without repetition only the value itself goes, and the others keep their order. -/
theorem eraseLast?_getD (h : l.Nodup) : (eraseLast? value l).getD l = l.filter (· ≠ value) := by
  rw [getD_eraseLast?, (nodup_reverse.mpr h).erase_eq_filter, filter_reverse, reverse_reverse]
  apply filter_congr
  intro x _
  by_cases hx : x = value <;> simp [hx]

end EraseLast

namespace Domain

variable {α : Type} {name : String}

/-- No two buckets have the same name. -/
def Keyed (d : Domain α) : Prop := (d.entries.map (·.1)).Nodup

theorem keyed_empty : ({} : Domain α).Keyed := nodup_nil

theorem lookup_bucket_cons (key first : String) (bucket : List α) (rest : List (String × List α)) :
    List.lookup key ((first, bucket) :: rest) = if key = first then some bucket else List.lookup key rest := by
  rw [lookup_cons]
  by_cases hkey : key = first
  · simp [hkey]
  · have hne : (key == first) = false := by simpa using hkey
    simp [hkey, hne]

theorem lookup_bucket_of_not_mem {entries : List (String × List α)}
    (h : name ∉ entries.map (·.1)) : List.lookup name entries = none := by
  rw [lookup_eq_none_iff]
  intro entry hentry
  have hne : name ≠ entry.1 := fun heq => h (mem_map.mpr ⟨entry, hentry, heq.symm⟩)
  simpa using hne

theorem lookup_enter (d : Domain α) (name key : String) (value : α) :
    (d.enter name value).lookup key = if key = name then d.lookup name ++ [value] else d.lookup key := by
  obtain ⟨entries⟩ := d
  simp only [lookup, enter]
  induction entries with
  | nil => by_cases hkey : key = name <;> simp [enterBucket, lookup_bucket_cons, hkey]
  | cons entry rest ih =>
    obtain ⟨first, bucket⟩ := entry
    by_cases hfirst : first = name
    · subst hfirst
      by_cases hkey : key = first <;> simp [enterBucket, lookup_bucket_cons, hkey]
    · simp only [enterBucket, if_neg hfirst, lookup_bucket_cons, if_neg (Ne.symm hfirst)]
      by_cases hkey : key = first
      · subst hkey
        simp [hfirst]
      · simpa [hkey] using ih

theorem map_fst_enterBucket (name : String) (value : α) (entries : List (String × List α)) :
    (enterBucket name value entries).map (·.1) =
      if name ∈ entries.map (·.1) then entries.map (·.1) else entries.map (·.1) ++ [name] := by
  induction entries with
  | nil => rfl
  | cons entry rest ih =>
    obtain ⟨first, bucket⟩ := entry
    by_cases hfirst : first = name
    · simp [enterBucket, hfirst]
    · simp only [enterBucket, if_neg hfirst, map_cons, ih, mem_cons, Ne.symm hfirst, false_or]
      split <;> simp

theorem Keyed.enter {d : Domain α} (h : d.Keyed) (name : String) (value : α) : (d.enter name value).Keyed := by
  unfold Keyed Domain.enter at *
  rw [map_fst_enterBucket]
  split
  · exact h
  · rename_i hnew
    refine nodup_append.mpr ⟨h, nodup_singleton name, ?_⟩
    intro key hkey other hother heq
    rw [mem_singleton.mp hother] at heq
    exact hnew (heq ▸ hkey)

/-- No bucket is empty. -/
def Filled (d : Domain α) : Prop := ∀ entry ∈ d.entries, entry.2 ≠ []

theorem Filled.enter {d : Domain α} (h : d.Filled) (name : String) (value : α) : (d.enter name value).Filled := by
  obtain ⟨entries⟩ := d
  unfold Filled Domain.enter at *
  induction entries with
  | nil => simp [enterBucket]
  | cons entry rest ih =>
    rw [forall_mem_cons] at h
    by_cases hfirst : entry.1 = name
    · simpa [enterBucket, hfirst] using h.2
    · simpa [enterBucket, hfirst, h.1] using ih h.2

variable [DecidableEq α]

/-- The domain without the last entry of a value under a name, if there is one. -/
def without (d : Domain α) (name : String) (value : α) : Domain α := (d.delete? name value).getD d

theorem without_entries (d : Domain α) (name : String) (value : α) :
    (d.without name value).entries = (deleteBucket? name value d.entries).getD d.entries := by
  unfold without delete?
  cases deleteBucket? name value d.entries <;> rfl

/-- A value can be deleted under a name when it is found there. -/
theorem delete?_eq_none {d : Domain α} {value : α} : d.delete? name value = none ↔ value ∉ d.lookup name := by
  obtain ⟨entries⟩ := d
  rw [delete?, Option.map_eq_none_iff, lookup]
  induction entries with
  | nil => simp [deleteBucket?]
  | cons entry rest ih =>
    obtain ⟨first, bucket⟩ := entry
    by_cases hfirst : first = name
    · simp [deleteBucket?, hfirst, eraseLast?_eq_none]
    · simpa [deleteBucket?, hfirst, lookup_bucket_cons, Ne.symm hfirst] using ih

theorem map_fst_deleteBucket? (name : String) (value : α) (entries : List (String × List α)) :
    (((deleteBucket? name value entries).getD entries).map (·.1)).Sublist (entries.map (·.1)) := by
  induction entries with
  | nil => exact Sublist.refl _
  | cons entry rest ih =>
    obtain ⟨first, bucket⟩ := entry
    by_cases hfirst : first = name
    · simp only [deleteBucket?, if_pos hfirst]
      cases eraseLast? value bucket with
      | none => exact Sublist.refl _
      | some kept => cases kept <;> simp
    · simp only [deleteBucket?, if_neg hfirst]
      cases hrest : deleteBucket? name value rest with
      | none => exact Sublist.refl _
      | some left => simpa [hrest] using ih

theorem Keyed.without {d : Domain α} (h : d.Keyed) (name : String) (value : α) : (d.without name value).Keyed := by
  unfold Keyed at *
  rw [without_entries]
  exact h.sublist (map_fst_deleteBucket? name value d.entries)

theorem Filled.without {d : Domain α} (h : d.Filled) (name : String) (value : α) : (d.without name value).Filled := by
  unfold Filled at *
  rw [without_entries]
  obtain ⟨entries⟩ := d
  induction entries with
  | nil => simp [deleteBucket?]
  | cons entry rest ih =>
    rw [forall_mem_cons] at h
    by_cases hfirst : entry.1 = name
    · cases hkept : eraseLast? value entry.2 with
      | none => simpa [deleteBucket?, hfirst, hkept] using h
      | some kept => cases kept <;> simpa [deleteBucket?, hfirst, hkept] using h.2
    · have ih := ih h.2
      cases hrest : deleteBucket? name value rest <;> simpa [deleteBucket?, hfirst, hrest, h.1] using ih

/-- Deleting what was entered last brings the names and their order back. -/
theorem delete?_enter {d : Domain α} (h : d.Filled) (name : String) (value : α) :
    (d.enter name value).delete? name value = some d := by
  obtain ⟨entries⟩ := d
  unfold Filled delete? Domain.enter at *
  rw [Option.map_eq_some_iff]
  refine ⟨entries, ?_, rfl⟩
  induction entries with
  | nil => simp [enterBucket, deleteBucket?, eraseLast?]
  | cons entry rest ih =>
    obtain ⟨first, bucket⟩ := entry
    rw [forall_mem_cons] at h
    by_cases hfirst : first = name
    · simp [enterBucket, deleteBucket?, hfirst, eraseLast?_eq, h.1]
    · simp [enterBucket, deleteBucket?, hfirst, ih h.2]

/-- Deleting a value changes what is found under its name only. -/
theorem lookup_without {d : Domain α} (h : d.Keyed) (name key : String) (value : α) :
    (d.without name value).lookup key =
      if key = name then (eraseLast? value (d.lookup name)).getD (d.lookup name) else d.lookup key := by
  unfold lookup
  rw [without_entries]
  unfold Keyed at h
  obtain ⟨entries⟩ := d
  induction entries with
  | nil => by_cases hkey : key = name <;> simp [deleteBucket?, eraseLast?]
  | cons entry rest ih =>
    obtain ⟨first, bucket⟩ := entry
    simp only [map_cons, nodup_cons] at h
    by_cases hfirst : first = name
    · subst hfirst
      have hrest : List.lookup first rest = none := lookup_bucket_of_not_mem h.1
      simp only [deleteBucket?, if_pos]
      cases hkept : eraseLast? value bucket with
      | none => by_cases hkey : key = first <;> simp [lookup_bucket_cons, hkey, hkept]
      | some kept =>
        -- an emptied bucket goes, and no other bucket has its name
        cases kept <;> by_cases hkey : key = first <;> simp [lookup_bucket_cons, hkey, hkept, hrest]
    · have ih := ih h.2
      simp only [deleteBucket?, if_neg hfirst, lookup_bucket_cons, if_neg (Ne.symm hfirst)]
      cases hrest : deleteBucket? name value rest with
      | none =>
        rw [hrest] at ih
        by_cases hkey : key = first
        · simp [hkey, hfirst]
        · simpa [lookup_bucket_cons, hkey] using ih
      | some left =>
        rw [hrest] at ih
        by_cases hkey : key = first
        · simp [hkey, hfirst]
        · simpa [lookup_bucket_cons, hkey] using ih

end Domain

end CobolSymbols
