import CobolSymbols.Proofs.Name.Domain
import Mathlib.Data.List.Basic

/-!
# Scopes under any calls

A scope keeps its values twice, under their names and in the order of entry. As long as every value is used with one
name, the two agree after any calls, and both follow from the list of the entries that are left. Entering a value and
deleting it again has no effect, whatever is done with other values in between.
-/

set_option autoImplicit false

namespace CobolSymbols

open List

variable {α : Type}

namespace Scope

variable {s : Scope α} {nameOf : α → String}

theorem lookup_enter (s : Scope α) (name key : String) (value : α) : (s.enter name value).lookup key =
    if key = name then s.lookup name ++ [value] else s.lookup key := Domain.lookup_enter s.domain name key value

/-- The scope finds under a name what it lists of that name, in the same order. -/
structure Listed (nameOf : α → String) (s : Scope α) : Prop where
  keyed : s.domain.Keyed
  lookup : ∀ name, s.lookup name = s.order.filter fun value => nameOf value = name

theorem Listed.mem_lookup (h : s.Listed nameOf) {name : String} {value : α} :
    value ∈ s.lookup name ↔ value ∈ s.order ∧ nameOf value = name := by simp [h.lookup]

theorem Listed.enter (h : s.Listed nameOf) (value : α) : (s.enter (nameOf value) value).Listed nameOf where
  keyed := h.keyed.enter (nameOf value) value
  lookup name := by
    have horder : (s.enter (nameOf value) value).order = s.order ++ [value] := rfl
    rw [lookup_enter, horder, filter_append, h.lookup, h.lookup]
    by_cases hname : name = nameOf value
    · simp [hname]
    · simp [hname, Ne.symm hname]

/-- The scope without the last entry of a value under a name, if there is one. -/
def without [DecidableEq α] (s : Scope α) (name : String) (value : α) : Scope α := (s.delete? name value).getD s

end Scope

/-- A call that changes a scope. -/
inductive ScopeCall (α : Type) where
  | enter (name : String) (value : α)
  | delete (name : String) (value : α)
deriving DecidableEq

namespace ScopeCall

def name : ScopeCall α → String
  | .enter name _ | .delete name _ => name

def value : ScopeCall α → α
  | .enter _ value | .delete _ value => value

variable [DecidableEq α]

def apply (s : Scope α) : ScopeCall α → Scope α
  | .enter name value => s.enter name value
  | .delete name value => s.without name value

/-- What the call does to a list of entries: a deletion takes out the last equal one. -/
def record (entries : List (String × α)) : ScopeCall α → List (String × α)
  | .enter name value => entries ++ [(name, value)]
  | .delete name value => (eraseLast? (name, value) entries).getD entries

end ScopeCall

namespace Scope

variable [DecidableEq α] {s s' : Scope α} {name : String} {value other : α} {nameOf : α → String}

/-- The scope after some calls. -/
def run (s : Scope α) (calls : List (ScopeCall α)) : Scope α := calls.foldl ScopeCall.apply s

/-- The entries that are left after some calls, in the order of entry. -/
def entriesLeft (calls : List (ScopeCall α)) : List (String × α) := calls.foldl ScopeCall.record []

theorem delete?_eq_none : s.delete? name value = none ↔ value ∉ s.lookup name :=
  Option.map_eq_none_iff.trans Domain.delete?_eq_none

theorem delete?_of_mem (h : value ∈ s.lookup name) : s.delete? name value = some (s.without name value) := by
  unfold without
  cases hdeleted : s.delete? name value with
  | none => exact absurd h (delete?_eq_none.mp hdeleted)
  | some t => rfl

theorem without_domain (s : Scope α) (name : String) (value : α) :
    (s.without name value).domain = s.domain.without name value := by
  unfold without delete? Domain.without
  cases s.domain.delete? name value <;> rfl

theorem order_without (s : Scope α) (name : String) (value : α) : (s.without name value).order =
    if value ∈ s.lookup name then (s.order.reverse.erase value).reverse else s.order := by
  split
  · rename_i hmem
    obtain ⟨domain, hdomain⟩ := Option.map_eq_some_iff.mp (delete?_of_mem hmem)
    rw [← hdomain.2, getD_eraseLast?]
  · rename_i hmem
    rw [without, delete?_eq_none.mpr hmem, Option.getD_none]

theorem lookup_without (h : s.domain.Keyed) (name key : String) (value : α) : (s.without name value).lookup key =
    if key = name then ((s.lookup name).reverse.erase value).reverse else s.lookup key := by
  unfold lookup
  rw [without_domain, Domain.lookup_without h, getD_eraseLast?]

/-- After any calls no two buckets have the same name, and none is empty. -/
theorem tidy_run (calls : List (ScopeCall α)) : (run {} calls).domain.Keyed ∧ (run {} calls).domain.Filled := by
  refine foldlRecOn calls _ (motive := fun s : Scope α => s.domain.Keyed ∧ s.domain.Filled)
    ⟨Domain.keyed_empty, nofun⟩ fun s h c _ => ?_
  cases c with
  | enter name value => exact ⟨h.1.enter name value, h.2.enter name value⟩
  | delete name value =>
    rw [ScopeCall.apply, without_domain]
    exact ⟨h.1.without name value, h.2.without name value⟩

/-! ### Agreement of names and order -/

section Listed

variable (h : s.Listed nameOf)
include h

theorem Listed.order_without (value : α) :
    (s.without (nameOf value) value).order = (s.order.reverse.erase value).reverse := by
  rw [Scope.order_without]
  by_cases hmem : value ∈ s.order
  · simp [h.mem_lookup, hmem]
  · simp [h.mem_lookup, hmem, erase_of_not_mem]

theorem Listed.without (value : α) : (s.without (nameOf value) value).Listed nameOf where
  keyed := by
    rw [without_domain]
    exact h.keyed.without (nameOf value) value
  lookup name := by
    rw [lookup_without h.keyed, h.order_without, filter_reverse, ← erase_filter, filter_reverse, h.lookup, h.lookup]
    by_cases hname : name = nameOf value
    · simp [hname]
    · have hnot : value ∉ (s.order.filter fun value => nameOf value = name).reverse := by simp [Ne.symm hname]
      rw [if_neg hname, erase_of_not_mem hnot, reverse_reverse]

/-- One call changes the scope as it changes the list of entries. -/
theorem Listed.apply (c : ScopeCall α) (hname : c.name = nameOf c.value) : (c.apply s).Listed nameOf ∧
    c.record (s.order.map fun value => (nameOf value, value)) =
      (c.apply s).order.map fun value => (nameOf value, value) := by
  cases c with
  | enter name value =>
    obtain rfl : name = nameOf value := hname
    exact ⟨h.enter value, by simp [ScopeCall.record, ScopeCall.apply, Scope.enter]⟩
  | delete name value =>
    obtain rfl : name = nameOf value := hname
    have hinjective : Function.Injective fun value => (nameOf value, value) := fun _ _ heq => (Prod.mk.inj heq).2
    refine ⟨h.without value, ?_⟩
    rw [ScopeCall.apply, h.order_without, ScopeCall.record, getD_eraseLast?, map_reverse,
      @map_erase _ _ _ _ instBEqOfDecidableEq _ _ hinjective, map_reverse]

end Listed

theorem listed_run (calls : List (ScopeCall α)) (hcalls : ∀ c ∈ calls, c.name = nameOf c.value) :
    (run {} calls).Listed nameOf ∧
      entriesLeft calls = (run {} calls).order.map fun value => (nameOf value, value) :=
  foldl_rel (r := fun (s : Scope α) entries =>
      s.Listed nameOf ∧ entries = s.order.map fun value => (nameOf value, value))
    ⟨⟨Domain.keyed_empty, fun _ => rfl⟩, rfl⟩ fun c hc _ _ h => h.2 ▸ h.1.apply c (hcalls c hc)

/-- As long as every value is used with one name, a scope finds under a name what it lists of that name, keeps no empty
bucket, lists the entries that are left, and lets exactly those be deleted. -/
theorem indexes_agree (nameOf : α → String) (calls : List (ScopeCall α))
    (hcalls : ∀ c ∈ calls, c.name = nameOf c.value) :
    (∀ name, (run {} calls).lookup name = (run {} calls).order.filter fun value => nameOf value = name) ∧
    (∀ entry ∈ (run {} calls).domain.entries, entry.2 ≠ []) ∧
    (run {} calls).order = (entriesLeft calls).map (·.2) ∧ (run {} calls).order.length = (entriesLeft calls).length ∧
    ∀ name value, (((run {} calls).delete? name value).isSome ↔ (name, value) ∈ entriesLeft calls) ∧
      ((run {} calls).delete? name value = none → run {} (calls ++ [.delete name value]) = run {} calls) := by
  obtain ⟨hlisted, hentries⟩ := listed_run calls hcalls
  refine ⟨hlisted.lookup, (tidy_run calls).2, by simp [hentries, Function.comp_def], by simp [hentries],
    fun name value => ⟨?_, fun h => ?_⟩⟩
  · rw [Option.isSome_iff_ne_none, Ne, delete?_eq_none, not_not, hlisted.mem_lookup, hentries, mem_map]
    grind
  · have hlast : run {} (calls ++ [.delete name value]) = (run {} calls).without name value := foldl_append
    rw [hlast, without, h, Option.getD_none]

theorem indexes_agree_repeated :
    (∀ c ∈ [ScopeCall.enter "A" "A", .enter "B" "B", .enter "A" "A", .delete "A" "A"], c.name = id c.value) ∧
      (run {} [.enter "A" "A", .enter "B" "B", .enter "A" "A", .delete "A" "A"]).lookup "A" = ["A"] :=
  ⟨by decide, ((indexes_agree id _ (by decide)).1 "A").trans (by decide)⟩

/-! ### Entering and deleting again -/

/-- The second scope is the first with one more entry of the value under the name, behind its other ones. -/
structure Beside (name : String) (value : α) (s s' : Scope α) : Prop where
  keyed : s.domain.Keyed
  keyed' : s'.domain.Keyed
  lookup : eraseLast? value (s'.lookup name) = some (s.lookup name)
  lookup_ne : ∀ key ≠ name, s'.lookup key = s.lookup key
  order : eraseLast? value s'.order = some s.order

theorem beside_enter (h : s.domain.Keyed) (name : String) (value : α) : s.Beside name value (s.enter name value) where
  keyed := h
  keyed' := h.enter name value
  lookup := by rw [lookup_enter, if_pos rfl, eraseLast?_concat_self]
  lookup_ne key hkey := by rw [lookup_enter, if_neg hkey]
  order := eraseLast?_concat_self value s.order

section Beside

variable (h : s.Beside name value s') (hother : other ≠ value)
include h hother

theorem Beside.mem_lookup_iff (key : String) : other ∈ s'.lookup key ↔ other ∈ s.lookup key := by
  by_cases hkey : key = name
  · rw [hkey, mem_iff_of_eraseLast? hother h.lookup]
  · rw [h.lookup_ne key hkey]

theorem Beside.enter (key : String) : (s.enter key other).Beside name value (s'.enter key other) where
  keyed := h.keyed.enter key other
  keyed' := h.keyed'.enter key other
  lookup := by
    rw [lookup_enter, lookup_enter]
    split
    · rename_i hkey
      rw [← hkey, eraseLast?_concat hother, h.lookup, Option.map_some]
    · exact h.lookup
  lookup_ne found hfound := by
    rw [lookup_enter, lookup_enter]
    split
    · rename_i hkey
      rw [← hkey, h.lookup_ne found hfound]
    · exact h.lookup_ne found hfound
  order := by
    have horder := eraseLast?_concat hother s'.order
    rwa [h.order] at horder

theorem Beside.without (key : String) : (s.without key other).Beside name value (s'.without key other) where
  keyed := s.without_domain key other ▸ h.keyed.without key other
  keyed' := s'.without_domain key other ▸ h.keyed'.without key other
  lookup := by
    rw [lookup_without h.keyed, lookup_without h.keyed']
    split
    · rename_i hkey
      rw [← hkey, eraseLast?_erase hother h.lookup]
    · exact h.lookup
  lookup_ne found hfound := by
    rw [lookup_without h.keyed, lookup_without h.keyed']
    split
    · rename_i hkey
      rw [← hkey, h.lookup_ne found hfound]
    · exact h.lookup_ne found hfound
  order := by
    rw [order_without, order_without]
    by_cases hmem : other ∈ s.lookup key
    · rw [if_pos hmem, if_pos ((h.mem_lookup_iff hother key).mpr hmem), eraseLast?_erase hother h.order]
    · rw [if_neg hmem, if_neg (mt (h.mem_lookup_iff hother key).mp hmem), h.order]

end Beside

theorem Beside.run (h : s.Beside name value s') (calls : List (ScopeCall α)) (hcalls : ∀ c ∈ calls, c.value ≠ value) :
    (s.run calls).Beside name value (s'.run calls) := by
  refine foldl_rel (r := Beside name value) h fun c hc t t' ht => ?_
  cases c with
  | enter key other => exact ht.enter (hcalls _ hc) key
  | delete key other => exact ht.without (hcalls _ hc) key

/-- A deletion cancels the entry of its value across any calls with other values; done at once it gives the scope back,
with its names in their order. -/
theorem delete_cancels_enter (history calls : List (ScopeCall α)) (name : String) (value : α)
    (hcalls : ∀ c ∈ calls, c.value ≠ value) :
    (∃ t, (((run {} history).enter name value).run calls).delete? name value = some t ∧
      (∀ key, t.lookup key = ((run {} history).run calls).lookup key) ∧ t.order = ((run {} history).run calls).order) ∧
    ((run {} history).enter name value).delete? name value = some (run {} history) := by
  obtain ⟨hkeyed, hfilled⟩ := tidy_run history
  have h := (beside_enter hkeyed name value).run calls hcalls
  obtain ⟨hmem, hlookup⟩ := eraseLast?_eq_some.mp h.lookup
  refine ⟨⟨_, delete?_of_mem hmem, fun key => ?_, ?_⟩, ?_⟩
  · rw [lookup_without h.keyed']
    by_cases hkey : key = name
    · rw [if_pos hkey, hlookup, hkey]
    · rw [if_neg hkey, h.lookup_ne key hkey]
  · rw [order_without, if_pos hmem, (eraseLast?_eq_some.mp h.order).2]
  · simp [delete?, enter, Domain.delete?_enter hfilled, eraseLast?_concat_self]

theorem delete_cancels_enter_between : (∀ c ∈ [ScopeCall.delete "A" 2, .enter "B" 3], c.value ≠ 1) ∧
    ∃ t, (((run {} [.enter "A" 1, .enter "A" 2]).enter "A" 1).run [.delete "A" 2, .enter "B" 3]).delete? "A" 1 = some t ∧
      t.order = [1, 3] := by
  obtain ⟨t, ht, _, horder⟩ :=
    (delete_cancels_enter [.enter "A" 1, .enter "A" 2] [.delete "A" 2, .enter "B" 3] "A" 1 (by decide)).1
  exact ⟨by decide, t, ht, horder⟩

end Scope

end CobolSymbols
