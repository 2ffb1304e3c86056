/-!
# Domains: names with all their bearers

A domain maps a name to the values entered under it, its bucket. Several values may bear one name, and a value may be
entered more than once. Names keep the order in which they were first entered, and a name whose last value is deleted
leaves the domain.
-/

set_option autoImplicit false

namespace CobolSymbols

/-- The list without the last occurrence of a value, or nothing when the value does not occur. -/
def eraseLast? {α : Type} [DecidableEq α] (value : α) : List α → Option (List α)
  | [] => none
  | x :: rest =>
    match eraseLast? value rest with
    | some kept => some (x :: kept)
    | none => if x = value then some rest else none

/-- Names in order of first entry, each with its values in order of entry. -/
structure Domain (α : Type) where
  entries : List (String × List α) := []
deriving DecidableEq, Repr, Inhabited

namespace Domain

variable {α : Type}

def enterBucket (name : String) (value : α) : List (String × List α) → List (String × List α)
  | [] => [(name, [value])]
  | (key, bucket) :: rest =>
    if key = name then (key, bucket ++ [value]) :: rest else (key, bucket) :: enterBucket name value rest

/-- Enter `value` under `name`, after the values that already bear the name. -/
def enter (d : Domain α) (name : String) (value : α) : Domain α :=
  ⟨enterBucket name value d.entries⟩

/-- The values entered under `name`, oldest first. -/
def lookup (d : Domain α) (name : String) : List α :=
  (List.lookup name d.entries).getD []

def values (d : Domain α) : List α := d.entries.flatMap (·.2)

variable [DecidableEq α]

/-- The buckets without the last entry of `value` under `name`; an emptied bucket goes with its name. -/
def deleteBucket? (name : String) (value : α) : List (String × List α) → Option (List (String × List α))
  | [] => none
  | (key, bucket) :: rest =>
    if key = name then
      (eraseLast? value bucket).map fun kept => if kept.isEmpty then rest else (key, kept) :: rest
    else
      (deleteBucket? name value rest).map ((key, bucket) :: ·)

/-- Delete the last entry of `value` under `name`, or nothing when there is none. -/
def delete? (d : Domain α) (name : String) (value : α) : Option (Domain α) :=
  (deleteBucket? name value d.entries).map Domain.mk

def contains (d : Domain α) (name : String) (value : α) : Bool := (d.lookup name).contains value

end Domain

end CobolSymbols
