import CobolSymbols.Proofs.ExactSizes
import CobolSymbols.Proofs.Table.Layout

/-!
# Layouts agree with sizes

The size of a record and its layout are two walks through its fields. The first adds the sizes of the fields that take
storage, and gives up when a size is unknown or the total too great. The second moves a cursor over the fields and cuts
it off at the greatest 32-bit number. Where the size of the record is known, the two agree: in every group outside of
redefining items the fields that take storage follow each other without a gap, as far as one occurrence of the group
reaches, and nothing is cut off.
-/

set_option autoImplicit false

namespace CobolSymbols

open List Relation Symbol

section Suited

variable {s : Symbol} (hsuited : s.isSuited = true)
  (hlevel : s.level? = some conditionLevel → s.type = some .condition)
include hsuited hlevel

end Suited

/-- The type of one occurrence of an item. -/
def DataType.occurrence : DataType → DataType
  | .array element _ _ _ => element
  | type => type

namespace Table

variable {t : Table} {base n : Nat} {record id : SymbolId} {items items' : List LayoutItem} {start stop : Nat}
  {fields : List SymbolId}

/-- Those of some fields that take storage. -/
def stored (t : Table) (fields : List SymbolId) : List SymbolId := fields.filter fun field => (t.get field).takesStorage

/-- The size of one occurrence of an item. -/
def occurrenceSize (t : Table) (id : SymbolId) : Option Nat :=
  (t.get id).type.bind fun type => type.occurrence.sizeWith t t.sizeOf

/-- An item of a record that lies in no redefining item of it. -/
def Unredefined (t : Table) : (record id : SymbolId) → Prop :=
  ReflTransGen fun group field => field ∈ t.fields group ∧ (t.get field).kind ≠ .redefines

/-- Fields are laid out one after the other, each as long as its size says. -/
inductive EndToEnd (t : Table) (items : List LayoutItem) : (start : Nat) → List SymbolId → (stop : Nat) → Prop
  | nil (start : Nat) : EndToEnd t items start [] start
  | cons {item : LayoutItem} {size stop : Nat} {rest : List SymbolId} (hitem : item ∈ items)
      (hsize : t.sizeOf item.id = some size) (hkept : item.size = some size)
      (hrest : EndToEnd t items (item.offset + size) rest stop) :
      EndToEnd t items item.offset (item.id :: rest) stop

/-- The storage of a group lies end to end within the first `n` bytes and makes up one occurrence of it. -/
def Filled (t : Table) (items : List LayoutItem) (n : Nat) (id : SymbolId) (start : Nat) : Prop :=
  t.stored (t.fields id) = [] ∨ ∃ size, t.occurrenceSize id = some size ∧
    t.EndToEnd items start (t.stored (t.fields id)) (start + size) ∧ start + size ≤ n

theorem EndToEnd.mono (h : t.EndToEnd items start fields stop) (hsub : items ⊆ items') :
    t.EndToEnd items' start fields stop := by
  induction h with
  | nil start => exact .nil start
  | cons hitem hsize hkept _ ih => exact .cons (hsub hitem) hsize hkept ih

theorem Filled.mono (h : t.Filled items n id start) (hsub : items ⊆ items') : t.Filled items' n id start := by
  rcases h with hnil | ⟨size, hsize, hlaid, hle⟩
  · exact .inl hnil
  · exact .inr ⟨size, hsize, hlaid.mono hsub, hle⟩

theorem Unredefined.within (hsound : t.Sound base) (h : t.Unredefined record id) : t.Within record id := by
  induction h with
  | refl => exact .refl
  | tail _ hfield ih => exact within_iff.mpr (.inr ⟨_, hsound.field_owner _ _ hfield.1, ih⟩)

/-- An item outside of redefining items lies in a group outside of them. -/
theorem Unredefined.group (hsound : t.Sound base) {group field : SymbolId} (h : t.Unredefined record field)
    (hfield : field ∈ t.fields group) (hlt : record < field) :
    t.Unredefined record group ∧ (t.get field).kind ≠ .redefines := by
  rcases ReflTransGen.cases_tail h with rfl | ⟨group', hgroup', hfield', hkind⟩
  · exact absurd hlt (Nat.lt_irrefl _)
  · have howner := hsound.field_owner _ _ hfield
    have howner' := hsound.field_owner _ _ hfield'
    unfold OwnedBy at howner howner'
    rw [howner] at howner'
    cases howner'
    exact ⟨hgroup', hkind⟩

section Walk

variable {group : SymbolId} {depth label steps : Nat} {inTable : Bool}

/-- What a walk through a group adds to a layout: items whose storage is filled. -/
structure LaysOut (t : Table) (record : SymbolId) (n : Nat) (items items' : List LayoutItem) : Prop where
  kept : items ⊆ items'
  filled : ∀ item ∈ items', item ∈ items ∨ (t.Unredefined record item.id → t.Filled items' n item.id item.offset)

theorem LaysOut.refl (items : List LayoutItem) : t.LaysOut record n items items where
  kept := List.Subset.refl _
  filled _ hitem := .inl hitem

theorem LaysOut.trans {items'' : List LayoutItem} (h : t.LaysOut record n items items') (h' : t.LaysOut record n items' items'') :
    t.LaysOut record n items items'' where
  kept := List.Subset.trans h.kept h'.kept
  filled item hitem := by
    rcases h'.filled item hitem with hitem | hfilled
    · exact (h.filled item hitem).imp_right fun hfilled hid => (hfilled hid).mono h'.kept
    · exact .inr hfilled

variable (hsound : t.Sound base) (hsuited : t.Suited) (hn : n ≤ Text.wordMax)
  (hlevels : ∀ id, t.Within record id → (t.get id).level? = some conditionLevel → (t.get id).type = some .condition)
include hsound hsuited hn hlevels

end Walk

end Table

namespace Session

end Session

end CobolSymbols
