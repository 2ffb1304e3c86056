import CobolSymbols.Proofs.Table.Layout
import CobolSymbols.Proofs.Table.Renaming
import CobolSymbols.Proofs.Table.Size

/-!
# Records under other numbers

Items that are alike take the same bytes and lie at the same places of their records. So a level-66 entry means the same
range under other numbers, or the same problem is reported.
-/

set_option autoImplicit false

namespace CobolSymbols

open List Option

variable {ρ : SymbolId → SymbolId} {t t' : Table} {base : Nat}

/-- Two results with what they leave behind: the first parts go with each other, and what is left is alike. -/
structure Returns {α β : Type} (rename : α → α) (alike : β → β → Prop) (r r' : α × β) : Prop where
  fst : r'.1 = rename r.1
  snd : alike r.2 r'.2

section Sizes

theorem Symbol.Alike.takesStorage {s s' : Symbol} (h : s.Alike ρ s') : s'.takesStorage = s.takesStorage := by
  unfold Symbol.takesStorage
  rw [h.kind, h.type]
  cases s.type with
  | none => rfl
  | some type => simp

theorem DataType.sizeWith_rename (h : t.Alike ρ t') {sizeOf sizeOf' : SymbolId → Option Nat}
    (hsize : ∀ id, sizeOf' (ρ id) = sizeOf id) :
    ∀ type : DataType, (type.rename ρ).sizeWith t' sizeOf' = type.sizeWith t sizeOf
  | .usage _ | .picture _ | .condition | .signature _ => rfl
  | .group fields leading _ => by
    have hcounted : (fields.map ρ).order.filter (fun field => (t'.get field).takesStorage) =
        (fields.order.filter fun field => (t.get field).takesStorage).map ρ :=
      Table.filter_map_of_eq (fun field => (h.get field).takesStorage) fields.order
    rw [rename_group]
    unfold sizeWith
    rw [hcounted]
    cases fields.order.filter fun field => (t.get field).takesStorage with
    | nil =>
      cases leading with
      | none => rfl
      | some type => exact sizeWith_rename h hsize type
    | cons field rest =>
      have hsum : (fun (total : Nat) (id : SymbolId) => (sizeOf' (ρ id)).bind fun size => checkedSize (total + size)) =
          fun total id => (sizeOf id).bind fun size => checkedSize (total + size) := by
        funext total id
        rw [hsize]
      simp only [map_cons]
      rw [← map_cons, foldlM_map, hsum]
  | .array element _ max _ => by
    unfold rename sizeWith
    rw [sizeWith_rename h hsize element]
  | .named reference => by
    unfold rename sizeWith TypeReference.rename
    cases htarget : reference.target with
    | none => rfl
    | some target => exact hsize target

namespace Table

variable (h : t.Alike ρ t')
include h

theorem Alike.sizeWithin (steps : Nat) (id : SymbolId) : t'.sizeWithin steps (ρ id) = t.sizeWithin steps id := by
  induction steps generalizing id with
  | zero => rfl
  | succ steps ih =>
    unfold Table.sizeWithin
    rw [(h.get id).type]
    cases (t.get id).type with
    | none => rfl
    | some type => exact DataType.sizeWith_rename h ih type

/-- Items that are alike take the same bytes. -/
theorem Alike.sizeOf (hsound : t.Sound base) (id : SymbolId) : t'.sizeOf (ρ id) = t.sizeOf id := by
  have hle := t.demandCount_le id
  have hsize := h.size_le
  unfold Table.sizeOf
  rw [h.sizeWithin]
  exact hsound.sizeWithin_eq (by omega) (by omega)

theorem Alike.isTable (id : SymbolId) : t'.isTable (ρ id) = t.isTable id := by
  unfold Table.isTable
  rw [(h.get id).type]
  cases (t.get id).type with
  | none => rfl
  | some type => simp

theorem Alike.fields (id : SymbolId) : t'.fields (ρ id) = (t.fields id).map ρ := (h.get id).fieldList

end Table

end Sizes

section Layout

/-- An item of a layout, under other numbers. -/
def LayoutItem.rename (ρ : SymbolId → SymbolId) (item : LayoutItem) : LayoutItem := { item with id := ρ item.id }

theorem LayoutItem.id_beq_rename (hρ : Function.Injective ρ) (id : SymbolId) :
    ((fun item : LayoutItem => item.id == ρ id) ∘ LayoutItem.rename ρ) = fun item => item.id == id := by
  funext item
  apply Bool.eq_iff_iff.mpr
  simp [LayoutItem.rename, hρ.eq_iff]

namespace Table

theorem Alike.placeOf (h : t.Alike ρ t') (laidOut : List LayoutItem) (cursor : Nat) (id : SymbolId) :
    t'.placeOf (laidOut.map (LayoutItem.rename ρ)) cursor (ρ id) = t.placeOf laidOut cursor id := by
  unfold Table.placeOf
  rcases (h.get id).item? with ⟨hs, hs'⟩ | ⟨data, data', hs, hs', hdata⟩
  · rw [hs, hs']
  · simp only [hs, hs', hdata.kind]
    cases data.kind with
    | redefines target =>
      cases target with
      | none => rfl
      | some target =>
        simp only [ItemKind.rename, map_some, bind_some, find?_map,
          LayoutItem.id_beq_rename h.injective, Option.map_map]
        rfl
    | plain | typeDefinition restriction items => simp [ItemKind.rename, hdata.level]
    | renames first thru range => rfl
    | index indexed => rfl

theorem fields_of_size_le (group : SymbolId) (h : t.size ≤ group) : t.fields group = [] := by
  unfold fields
  rw [get_of_size_le h]
  rfl

/-- Further steps lay out no further fields. -/
theorem Formed.layoutFields_eq (hformed : t.Formed base) {steps steps' : Nat} {group : SymbolId}
    (hsteps : t.size ≤ group + steps) (hsteps' : t.size ≤ group + steps') (depth start : Nat) (inTable : Bool)
    (laidOut : List LayoutItem) :
    t.layoutFields steps depth start inTable group laidOut = t.layoutFields steps' depth start inTable group laidOut := by
  induction steps generalizing steps' group depth start inTable laidOut with
  | zero =>
    cases steps' with
    | zero => rfl
    | succ steps' =>
      rw [layoutFields_succ, fields_of_size_le group hsteps]
      rfl
  | succ steps ih =>
    cases steps' with
    | zero =>
      rw [layoutFields_succ, fields_of_size_le group hsteps']
      rfl
    | succ steps' =>
      rw [layoutFields_succ, layoutFields_succ]
      congr 1
      apply foldl_ext
      intro state field hfield
      have hlt : group < field := hformed.ordered field group (hformed.field_owner group field hfield)
      have hlt' : Nat.succ group ≤ field := hlt
      unfold addField
      cases t.placeOf state.2 state.1 field with
      | none => rfl
      | some place =>
        simp only
        have hsame := @ih steps' field (by omega) (by omega)
        rw [hsame]

theorem Alike.layoutFields (h : t.Alike ρ t') (hsound : t.Sound base) (steps depth start : Nat) (inTable : Bool)
    (group : SymbolId) (laidOut : List LayoutItem) :
    t'.layoutFields steps depth start inTable (ρ group) (laidOut.map (LayoutItem.rename ρ)) =
      (t.layoutFields steps depth start inTable group laidOut).map (LayoutItem.rename ρ) := by
  induction steps generalizing depth start inTable group laidOut with
  | zero => rfl
  | succ steps ih =>
    rw [layoutFields_succ, layoutFields_succ, h.fields, foldl_map]
    generalize t.fields group = fields
    induction fields generalizing start laidOut with
    | nil => rfl
    | cons field rest ihRest =>
      have hadd : t'.addField (t'.layoutFields steps (depth + 1)) depth inTable
            (start, laidOut.map (LayoutItem.rename ρ)) (ρ field) =
          ((t.addField (t.layoutFields steps (depth + 1)) depth inTable (start, laidOut) field).1,
            (t.addField (t.layoutFields steps (depth + 1)) depth inTable (start, laidOut) field).2.map
              (LayoutItem.rename ρ)) := by
        unfold addField
        simp only [h.placeOf]
        cases t.placeOf laidOut start field with
        | none => rfl
        | some place =>
          simp only [(h.get field).kind, h.sizeOf hsound, h.isTable]
          rw [← ih, map_append]
          rfl
      rw [foldl_cons, foldl_cons, hadd]
      exact ihRest _ _

theorem Alike.layout (h : t.Alike ρ t') (hsound : t.Sound base) (record : SymbolId) :
    t'.layout (ρ record) = (t.layout record).map (LayoutItem.rename ρ) := by
  unfold Table.layout
  rw [h.isTable, h.sizeOf hsound]
  have hlaid := h.layoutFields hsound t'.size 1 0 (t.isTable record) record
    [⟨record, 0, 0, t.sizeOf record, t.isTable record⟩]
  rw [hsound.layoutFields_eq (Nat.le_add_left_of_le h.size_le) (Nat.le_add_left _ _)] at hlaid
  exact hlaid

end Table

end Layout

section Contexts

/-- The symbols of a context are found in another one under other numbers, and the same has been reported. -/
structure Context.Alike (ρ : SymbolId → SymbolId) (c c' : Context) : Prop where
  table : c.table.Alike ρ c'.table
  diagnostics : c'.diagnostics = c.diagnostics
  options : c'.options = c.options
  file : c'.file = c.file

namespace Context.Alike

variable {c c' : Context}

section

variable (h : c.Alike ρ c')
include h

theorem report (problem : Problem) (position : Position) :
    (c.report problem position).Alike ρ (c'.report problem position) where
  table := h.table
  diagnostics := by simp only [Context.report, Context.push, h.diagnostics, h.file]
  options := h.options
  file := h.file

theorem reportAt (level : ReportLevel) (problem : Problem) (position : Position) :
    (c.reportAt level problem position).Alike ρ (c'.reportAt level problem position) := by
  unfold Context.reportAt
  split
  · exact ⟨h.table, by simp only [Context.push, h.diagnostics, h.file], h.options, h.file⟩
  · exact h

theorem modify {id : SymbolId} {f f' : Symbol → Symbol}
    (hf : (f (c.table.get id)).Alike ρ (f' (c'.table.get (ρ id)))) : (c.modify id f).Alike ρ (c'.modify (ρ id) f') :=
  ⟨h.table.modify hf, h.diagnostics, h.options, h.file⟩

theorem redefinesTarget (entry : RedefinesEntry) {parent : Option ScopeRef}
    (hparent : ∀ owner slot, parent = some (.slot owner slot) →
      slot ≠ .programs ∧ slot ≠ .namespaces ∨ (c.table.get owner).kind ≠ .root) :
    Returns (Option.map ρ) (Alike ρ) (c.redefinesTarget entry parent)
      (c'.redefinesTarget entry (parent.map (ScopeRef.rename ρ))) := by
  cases parent with
  | none => exact ⟨rfl, h.report _ _⟩
  | some ref =>
    have hslot : ∀ owner slot, ref = .slot owner slot →
        slot ≠ .programs ∧ slot ≠ .namespaces ∨ (c.table.get owner).kind ≠ .root := by
      intro owner slot href
      exact hparent owner slot (congrArg some href)
    have hfound := h.table.redefined hslot entry.entry.level entry.redefines.name
    unfold Context.redefinesTarget
    simp only [map_some, hfound]
    cases c.table.redefined ref entry.entry.level entry.redefines.name with
    | ok id => exact ⟨rfl, h⟩
    | error fault => exact ⟨rfl, h.report _ _⟩

theorem renamedItem (items : List LayoutItem) (name : String) (reference : Reference) :
    c'.renamedItem (items.map (LayoutItem.rename ρ)) name reference = c.renamedItem items name reference := by
  have hnamed : (fun (pair : LayoutItem × Nat) => c'.table.name pair.1.id == reference.name) ∘
      Prod.map (LayoutItem.rename ρ) id = fun pair => c.table.name pair.1.id == reference.name := by
    funext pair
    exact congrArg (· == reference.name) (h.table.name pair.1.id)
  unfold Context.renamedItem
  simp only
  rw [zipIdx_map, List.filter_map, hnamed]
  cases items.zipIdx.filter fun pair => c.table.name pair.1.id == reference.name with
  | nil => rfl
  | cons first rest =>
    cases rest with
    | nil =>
      have hget := h.table.get first.1.id
      simp only [map_cons, map_nil, Prod.map, LayoutItem.rename, hget.kind, hget.level?, id]
    | cons second rest => rfl

end

theorem checkForward (entry : RenamesEntry) (own : Nat) (found : List (Nat × Reference)) {c c' : Context}
    (h : c.Alike ρ c') :
    (c'.checkForward entry own found).1 = (c.checkForward entry own found).1 ∧
      (c.checkForward entry own found).2.Alike ρ (c'.checkForward entry own found).2 := by
  induction found generalizing c c' with
  | nil => exact ⟨rfl, h⟩
  | cons pair rest ih =>
    obtain ⟨index, reference⟩ := pair
    have hreported := h.reportAt c.options.renamesForward (.renamesForward entry.name reference.name) reference.position
    unfold Context.checkForward
    simp only [h.options]
    split
    · exact ih h
    · split
      · exact ⟨rfl, hreported⟩
      · exact ih hreported

end Context.Alike

theorem LayoutItem.subordinates_rename (items : List LayoutItem) (index : Nat) :
    LayoutItem.subordinates (items.map (LayoutItem.rename ρ)) index =
      (LayoutItem.subordinates items index).map (LayoutItem.rename ρ) := by
  unfold LayoutItem.subordinates
  rw [← map_drop]
  cases items.drop index with
  | nil => rfl
  | cons item rest =>
    simp only [map_cons, takeWhile_map]
    rfl

theorem Table.Alike.renamesRange (h : t.Alike ρ t') (items : List LayoutItem) (entry : RenamesEntry)
    (range : RenamedRange) :
    t'.renamesRange (items.map (LayoutItem.rename ρ)) entry range =
      (t.renamesRange items entry range).map (RenamesRange.rename ρ) := by
  have hid : ∀ index : Nat, ((items.map (LayoutItem.rename ρ))[index]?.map (·.id)).getD 0 =
      ρ ((items[index]?.map (·.id)).getD 0) := by
    intro index
    rw [getElem?_map]
    cases items[index]? with
    | none => exact h.root.symm
    | some item => rfl
  have hoffset : ∀ index : Nat, (items.map (LayoutItem.rename ρ))[index]?.map (·.offset) =
      items[index]?.map (·.offset) := by
    intro index
    rw [getElem?_map, Option.map_map]
    rfl
  unfold Table.renamesRange
  simp only
  split
  · rfl
  · rw [LayoutItem.subordinates_rename, length_map, ← map_take, ← map_drop, find?_map]
    generalize ((items.take _).drop range.first) = renamed
    have hinside : ((fun item : LayoutItem => item.inTable) ∘ LayoutItem.rename ρ) = fun item => item.inTable := rfl
    rw [hinside]
    cases renamed.find? fun item => item.inTable with
    | some item =>
      simp only [map_some]
      have hname : t'.name (LayoutItem.rename ρ item).id = t.name item.id := h.name item.id
      rw [hname]
      rfl
    | none =>
      have hsizes : (renamed.map (LayoutItem.rename ρ)).all (fun item => item.size.isSome) =
          renamed.all fun item => item.size.isSome := by
        rw [List.all_map]
        rfl
      have hlast : ((items.map (LayoutItem.rename ρ))[range.thru.getD range.first]?.bind fun item =>
          checkedSize (item.offset + item.size.getD 0)) =
          items[range.thru.getD range.first]?.bind fun item => checkedSize (item.offset + item.size.getD 0) := by
        rw [getElem?_map, bind_map]
        rfl
      simp only [map_none, hid, hoffset, hsizes, hlast, Except.map, RenamesRange.rename, Option.map_map]
      rfl

theorem ItemData.Alike.setRange {data data' : ItemData} (h : data.Alike ρ data') (range : RenamesRange) :
    (data.setRange range).Alike ρ (data'.setRange (range.rename ρ)) := by
  have hkind := h.kind
  unfold ItemData.setRange
  cases hdata : data.kind with
  | renames first thru before =>
    rw [hdata] at hkind
    simp only [hkind, ItemKind.rename]
    exact ⟨h.level, h.value, rfl, h.slot⟩
  | _ =>
    rw [hdata] at hkind
    simp only [hkind, ItemKind.rename]
    exact h

/-- A level-66 entry is checked alike under other numbers. -/
theorem Context.Alike.validateRenames {c c' : Context} (h : c.Alike ρ c') (hsound : c.table.Sound base) (id : SymbolId)
    (entry : RenamesEntry) : (c.validateRenames id entry).Alike ρ (c'.validateRenames (ρ id) entry) := by
  have hrecord := h.table.topLevelItem hsound.ordered id
  have hlayout := h.table.layout hsound (c.table.topLevelItem id)
  have hgroup : (decide (ρ (c.table.topLevelItem id) = ρ id) ||
      (c'.table.get (ρ (c.table.topLevelItem id))).fields?.isNone) =
      (decide (c.table.topLevelItem id = id) || (c.table.get (c.table.topLevelItem id)).fields?.isNone) := by
    simp only [(h.table.get _).fields?, isNone_map, h.table.injective.eq_iff]
  unfold Context.validateRenames
  simp only [hrecord, hlayout, hgroup, findIdx?_map,
    LayoutItem.id_beq_rename h.table.injective, h.renamedItem]
  split
  · exact h.report _ _
  · cases (c.table.layout (c.table.topLevelItem id)).findIdx? fun item => item.id == id with
    | none => exact h
    | some own =>
      simp only
      split
      · exact h.report _ _
      · rename_i first _
        split
        · exact h.report _ _
        · obtain ⟨hgood, hchecked⟩ := h.checkForward entry own ((first, entry.first) ::
            ((entry.thru.map fun reference => (reference, c.renamedItem (c.table.layout (c.table.topLevelItem id))
              entry.name reference)).bind fun pair => pair.2.toOption.map (·, pair.1)).toList)
          revert hgood hchecked
          generalize c.checkForward entry own _ = checked
          generalize c'.checkForward entry own _ = checked'
          obtain ⟨good, c₁⟩ := checked
          obtain ⟨good', c₁'⟩ := checked'
          intro hgood hchecked
          subst hgood
          cases good' with
          | false => exact hchecked
          | true =>
            simp only [hchecked.table.renamesRange]
            cases c₁.table.renamesRange (c.table.layout (c.table.topLevelItem id)) entry _ with
            | error problem => exact hchecked.report _ _
            | ok range =>
              refine hchecked.modify ((hchecked.table.get id).mapItem fun data data' hdata => ?_)
              exact hdata.setRange range

end Contexts

end CobolSymbols
