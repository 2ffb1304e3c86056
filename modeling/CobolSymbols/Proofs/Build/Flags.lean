import CobolSymbols.Build.Declarations.Procedure
import CobolSymbols.Proofs.FlagSet

/-!
# The flags of data symbols

The flags of a data symbol come from its clauses, its kind, the place where it stands, and the way it is passed. Each
source sets flags of its own: the flags that tell what an item is come from its kind alone.
-/

set_option autoImplicit false

namespace CobolSymbols

open FlagSet SymbolFlags SymbolFlag

/-- Whether a flag tells how a parameter is passed. -/
def SymbolFlag.tellsPassing : SymbolFlag → Bool
  | .byReference | .byContent | .byValue | .input | .output | .inout | .returning => true
  | _ => false

/-- Whether a flag tells the restriction of a type. -/
def SymbolFlag.isRestriction : SymbolFlag → Bool
  | .strongType | .strictType | .weakType => true
  | _ => false

/-- Whether a flag tells what an item is: one that redefines another, or a type. -/
def SymbolFlag.isTrait (f : SymbolFlag) : Bool := f == .redefines || f.isRestriction

/-- Whether a flag tells what an item of the kind is. -/
def ItemKind.declares : ItemKind → SymbolFlag → Bool
  | .redefines _, f => f == .redefines
  | .typeDefinition restriction _, f => f == restriction.flag
  | _, _ => false

/-- Whether a flag tells what the symbol is as an item. -/
def Symbol.declares (s : Symbol) (f : SymbolFlag) : Bool := s.item?.any fun data => data.kind.declares f

theorem Symbol.kind_of_declares {s : Symbol} {f : SymbolFlag} (h : s.declares f = true) :
    s.kind = .redefines ∧ f = .redefines ∨ s.kind = .typeDefinition ∧ f.isRestriction = true := by
  unfold declares item? at h
  unfold kind
  cases hbody : s.body with
  | item data =>
    cases hkind : data.kind with
    | redefines =>
      simp only [hbody, hkind, Option.any_some, ItemKind.declares, beq_iff_eq] at h
      exact .inl ⟨by simp [hkind], h⟩
    | typeDefinition restriction =>
      simp only [hbody, hkind, Option.any_some, ItemKind.declares, beq_iff_eq] at h
      exact .inr ⟨by simp [hkind], by rw [h]; cases restriction <;> rfl⟩
    | _ => simp [hbody, hkind, ItemKind.declares] at h
  | _ => simp [hbody] at h

theorem SymbolFlags.Avoids.mono {flags : SymbolFlags} {p q : SymbolFlag → Bool} (h : flags.Avoids q)
    (hpq : ∀ f, p f = true → q f = true) : flags.Avoids p := fun f hf => h f (hpq f hf)

namespace Declarations

variable {flag : SymbolFlag}

theorem avoids_parameterFlag (direction : Option Direction) :
    Avoids (FlagSet.single (parameterFlag direction)) fun f => !f.tellsPassing := by
  refine avoids_single ?_
  cases direction with
  | none => rfl
  | some direction => cases direction <;> rfl

theorem avoids_passingFlags (parameter : CallParameter) :
    Avoids (.ofList ((parameter.sharing.getD .byReference).flag :: parameter.direction.toList.map
      Direction.flag)) fun f => !f.tellsPassing := by
  refine avoids_ofList _ fun flag hflag => ?_
  rcases List.mem_cons.mp hflag with rfl | hflag
  · cases parameter.sharing.getD .byReference <;> rfl
  · obtain ⟨direction, _, rfl⟩ := List.mem_map.mp hflag
    cases direction <;> rfl

/-- The flags that clauses set. -/
def clauseMarks : List SymbolFlag :=
  [.blankWhenZero, .justified, .synchronized, .signSeparate, .external, .groupUsageNational, .hasValue]

theorem has_clauseFlags (h : flag ∉ clauseMarks) (entry : DataEntry) : (clauseFlags entry).has flag = false := by
  simp only [clauseMarks, List.mem_cons, List.not_mem_nil, or_false, not_or] at h
  simp [clauseFlags, has_single, Ne.symm h.1, Ne.symm h.2.1, Ne.symm h.2.2.1, Ne.symm h.2.2.2.1,
    Ne.symm h.2.2.2.2.1, Ne.symm h.2.2.2.2.2.1, Ne.symm h.2.2.2.2.2.2]

/-- The flags of an item's place besides those of storage sections. -/
def placeMarks : List SymbolFlag := .inTypeBody :: .global :: .exported :: .hidden :: clauseMarks

/-- Where a data symbol stands is told by the storage section being read, and by nothing else. -/
theorem has_placeFlags (d : Declarations) (entry : Option DataEntry) (place : Placement) (kind : SymbolKind)
    (hflag : flag ∉ placeMarks) : (d.placeFlags entry place kind).has flag =
      (FlagSet.ofList ((d.originOf place kind).toList.map StorageSection.flag)).has flag := by
  simp only [placeMarks, List.mem_cons, not_or] at hflag
  obtain ⟨hbody, hglobal, hexported, hhidden, hclauses⟩ := hflag
  have hbody : (FlagSet.single SymbolFlag.inTypeBody).has flag = false := by simp [has_single, Ne.symm hbody]
  have hglobal : (FlagSet.single SymbolFlag.global).has flag = false := by simp [has_single, Ne.symm hglobal]
  have hseen : (FlagSet.ofList [SymbolFlag.exported, .hidden]).has flag = false := by
    simp [has_single, Ne.symm hexported, Ne.symm hhidden]
  have hvisible : SymbolFlags.visibility.has flag = false := by
    have hcons : SymbolFlags.visibility = FlagSet.single SymbolFlag.global ∪ FlagSet.ofList [.exported, .hidden] := rfl
    rw [hcons, has_union, hglobal, hseen, Bool.or_false]
  unfold placeFlags
  simp only [has_insertIf, hbody, Bool.and_false, Bool.or_false]
  cases entry with
  | none =>
    simp only
    split
    · rw [has_union, has_inter, hvisible, Bool.and_false, Bool.or_false]
    · rfl
  | some entry =>
    rw [has_union, has_clauseFlags hclauses, Bool.or_false]
    split
    · rw [has_union, has_inter, hseen, Bool.and_false, Bool.or_false, has_insertIf, hglobal,
        Bool.and_false, Bool.or_false]
    · rw [has_insertIf, hglobal, Bool.and_false, Bool.or_false]

/-- The flags of a storage section tell nothing else. -/
theorem avoids_origin {p : SymbolFlag → Bool} (hp : ∀ s : StorageSection, p s.flag = false)
    (origin : Option StorageSection) : Avoids (.ofList (origin.toList.map StorageSection.flag)) p := by
  refine avoids_ofList _ fun flag hflag => ?_
  obtain ⟨kept, _, rfl⟩ := List.mem_map.mp hflag
  exact hp kept

theorem isTrait_of_mem_placeMarks (h : flag ∈ placeMarks) : flag.isTrait = false := by
  revert flag
  decide

theorem avoids_placeFlags (d : Declarations) (entry : Option DataEntry) (place : Placement) (kind : SymbolKind) :
    (d.placeFlags entry place kind).Avoids SymbolFlag.isTrait := by
  intro flag hflag
  rw [d.has_placeFlags entry place kind fun h => by simp [isTrait_of_mem_placeMarks h] at hflag]
  exact avoids_origin (fun s => by cases s <;> rfl) _ flag hflag

/-- What an item is told to be by its flags is what its kind says. -/
theorem has_kindFlags (entry : DataEntry) (kind : ItemKind) (h : flag.isTrait = true) :
    (kindFlags entry kind).has flag = kind.declares flag := by
  cases kind with
  | redefines target =>
    simp only [kindFlags, ItemKind.declares, has_single, eq_comm (a := SymbolFlag.redefines)]
    rfl
  | typeDefinition restriction items =>
    have hglobal : (FlagSet.single SymbolFlag.global).has flag = false := avoids_single rfl flag h
    have hvisible : Avoids (.ofList ((entry.typeClause.bind (·.visibility)).toList.map Visibility.flag))
        SymbolFlag.isTrait := by
      refine avoids_ofList _ fun other hother => ?_
      obtain ⟨visibility, _, rfl⟩ := List.mem_map.mp hother
      cases visibility <;> rfl
    have hcons : ∀ flags : List SymbolFlag, FlagSet.ofList (restriction.flag :: flags) =
        FlagSet.single restriction.flag ∪ FlagSet.ofList flags := fun _ => rfl
    simp only [kindFlags, ItemKind.declares, has_insertIf, hglobal, Bool.and_false, Bool.or_false, hcons,
      has_union, hvisible flag h, has_single, eq_comm (a := restriction.flag)]
    rfl
  | _ => exact has_empty flag

end Declarations

end CobolSymbols
