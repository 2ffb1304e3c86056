import CobolSymbols.Proofs.Session.Regular

/-!
# The levels of redefined items

The search for a redefined item asks the last sibling that takes storage of its own for its level, but not the items that
redefine it already. So an item can redefine one of another level, when that one redefines an item itself. Nothing that
happens to an item later changes its level or what it redefines.
-/

set_option autoImplicit false

namespace CobolSymbols

open Table FlagSet Symbol

namespace Table

variable {t t' : Table} {id target : SymbolId}

/-- An item redefines another one. -/
def Redefines (t : Table) (id target : SymbolId) : Prop := (t.get id).redefined? = some target

/-- What an item redefines has its level or redefines an item itself; the items that do so are flagged. -/
structure Levelled (t : Table) : Prop where
  told : ∀ id, t.isRedefining id = true → (t.get id).kind = .redefines
  level : ∀ id target, t.Redefines id target →
    (t.get target).kind = .redefines ∨ (t.get target).level? = (t.get id).level?

theorem lt_size_of_redefines (h : t.Redefines id target) : id < t.size :=
  lt_size_of_get (·.redefined? = some target) h nofun

theorem isSome_level?_of_redefines (h : t.Redefines id target) : (t.get id).level?.isSome = true := by
  unfold Redefines Symbol.redefined? at h
  unfold Symbol.level?
  cases hitem : (t.get id).item? with
  | none => simp [hitem] at h
  | some data => rfl

theorem lt_size_of_isRedefining (h : t.isRedefining id = true) : id < t.size := by
  refine lt_size_of_get_ne fun hdefault => ?_
  unfold isRedefining at h
  rw [hdefault] at h
  exact Bool.false_ne_true h

/-- An item with a level, or that redefines another, is in the table. -/
theorem lt_size_of_level (hlevel : (t.get id).level?.isSome = true)
    (h : (t.get target).kind = .redefines ∨ (t.get target).level? = (t.get id).level?) : target < t.size := by
  refine lt_size_of_get_ne fun hdefault => ?_
  rw [hdefault] at h
  rcases h with hkind | heq
  · cases hkind
  · rw [← heq] at hlevel
    cases hlevel

/-- What the table says of old items stays true as it grows. -/
theorem Levelled.extends (h : t.Levelled) (hext : t.Extends t') (hid : id < t.size) (hredefines : t'.Redefines id target) :
    (t'.get target).kind = .redefines ∨ (t'.get target).level? = (t'.get id).level? := by
  unfold Redefines at hredefines
  rw [hext.redefined? hid] at hredefines
  have hlevel := h.level id target hredefines
  have hlt := lt_size_of_level (isSome_level?_of_redefines hredefines) hlevel
  rw [hext.kind hlt, hext.level? hlt, hext.level? hid]
  exact hlevel

theorem Levelled.congr (h : t.Levelled) (hext : t.Extends t') (hsize : t'.size = t.size)
    (hflags : ∀ id, t'.isRedefining id = t.isRedefining id) : t'.Levelled where
  told id hid := by
    rw [hflags] at hid
    rw [hext.kind (lt_size_of_isRedefining hid)]
    exact h.told id hid
  level _ _ hredefines := h.extends hext (hsize ▸ lt_size_of_redefines hredefines) hredefines

theorem levelled_initial : initial.Levelled := by
  have hplain := forall_initial (P := fun _ s => s.flags.has .redefines = false ∧ s.redefined? = none) (by decide) fun _ _ => ⟨rfl, rfl⟩
  exact ⟨fun id hid => absurd ((hplain id).1.symm.trans hid) Bool.false_ne_true,
    fun id _ hredefines => absurd ((hplain id).2.symm.trans hredefines) nofun⟩

end Table

namespace Declarations

variable {base old : Nat} {parent : Option ScopeRef} {d d' : Declarations}

/-- A new item redefines what the search has found for its level. -/
theorem Move.levelled (hmove : Move base old parent d d') (h : d.table.Levelled) : d'.table.Levelled := by
  have hext := hmove.extends
  have hflag : ∀ {id}, id < d.table.size → d'.table.isRedefining id = d.table.isRedefining id := fun hlt =>
    hmove.view_eq (overlooks_trait (f := .redefines) rfl) hlt
  rcases hmove.size_eq_or_alloc with hsize | ⟨s, owner, hfresh, _, hlevel, rfl⟩
  · refine ⟨fun id hid => ?_, fun id target hredefines => ?_⟩
    · have hlt : id < d.table.size := hsize ▸ lt_size_of_isRedefining hid
      rw [hext.kind hlt]
      exact h.told id (hflag hlt ▸ hid)
    · exact h.extends hext (hsize ▸ lt_size_of_redefines hredefines) hredefines
  · have hsize := Table.size_alloc d.table s
    refine ⟨fun id hid => ?_, fun id target hredefines => ?_⟩
    · rcases Nat.lt_or_eq_of_le (Nat.le_of_lt_succ (hsize ▸ lt_size_of_isRedefining hid)) with hlt | rfl
      · rw [hext.kind hlt]
        exact h.told id (hflag hlt ▸ hid)
      · have hflag : s.flags.has .redefines = true := d.get_made s ▸ hid
        rw [hfresh.traits .redefines rfl] at hflag
        rw [d.get_made s]
        rcases kind_of_declares hflag with ⟨hkind, _⟩ | ⟨_, hrestriction⟩
        · exact hkind
        · cases hrestriction
    · rcases Nat.lt_or_eq_of_le (Nat.le_of_lt_succ (hsize ▸ lt_size_of_redefines hredefines)) with hlt | rfl
      · exact h.extends hext hlt hredefines
      · have hsome := isSome_level?_of_redefines hredefines
        unfold Redefines at hredefines
        rw [d.get_made s] at hredefines hsome ⊢
        -- the target was there when the item was made
        have hfound := (hlevel target hredefines).imp_left (h.told target)
        have hlt : target < d.table.size := by
          refine lt_size_of_get_ne fun hdefault => ?_
          rw [hdefault] at hfound
          rcases hfound with hkind | heq
          · cases hkind
          · rw [← heq] at hsome
            cases hsome
        rw [hext.kind hlt, hext.level? hlt]
        exact hfound

theorem blind_redefines : Linker.Blind fun s => s.flags.has .redefines where
  bind s _ flags := by
    have hnot : SymbolFlags.restrictions.has .redefines = false :=
      SymbolFlags.avoids_ofList [.strongType, .strictType, .weakType] (p := (· == .redefines)) (by decide) .redefines rfl
    simp [has_union, has_inter, hnot]
  list s _ := by rw [mapProgram_flags]
  object _ _ := rfl

end Declarations

namespace Table

variable {t : Table} {program : SymbolId}

theorem Regular.levelled_removeProgram {base : Nat} (h : t.Regular) (hsound : t.Sound base)
    (hkind : (t.get program).kind = .program) (hlevelled : t.Levelled) : (t.removeProgram program).2.Levelled := by
  obtain ⟨hext, hsize⟩ := h.extends_removeProgram hsound hkind
  refine hlevelled.congr hext hsize ?_
  refine h.view_removeProgram (fun s => s.flags.has .redefines) hsound hkind (fun s f => ?_) fun s => ?_
  · rw [mapScopes_flags]
  · simp [Symbol.detached, Symbol.addFlags, has_union, SymbolFlag.has_single, mapItem_flags]

end Table

namespace Session

/-- Whatever is asked of a session, the levels of its redefined items are in order. -/
theorem levelled_reached (options : Options) (actions : List Action) : (reached options actions).table.Levelled :=
  table_reached levelled_initial
    (fun _ file events h hs => h.keeps_compile (fun hstep hready => hstep.keeps (P := Levelled)
      (fun hmove => hmove.levelled) (fun d hd => hd.congr d.extends_link d.size_link (d.view_link Declarations.blind_redefines))
      hready) hs file events)
    (fun _ _ _ h hsound hkind => h.levelled_removeProgram hsound hkind) options actions

/-- In every table that a session reaches, what an item redefines has the level of the item, unless it redefines another
item itself. -/
theorem redefined_level_eq (options : Options) (actions : List Action) {id target : SymbolId}
    (h : (reached options actions).table.Redefines id target) :
    ((reached options actions).table.get target).kind = .redefines ∨
      ((reached options actions).table.get target).level? = ((reached options actions).table.get id).level? :=
  (levelled_reached options actions).level id target h

end Session

/-- A level-77 item redefines a record in vain, and another record redefines it. -/
def mixedLevels : List Event :=
  [.startProgram { name := "P", position := ⟨1, 8⟩ }, .startDataDivision ⟨2, 8⟩, .startStorage .workingStorage ⟨⟨3, 8⟩⟩,
    .dataEntry ((DataEntry.named 1 "A" ⟨4, 8⟩).withPicture "X"),
    .redefinesEntry ⟨(DataEntry.named 77 "B" ⟨5, 8⟩).withPicture "X", ⟨"A", ⟨5, 20⟩⟩⟩,
    .redefinesEntry ⟨(DataEntry.named 1 "C" ⟨6, 8⟩).withPicture "X", ⟨"B", ⟨6, 20⟩⟩⟩,
    .endStorage .workingStorage, .endDataDivision, .endProgram none]

theorem redefined_level_eq_mixedLevels :
    let t := (Session.reached {} [.build ⟨false, 0, mixedLevels⟩]).table
    t.Redefines 13 12 ∧ ((t.get 12).kind = .redefines ∨ (t.get 12).level? = (t.get 13).level?) := by
  have h : (Session.reached {} [.build ⟨false, 0, mixedLevels⟩]).table.Redefines 13 12 := by
    unfold Redefines
    decide +kernel
  exact ⟨h, Session.redefined_level_eq {} _ h⟩

/-- A level-01 item redefines a level-77 item. -/
theorem redefined_level_ne_mixedLevels :
    let t := (Session.reached {} [.build ⟨false, 0, mixedLevels⟩]).table
    (t.get 13).redefined? = some 12 ∧ (t.get 13).level? = some 1 ∧ (t.get 12).level? = some 77 := by
  decide +kernel

end CobolSymbols
