import CobolSymbols.Proofs.Session.Isolation
import CobolSymbols.Proofs.Session.Removal

/-!
# What removing a program leaves behind

Once a program of the root is removed, everything that lies in it is gone: it is marked, holds no slot and cannot be
found. Data items that are declared outside of every storage section are the exception. No scope lists them, so that
removing the program does not meet them, and they stay with everything that lies in them.
-/

set_option autoImplicit false

namespace CobolSymbols

open List Relation Table

namespace Table

variable {t t' : Table} {base : Nat} {program id : SymbolId}

/-- A symbol lies in an item that is declared outside of every storage section. -/
def Aside (t : Table) (id : SymbolId) : Prop := ∃ item, t.Sectionless item ∧ t.Within item id

/-- A symbol is marked as removed, holds no slot, and is neither found by name nor listed by the root. -/
structure Gone (t : Table) (id : SymbolId) : Prop where
  removed : (t.get id).isRemoved = true
  slot : (t.get id).slot? = none
  types : ∀ name, id ∉ t.lookupType name
  programs : ∀ name, id ∉ t.lookupProgram name
  unlisted : ¬ t.Lists rootId id

/-- Of two symbols in which a third one lies, one lies in the other. -/
theorem Within.total {top top' : SymbolId} (h : t.Within top id) (h' : t.Within top' id) :
    t.Within top top' ∨ t.Within top' top := by
  have hunique : Relator.RightUnique t.OwnedBy := fun _ _ _ hown hown' => hown.unique hown'
  exact (ReflTransGen.total_of_right_unique hunique h h').symm

/-- A symbol that belongs to the root lies in no other one but the root. -/
theorem Ordered.eq_of_within (ht : t.Ordered) (hown : t.OwnedBy id rootId) {top : SymbolId} (hne : top ≠ rootId)
    (hwithin : t.Within top id) : id = top := by
  rcases within_iff.mp hwithin with heq | ⟨owner, howner, habove⟩
  · exact heq
  · rw [howner.unique hown] at habove
    exact absurd ((habove.le ht).antisymm (Nat.zero_le _)) hne

theorem Ordered.outermost_unique (ht : t.Ordered) {program' : SymbolId} (hown : t.OwnedBy program rootId)
    (hown' : t.OwnedBy program' rootId) (hwithin : t.Within program id) (hwithin' : t.Within program' id) :
    program = program' := by
  have hne : ∀ {p : SymbolId}, t.OwnedBy p rootId → p ≠ rootId := fun hp heq =>
    absurd (ht _ _ hp) (by rw [heq]; exact Nat.lt_irrefl _)
  rcases hwithin.total hwithin' with habove | habove
  · exact (ht.eq_of_within hown' (hne hown) habove).symm
  · exact ht.eq_of_within hown (hne hown') habove

/-- The root lists what belongs to it. -/
theorem EnteredIn.owned_root (h : t.EnteredIn id rootId) (hsound : t.Sound base) : t.OwnedBy id rootId := by
  rcases h.owner with hown | ⟨_, hkind⟩
  · exact hown
  · rcases (hsound.root rootId).mpr rfl with hroot | hroot <;> rw [hroot] at hkind <;> cases hkind

theorem Aside.lt_size (h : t.Aside id) : id < t.size := by
  obtain ⟨item, hsection, hwithin⟩ := h
  obtain ⟨owner, hown, _⟩ := hsection.owner
  rcases within_iff.mp hwithin with heq | ⟨_, howner, _⟩
  · exact heq ▸ hown.lt_size
  · exact howner.lt_size

section Leaving

/-- What is entered into a symbol that lies in an item outside of every section lies there as well. -/
theorem Regular.aside_of_enteredIn (h : t.Regular) {container : SymbolId} (hentered : t.EnteredIn id container)
    (haside : t.Aside container) : t.Aside id := by
  obtain ⟨item, hsection, hwithin⟩ := haside
  rcases hentered.owner with hown | ⟨_, hkind⟩
  · exact ⟨item, hsection, within_iff.mpr (.inr ⟨container, hown, hwithin⟩)⟩
  · have hitem := h.isItem_of_within hsection.item hwithin
    generalize (t.get container).kind = kind at hkind hitem
    cases kind <;> cases hkind <;> cases hitem

/-- Everything in a removed program of the root is removed, but what lies in an item outside of every section. -/
theorem Regular.removed_of_within (h : t.Regular) (hsound : t.Sound base) (hown : t.OwnedBy program rootId)
    (hremoved : (t.ledger program).removed = true) (hwithin : t.Within program id) (hnot : ¬ t.Aside id) :
    (t.ledger id).removed = true := by
  have hne : program ≠ rootId := fun heq => absurd (hsound.ordered _ _ hown) (by rw [heq]; exact Nat.lt_irrefl _)
  -- a symbol is removed with the one that it is entered into, which was made before it
  induction id using Nat.strongRecOn with
  | ind id ih =>
    have hroot : t.OwnedBy id rootId → (t.ledger id).removed = true := by
      intro hid
      rw [hsound.ordered.eq_of_within hid hne hwithin]
      exact hremoved
    obtain ⟨owner, howner⟩ : ∃ owner, t.OwnedBy id owner := by
      rcases within_iff.mp hwithin with heq | ⟨owner, howner, _⟩
      · exact ⟨rootId, heq ▸ hown⟩
      · exact ⟨owner, howner⟩
    have hstanding := h.standing id howner.lt_size
    rcases hstanding.place with hnone | ⟨container, hentered, htogether⟩
    · cases hpresent : (t.ledger id).removed with
      | true => rfl
      | false =>
        rcases hstanding.complete hnone hpresent owner howner with heq | hsection
        · rw [← hpresent]
          exact hroot (heq ▸ howner)
        · exact absurd ⟨id, hsection, ReflTransGen.refl⟩ hnot
    · rcases htogether with heq | ⟨other, hother, hcont, hid⟩
      · exact hroot ((heq ▸ hentered).owned_root hsound)
      · rw [← hsound.ordered.outermost_unique hown hother hwithin hid] at hcont
        refine hstanding.closed container hentered (ih container hentered.lt hcont ?_)
        exact fun haside => hnot (h.aside_of_enteredIn hentered haside)

/-- What lies in an item outside of every section stays and holds a slot. -/
theorem Regular.held_of_aside (h : t.Regular) (hsound : t.Sound base) (haside : t.Aside id) :
    (t.ledger id).removed = false ∧ (t.ledger id).slot.isSome = true := by
  have hid := haside.lt_size
  obtain ⟨item, hsection, hwithin⟩ := haside
  obtain ⟨owner, hown, hkind⟩ := hsection.owner
  have hpresent := (h.standing id hid).below item hsection hwithin
  refine ⟨hpresent, (h.standing id hid).slot.mpr ⟨⟨h.isItem_of_within hsection.item hwithin, ?_⟩, hpresent⟩⟩
  -- types belong to scopes and the item to a program, so neither lies in the other
  intro type htype htype'
  rcases hwithin.total htype' with hbelow | habove
  · rcases within_iff.mp hbelow with heq | ⟨scope, hscope, hscope'⟩
    · exact hsection.type (heq ▸ htype)
    · have hitem := h.isItem_of_within hsection.item hscope'
      have hisScope := hsound.type_owner type scope hscope htype
      generalize (t.get scope).kind = kind at hitem hisScope
      cases kind <;> cases hitem <;> cases hisScope
  · rcases within_iff.mp habove with heq | ⟨other, hother, hother'⟩
    · exact hsection.type (heq ▸ htype)
    · have hitem := h.isItem_of_within (by rw [htype]; rfl) hother'
      rw [hother.unique hown] at hitem
      generalize (t.get owner).kind = kind at hitem hkind
      cases kind <;> cases hitem <;> cases hkind

/-- Removing programs changes nothing about where items are declared. -/
theorem Purged.aside_iff {programs : List SymbolId} (hpurged : Purged base programs t t') (ht : t.Ordered)
    (hid : id < t.size) : t'.Aside id ↔ t.Aside id := by
  have hsection : ∀ {item : SymbolId}, item < t.size → (t'.Sectionless item ↔ t.Sectionless item) := fun hitem =>
    hpurged.sectionless_iff ht hitem (hpurged.storage _)
  constructor
  · rintro ⟨item, hitem, hwithin⟩
    have hwithin' := (hpurged.within_iff ht hid).mp hwithin
    exact ⟨item, (hsection ((hwithin'.le ht).trans_lt hid)).mp hitem, hwithin'⟩
  · rintro ⟨item, hitem, hwithin⟩
    refine ⟨item, (hsection ((hwithin.le ht).trans_lt hid)).mpr hitem, ?_⟩
    exact (hpurged.within_iff ht hid).mpr hwithin

/-- Of what lies in a program that is removed, what lies in an item outside of every section stays and nothing else. -/
theorem Purged.removed_iff {programs : List SymbolId} (hpurged : Purged base programs t t') (ht : t.Ordered)
    (hprog : program ∈ programs) (hown : t.OwnedBy program rootId) (hwithin : t.Within program id) :
    (t'.ledger id).removed = true ↔ ¬ t.Aside id := by
  have hid : id < t.size := by
    rcases within_iff.mp hwithin with heq | ⟨_, howner, _⟩
    · exact heq ▸ hown.lt_size
    · exact howner.lt_size
  rw [← hpurged.aside_iff ht hid]
  constructor
  · intro hremoved haside
    rw [(hpurged.regular.held_of_aside hpurged.sound haside).1] at hremoved
    cases hremoved
  · exact hpurged.regular.removed_of_within hpurged.sound ((hpurged.ownedBy_iff hown.lt_size).mpr hown)
      (hpurged.removed program hprog) ((hpurged.within_iff ht hid).mpr hwithin)

end Leaving

section Cleared

/-- The root lists nothing that is removed. -/
def Cleared (t : Table) : Prop := ∀ id, (t.ledger id).removed = true → (t.ledger id).listed rootId = 0

theorem Cleared.gone (hcleared : t.Cleared) (h : t.Regular) (hid : id < t.size)
    (hremoved : (t.ledger id).removed = true) : t.Gone id where
  removed := hremoved
  slot := by
    have hslot := (h.standing id hid).slot
    rw [hremoved] at hslot
    simpa [ledger] using hslot
  types name := by
    have htypes := (h.standing id hid).types name
    rw [if_neg fun hand => by rw [hremoved] at hand; cases hand.2] at htypes
    exact count_eq_zero.mp htypes
  programs name := by
    have hprogs := (h.standing id hid).programs name
    rw [if_neg fun hand => by rw [hremoved] at hand; cases hand.2] at hprogs
    exact count_eq_zero.mp (Nat.le_zero.mp hprogs)
  unlisted := count_eq_zero.mp (hcleared id hremoved)

/-- Apart from built-in symbols the root lists programs only. -/
theorem Furnished.mem_programs (h : t.Furnished) (hid : initial.size ≤ id) (hmem : id ∈ (t.get rootId).contents) :
    ∃ scope, (t.get rootId).scope? .programs = some scope ∧ id ∈ scope.order := by
  have hlasting := h.2 rootId (by rw [size_initial]; decide)
  obtain ⟨_, _, _, htype, _⟩ := Symbol.lasting_eq hlasting
  have hbuiltin : id ∉ (initial.get rootId).contents := fun hold =>
    absurd (contents_initial rootId id hold).2.2 (size_initial ▸ hid).not_gt
  have hfields : (t.get rootId).fieldList = (initial.get rootId).fieldList := by
    unfold Symbol.fieldList Symbol.fields?
    rw [htype]
  unfold Symbol.contents at hmem hbuiltin
  rw [mem_append, hfields] at hmem
  rw [mem_append, not_or] at hbuiltin
  have hmembers := hmem.resolve_right hbuiltin.2
  unfold Symbol.members at hmembers hbuiltin
  unfold Symbol.scope?
  rcases Symbol.body_of_lasting hlasting with hbody | ⟨scopes₀, scopes, hbody₀, hbody, hsame⟩ | ⟨_, hbody₀⟩
  · rw [hbody] at hmembers
    exact absurd hmembers hbuiltin.1
  · rw [hbody] at hmembers ⊢
    rw [hbody₀] at hbuiltin
    obtain ⟨slot, hslot, horder⟩ := mem_flatMap.mp hmembers
    by_cases hprogs : slot = .programs
    · exact ⟨_, rfl, hprogs ▸ horder⟩
    · rw [hsame slot hprogs] at horder
      exact absurd (mem_flatMap.mpr ⟨slot, hslot, horder⟩) hbuiltin.1
  · cases hbody₀

/-- A program that is removed is no longer listed by the root, and nothing else of what is removed was. -/
theorem Cleared.removeProgram (hcleared : t.Cleared) (hfurnished : t.Furnished) (h : t.Regular) (hsound : t.Sound base)
    (hkind : (t.get program).kind = .program) : (t.removeProgram program).2.Cleared := by
  cases hpresent : (t.get program).isRemoved with
  | true =>
    rw [removeProgram_of_removed hpresent]
    exact hcleared
  | false =>
    have hroot := hsound.program_ne_root hkind
    have hdetached := h.detached_removeProgram hsound hkind hpresent
    obtain ⟨hothers, hprog⟩ := h.listed_delist program
    intro id hremoved
    have hlisted : ((t.removeProgram program).2.ledger id).listed = ((t.delist program).ledger id).listed := by
      rw [hdetached.ledger]
      split <;> rfl
    by_cases hmem : id ∈ t.owned program
    · rw [hlisted]
      by_cases hid : id = program
      · subst hid
        by_cases hlists : id ∈ (t.get rootId).contents
        · obtain ⟨scope, hscope, horder⟩ := hfurnished.mem_programs (hfurnished.program_le hkind) hlists
          have hcount := h.count_delist ((h.enteredIn hlists).owned_root hsound) hscope rootId id
          rwa [if_pos ⟨rfl, rfl, horder⟩] at hcount
        · rcases hprog with hsame | hnone
          · rw [hsame]
            exact count_eq_zero.mpr hlists
          · exact hnone rootId
      · rw [hothers id hid]
        rcases ReflTransGen.cases_head ((h.mem_owned hsound hkind).mp hmem).1 with
          heq | ⟨container, hentered, hunder⟩
        · exact absurd heq hid
        · have hne : rootId ≠ container := fun heq =>
            hroot (((Under.le hunder).trans heq.symm.le).antisymm (Nat.zero_le _))
          rw [hentered.listed, if_neg hne]
    · rw [hdetached.ledger, if_neg hmem, ledger_delist] at hremoved
      have hself := h.self_mem_owned hsound hkind
      have hid : id ≠ program := fun heq => hmem (heq ▸ hself)
      rw [hlisted, hothers id hid]
      exact hcleared id hremoved

theorem cleared_initial : initial.Cleared := by
  intro id hremoved
  have hpresent : (initial.get id).isRemoved = false :=
    forall_initial (P := fun _ s => s.isRemoved = false) (by decide) (fun _ _ => rfl) id
  rw [show (initial.get id).isRemoved = true from hremoved] at hpresent
  cases hpresent

/-- New symbols are not removed. -/
theorem Cleared.continues (h : t.Cleared) (hcontinues : Continues t t') (htidy : t'.Tidy)
    (hpresent : ∀ id, t.size ≤ id → id < t'.size → (t'.ledger id).removed = false) : t'.Cleared := by
  intro id hremoved
  by_cases hold : id < t.size
  · rw [hcontinues.kept id hold] at hremoved ⊢
    exact h id hremoved
  · by_cases hlt : id < t'.size
    · rw [hpresent id (not_lt.mp hold) hlt] at hremoved
      cases hremoved
    · rw [htidy.beyond id (not_lt.mp hlt)]
      rfl

end Cleared

section Outcome

/-- Removing a program of the root: what lies in it is gone and its slots are free. -/
theorem Purged.gone {programs : List SymbolId} (hpurged : Purged base programs t t') (h : t.Regular)
    (hcleared : t'.Cleared) (hprog : program ∈ programs) (hown : t.OwnedBy program rootId)
    (hwithin : t.Within program id) (hnot : ¬ t.Aside id) :
    t'.Gone id ∧ ∀ index, (t.get id).slot? = some index → t'.slots.get? index = none := by
  have hremoved := (hpurged.removed_iff h.tidy.ordered hprog hown hwithin).mpr hnot
  have hid : id < t'.size := by
    by_contra hge
    rw [hpurged.regular.tidy.beyond id (not_lt.mp hge)] at hremoved
    cases hremoved
  have hgone := hcleared.gone hpurged.regular hid hremoved
  refine ⟨hgone, fun index hslot => ?_⟩
  cases hget : t'.slots.get? index with
  | none => rfl
  | some other =>
    -- the variable that has the slot now had it before, so it is the one that is gone
    have hnow := (hpurged.regular.tidy.slots.slot_iff index other).mp hget
    have hbefore := (h.tidy.slots.slot_iff index other).mpr (hpurged.slots other index hnow)
    rw [(h.tidy.slots.slot_iff index id).mpr hslot] at hbefore
    rw [← Option.some.inj hbefore, hgone.slot] at hnow
    cases hnow

/-- What lies in an item outside of every section stays where it is and keeps its slot. -/
theorem Purged.stays {programs : List SymbolId} (hpurged : Purged base programs t t') (h : t.Regular)
    (hid : id < t.size) (haside : t.Aside id) :
    (t'.get id).isRemoved = false ∧ ∃ index, (t.get id).slot? = some index ∧ t'.slots.get? index = some id := by
  obtain ⟨hpresent, hslot⟩ :=
    hpurged.regular.held_of_aside hpurged.sound ((hpurged.aside_iff h.tidy.ordered hid).mpr haside)
  obtain ⟨index, hindex⟩ := Option.isSome_iff_exists.mp hslot
  exact ⟨hpresent, index, hpurged.slots id index hindex, (hpurged.regular.tidy.slots.slot_iff index id).mpr hindex⟩

end Outcome

end Table

namespace Session

variable {s : Session}

theorem cleared_compile (h : s.Regular) (hcleared : s.table.Cleared) (file : FileId) (events : List Event) :
    (s.compile file events).2.table.Cleared := by
  have hadvances := advances_compile h file events
  exact hcleared.continues hadvances.continues (h.compile file events).table.tidy fun id hle hlt =>
    (hadvances.gathered id hle hlt).1

theorem cleared_detach (h : s.Regular) (hfurnished : s.table.Furnished) (hcleared : s.table.Cleared) (file : FileId) :
    (s.detach file).table.Cleared := by
  have hall := h.table.foldl_removeProgram (P := fun t => t.Furnished ∧ t.Cleared) h.sound (h.programs_of_unit file)
    (fun t program hregular hsound hkind ht =>
      ⟨ht.1.purged hsound (by simpa using hkind) (hregular.purged_removeProgram hsound hkind),
        ht.2.removeProgram ht.1 hregular hsound hkind⟩)
    ⟨hfurnished, hcleared⟩
  exact hall.2

theorem cleared_perform (h : s.Regular) (hfurnished : s.table.Furnished) (hcleared : s.table.Cleared) (action : Action) :
    (s.perform action).table.Cleared := by
  cases action with
  | build request =>
    unfold Session.perform Session.serve
    simp only
    split
    · exact cleared_compile (h.detach request.file) (cleared_detach h hfurnished hcleared request.file) _ _
    · exact cleared_compile h hcleared _ _
  | detach file => exact cleared_detach h hfurnished hcleared file
  | remove program =>
    unfold Session.perform
    simp only
    split
    · rename_i hkind
      exact hcleared.removeProgram hfurnished h.table h.sound hkind
    · exact hcleared

theorem cleared_reached (options : Options) (actions : List Action) : (reached options actions).table.Cleared := by
  have hstart : (start options).table.Furnished ∧ (start options).table.Cleared := ⟨furnished_initial, cleared_initial⟩
  refine (List.foldlRecOn (motive := fun s : Session => s.Regular ∧ s.table.Furnished ∧ s.table.Cleared) actions perform
    ⟨regular_start options, hstart⟩ ?_).2.2
  intro s hs action _
  exact ⟨hs.1.perform action, furnished_perform hs.1 hs.2.1 action, cleared_perform hs.1 hs.2.1 hs.2.2 action⟩

end Session

end CobolSymbols
