import CobolSymbols.Proofs.Build.Bound
import CobolSymbols.Proofs.Build.Boundaries

/-!
# What the boundaries of a tree leave in the table

While well-nested events are read, the builder keeps the sections that the boundaries of the tree tell. A section of the
procedure division belongs to the innermost program or procedure. A paragraph belongs to the section that is kept, or else
to the innermost program or procedure, which lists it in any case. A record carries the flag of the section of the data
division that is kept. Nothing that is read later changes this.
-/

set_option autoImplicit false

namespace CobolSymbols

open Table

namespace Declarations

variable {d d' d'' : Declarations} {base : Nat}

/-- Nothing is lost: no stamp changes and what is listed stays listed. The paragraphs among the new symbols are told. -/
structure Retains (d d' : Declarations) (made : List SymbolId) : Prop where
  size_le : d.table.size ≤ d'.table.size
  stamp : ∀ id, id < d.table.size → d.table.SameStamp d'.table id
  listed : ∀ p slot, d.table.listed p slot ⊆ d'.table.listed p slot
  paragraphs : ∀ id, New d d' id → (d'.table.get id).kind = .paragraph → id ∈ made

section Retains

variable {made made' : List SymbolId} {scope : SymbolId} (s : Symbol) (parent : Option ScopeRef)

theorem Retains.trans (h : Retains d d' made) (h' : Retains d' d'' made') : Retains d d'' (made ++ made') where
  size_le := h.size_le.trans h'.size_le
  stamp id hid := (h'.stamp id (hid.trans_le h.size_le)).trans (h.stamp id hid)
  listed p slot := List.Subset.trans (h.listed p slot) (h'.listed p slot)
  paragraphs id hid hkind := by
    by_cases hold : id < d'.table.size
    · rw [(h'.stamp id hold).kind] at hkind
      exact List.mem_append_left _ (h.paragraphs id ⟨hid.1, hold⟩ hkind)
    · exact List.mem_append_right _ (h'.paragraphs id ⟨not_lt.mp hold, hid.2⟩ hkind)

theorem Retains.of_table (h : Retains d d' made) (htable : d''.table = d'.table) : Retains d d'' made := by
  obtain ⟨hsize, hstamp, hlisted, hparagraphs⟩ := h
  unfold New at hparagraphs
  rw [← htable] at hsize hstamp hlisted hparagraphs
  exact ⟨hsize, hstamp, hlisted, hparagraphs⟩

theorem Quiet.retains (h : Quiet d d') : Retains d d' [] where
  size_le := h.size_eq.symm.le
  stamp _ _ := h.stamp _
  listed p slot := by
    rw [h.listed]
    exact List.Subset.refl _
  paragraphs id hid _ := absurd hid.2 (h.size_eq ▸ hid.1).not_gt

theorem Retains.refl (d : Declarations) : Retains d d [] := (Quiet.refl d).retains

theorem Lays.retains {owner : SymbolId} {place : Placement} (h : Lays scope owner place d d') : Retains d d' [] where
  size_le := h.size_le
  stamp := h.stamp
  listed p slot v hv := (h.listed p slot v).mpr (.inl hv)
  paragraphs id hid hkind := absurd hkind ((h.laid id hid).item.kind_ne rfl)

theorem Retains.program (h : Retains d d' made)
    (hkind : (d.table.get scope).kind.isProgramLike = true) : (d'.table.get scope).kind.isProgramLike = true := by
  have hlt : scope < d.table.size := lt_size_of_isProgramLike hkind
  rw [(h.stamp scope hlt).kind]
  exact hkind

theorem retains_made :
    Retains d ((d.alloc s).2.enterIn d.table.size parent) (if s.kind = .paragraph then [d.table.size] else []) := by
  have hstamped : Stamped d ((d.alloc s).2.enterIn d.table.size parent) :=
    (alloc_stamped s).trans (enterIn_stamped _ _)
  refine ⟨hstamped.size_le, hstamped.stamp, fun p slot v hv => ?_, fun id hid hkind => ?_⟩
  · refine listed_subset_enterIn _ _ p slot ?_
    have hget : (d.alloc s).2.table.get p = _ := get_alloc d.table s p
    unfold Table.listed
    rw [hget]
    split
    · rename_i hp
      have hnone : d.table.listed p slot = [] := by
        unfold Table.listed
        rw [get_of_size_le hp.symm.le]
        rfl
      rw [hnone] at hv
      cases hv
    · exact hv
  · obtain rfl := eq_size_of_new hid.1 hid.2
    have hget := d.get_made s
    rw [(enterIn_stamp (d := (d.alloc s).2) d.table.size parent d.table.size).kind, hget] at hkind
    rw [if_pos hkind]
    exact List.mem_singleton_self _

theorem stamp_made : (((d.alloc s).2.enterIn d.table.size parent).table.get d.table.size).stamp = s.stamp := by
  have hget := d.get_made s
  have hself := congrArg Symbol.stamp hget
  exact (enterIn_stamp (d := (d.alloc s).2) d.table.size parent d.table.size).trans hself

theorem listed_made (hprog : (d.table.get scope).kind.isProgramLike = true)
    {slot : ScopeSlot} (hslot : slot ≠ .namespaces) :
    d.table.size ∈ ((d.alloc s).2.enterIn d.table.size (some (.slot scope slot))).table.listed scope slot := by
  have hlt : scope < d.table.size := lt_size_of_isProgramLike hprog
  have hget : (d.alloc s).2.table.get scope = d.table.get scope := get_alloc_of_lt s hlt
  rw [listed_enterIn_slot, hget, Symbol.isSome_scope?, SymbolKind.hasScope_of_isProgramLike hprog hslot,
    if_pos ⟨rfl, rfl, rfl⟩]
  exact List.mem_append_right _ (List.mem_singleton_self _)

theorem startProgram_retains (d : Declarations) (header : ProgramHeader) : Retains d (d.startProgram header).2 [] := by
  obtain ⟨owner, place, parent, made, -, -, -, -, hquiet, htable⟩ := startProgram_made d header
  exact ((retains_made (programSymbol header owner place) parent).trans hquiet.retains).of_table htable

theorem endProgram_retains (d : Declarations) : Retains d d.endProgram [] := by
  have hleft : Retains d d.leaveProgram [] := (Retains.refl d).of_table rfl
  unfold endProgram
  simp only
  split
  · have hchanges := Linker.linkUnit_changes { context := d.leaveProgram.context } d.leaveProgram.typedItems
      d.leaveProgram.dependentTypes d.leaveProgram.dependentTables
    have hlinked : Retains d.leaveProgram d.leaveProgram.link [] := by
      refine ⟨d.leaveProgram.size_link.symm.le, fun id _ => hchanges.stamp id, fun p slot => ?_,
        fun id hid _ => absurd hid.2 (d.leaveProgram.size_link ▸ hid.1).not_gt⟩
      have hlisted : d.leaveProgram.link.table.listed p slot = d.leaveProgram.table.listed p slot :=
        congrFun (congrArg Prod.snd (hchanges.stock p)) slot
      rw [hlisted]
      exact List.Subset.refl _
    exact hleft.trans hlinked
  · exact hleft

theorem Ready.declareRecord_retains (h : d.Ready base) (hplace : d.table.InPlace) (tree : Tree) :
    Retains d (d.declareRecord tree).2 [] := by
  cases hscope : d.currentScope with
  | none =>
    rw [declareRecord_of_none hscope]
    exact (Retains.refl d).of_table rfl
  | some scope =>
    have hscoped := h.scoped hscope
    exact (declareRecord_lays hscope hscoped.kind (hplace.global_of_program hscoped.kind) tree).retains

/-- A procedure is opened with its parameters; the sections that are kept stay. -/
theorem Ready.startProcedure_retains (h : d.Ready base) (hplace : d.table.InPlace) (header : DeclaredProcedure)
    (parameters : Forest) : Retains d (d.startProcedure header parameters).2.2 [] ∧
      (d.startProcedure header parameters).2.2.storage = d.storage ∧
      (d.startProcedure header parameters).2.2.heading = d.heading := by
  cases hscope : d.currentScope with
  | none =>
    rw [startProcedure_of_none hscope]
    exact ⟨Retains.refl d, rfl, rfl⟩
  | some scope =>
    have hmade : Retains d { (d.openProcedure header scope).2 with storage := some .linkage } [] :=
      ((retains_made (procedureSymbol header scope) (some (.slot scope .procedures))).trans
        registerProgram_quiet.retains).of_table rfl
    have hlays := (h.ground_linkage hplace hscope header).declareParameters_lays parameters {}
    unfold Declarations.startProcedure
    simp only [hscope]
    refine ⟨((hmade.trans hlays.retains).trans (setSignature_quiet _).retains).of_table rfl, trivial, ?_⟩
    have hheading := congrArg Mode.heading hlays.mode
    exact hheading.trans rfl

end Retains

section Modes

theorem endProgram_mode (d : Declarations) : d.endProgram.storage = none ∧ d.endProgram.heading = none := by
  unfold endProgram
  simp only
  split <;> exact ⟨rfl, rfl⟩

theorem Ready.declareRecord_mode (h : d.Ready base) (hplace : d.table.InPlace) (tree : Tree) :
    (d.declareRecord tree).2.mode = d.mode := by
  cases hscope : d.currentScope with
  | none => rw [declareRecord_of_none hscope]; rfl
  | some scope =>
    have hscoped := h.scoped hscope
    exact (declareRecord_lays hscope hscoped.kind (hplace.global_of_program hscoped.kind) tree).mode

end Modes

section Records

variable {tree : Tree} {id : SymbolId}

/-- The symbol that a record gets is the first one made for it. -/
theorem declareRecord_symbol (hnone : tree.node.symbol? = none)
    (h : (d.declareRecord tree).1.node.symbol? = some id) : id = d.table.size ∧ d.currentScope ≠ none := by
  cases hscope : d.currentScope with
  | none =>
    rw [declareRecord_of_none hscope, hnone] at h
    cases h
  | some scope =>
    rw [declareRecord_of_some hscope] at h
    refine ⟨?_, nofun⟩
    unfold declareTop declareType at h
    simp only at h
    split at h
    · exact (Option.some.inj h).symm
    · have hmade := d.clearRenames.nodeMade tree.node ⟨d.clearRenames.storage.map fun kept => .slot scope kept.slot, none⟩
        tree.children fun place d => declareFields tree.children place d
      generalize Declarations.declareNode _ _ _ _ _ = made at hmade h
      cases hmade with
      | nothing => exact absurd (h.symm.trans hnone) nofun
      | item c entry kind htold _ _ _ _ _ _ _ hmade =>
        subst hmade
        exact (Option.some.inj h).symm.trans (congrArg Table.size htold.table)
      | alone => exact (Option.some.inj h).symm

/-- A record that is no type belongs to the innermost program or procedure and carries the flag of the section that is
kept. -/
theorem Ready.declareRecord_placed (h : d.Ready base) (hplace : d.table.InPlace) (hnone : tree.node.symbol? = none)
    (hid : (d.declareRecord tree).1.node.symbol? = some id) (hlt : id < (d.declareRecord tree).2.table.size) :
    (d.declareRecord tree).2.table.IsItem id ∧ (¬ (d.declareRecord tree).2.table.IsType id →
      ∃ scope, d.currentScope = some scope ∧ ((d.declareRecord tree).2.table.get scope).kind.isProgramLike = true ∧
        (d.declareRecord tree).2.table.OwnedBy id scope ∧ ∀ kept : StorageSection,
          ((d.declareRecord tree).2.table.get id).flags.has kept.flag = decide (d.storage = some kept)) := by
  obtain ⟨rfl, hscope⟩ := declareRecord_symbol hnone hid
  obtain ⟨scope, hscope⟩ := Option.ne_none_iff_exists'.mp hscope
  have hscoped := h.scoped hscope
  have hglobal := hplace.global_of_program hscoped.kind
  have hlays := declareRecord_lays hscope hscoped.kind hglobal tree
  have hlaid := hlays.laid _ ⟨le_rfl, hlt⟩
  have hprog := (h.declareRecord_retains hplace tree).program hscoped.kind
  refine ⟨hlaid.item, fun htype => ⟨scope, hscope, hprog, ?_, fun kept => ?_⟩⟩
  · obtain ⟨owner, hown, hless, _⟩ := hlaid.owner
    rcases hlays.owned _ _ le_rfl hown with rfl | hle
    · exact hown
    · exact absurd hless hle.not_gt
  · cases hbody : (d.topPlace tree scope).typeBody with
    | none =>
      rw [hlaid.flags kept]
      unfold sectionOf
      rw [hbody]
      rfl
    | some type =>
      -- what is made with a type definition is the type first of all
      have hself : type = d.table.size := by
        unfold topPlace at hbody
        split at hbody
        · exact (Option.some.inj hbody).symm
        · cases hbody
      have hmade := (declareRecord_body tree hscope hscoped.kind hglobal hbody).1
      rw [hself] at hmade
      exact absurd hmade htype

end Records

end Declarations

section Facts

variable {t : Table} {before : List Boundary} {id : SymbolId}

/-- A section of the procedure division belongs to the program or procedure that the boundaries before it tell. -/
structure Table.HeadingAt (t : Table) (before : List Boundary) (id : SymbolId) : Prop where
  kind : (t.get id).kind = .heading
  scope : ∃ scope, scopeAfter before = some scope ∧ (t.get scope).kind.isProgramLike = true ∧ t.OwnedBy id scope

/-- A paragraph is recorded as the boundaries before it tell. -/
structure Table.ParagraphAt (t : Table) (before : List Boundary) (id : SymbolId) : Prop where
  kind : (t.get id).kind = .paragraph
  heading : (t.get id).heading? = headings.current before
  scope : ∃ scope, scopeAfter before = some scope ∧ (t.get scope).kind.isProgramLike = true ∧
    t.OwnedBy id ((headings.current before).getD scope) ∧ id ∈ t.listed scope .paragraphs

/-- A record that is no type is marked as the boundaries before its end tell. -/
structure Table.RecordAt (t : Table) (before : List Boundary) (id : SymbolId) : Prop where
  item : t.IsItem id
  scope : ¬ t.IsType id → ∃ scope, scopeAfter before = some scope ∧ (t.get scope).kind.isProgramLike = true ∧
    t.OwnedBy id scope ∧
    ∀ kept : StorageSection, (t.get id).flags.has kept.flag = decide (storages.current before = some kept)

/-- What a boundary has left in the table. -/
def Boundary.Holds (t : Table) (before : List Boundary) : Boundary → Prop
  | .start ⟨.heading, some id⟩ => t.HeadingAt before id
  | .start ⟨.paragraph, some id⟩ => t.ParagraphAt before id
  | .record (some id) => t.RecordAt before id
  | _ => True

open Declarations (Retains)

variable {d d' : Declarations} {made : List SymbolId}

theorem Table.RecordAt.keep (h : d.table.RecordAt before id) (hretains : Retains d d' made) :
    d'.table.RecordAt before id := by
  have hsame := hretains.stamp id h.item.lt_size
  refine ⟨hsame.isItem_iff.mpr h.item, fun htype => ?_⟩
  · have htype' : ¬ d.table.IsType id := by rwa [hsame.isType_iff] at htype
    obtain ⟨scope, hscope, hprog, hown, hflags⟩ := h.scope htype'
    refine ⟨scope, hscope, hretains.program hprog, hsame.ownedBy_iff.mpr hown, fun kept => ?_⟩
    rw [hsame.has kept.isMark_flag]
    exact hflags kept

theorem Table.ParagraphAt.keep (h : d.table.ParagraphAt before id) (hretains : Retains d d' made) :
    d'.table.ParagraphAt before id := by
  obtain ⟨scope, hscope, hprog, hown, hlisted⟩ := h.scope
  have hsame := hretains.stamp id hown.lt_size
  exact ⟨hsame.kind.trans h.kind, hsame.heading?.trans h.heading, scope, hscope, hretains.program hprog,
    hsame.ownedBy_iff.mpr hown, hretains.listed scope _ hlisted⟩

/-- What a boundary has left in the table stays there. -/
theorem Boundary.Holds.keep {e : Boundary} (h : e.Holds d.table before) (hretains : Retains d d' made) :
    e.Holds d'.table before := by
  unfold Boundary.Holds at h ⊢
  split at h
  · obtain ⟨hkind, scope, hscope, hprog, hown⟩ := h
    have hsame := hretains.stamp _ hown.lt_size
    exact ⟨hsame.kind.trans hkind, scope, hscope, hretains.program hprog, hsame.ownedBy_iff.mpr hown⟩
  · exact h.keep hretains
  · exact h.keep hretains
  · trivial

end Facts

end CobolSymbols
