import CobolSymbols.Proofs.Session.Boundaries
import CobolSymbols.Proofs.StorageMarks

/-!
# The items that nested programs see

A name is looked up in a program first and then in the programs around it, up to the first one that has an item of that
name; beyond the first program only global items count. So an item of a program is found from a program inside it exactly
when the item is global, the inner program has no item of that name, and no program between the two has a global one.

An item is global when it lies in GLOBAL-STORAGE or when it lies in another section and a GLOBAL clause counts for it. The
section is the one that the declarations keep when the record of the item ends.
-/

set_option autoImplicit false

namespace CobolSymbols

open Session SymbolKind Table

namespace Table

variable {t : Table} {p q v : SymbolId} {name : String} {base : Nat}

/-- The item can be seen from programs inside its own. -/
def IsGlobal (t : Table) (v : SymbolId) : Prop :=
  (t.get v).flags.has .global = true ∨ (t.get v).flags.has .globalStorage = true

/-- A program has a global item of the name. -/
def Shadows (t : Table) (m : SymbolId) (name : String) : Prop := ∃ w, t.ItemOf m w ∧ t.name w = name ∧ t.IsGlobal w

theorem meets_globalFlags : (t.get v).flags.meets globalFlags = true ↔ t.IsGlobal v := by
  unfold globalFlags IsGlobal
  rw [FlagSet.meets_ofList]
  simp

section Resolution

/-- A program or procedure answers with its own items, and when it has none the ones around it do. -/
theorem mem_resolveItemIn_program (hprog : (t.get p).kind.isProgramLike = true) (outside : Bool) (outer : List SymbolId) :
    v ∈ t.resolveItemIn name outside (p :: outer) ↔
      (v ∈ t.bearers p name ∧ (outside = true → t.IsGlobal v)) ∨
        (∀ w ∈ t.bearers p name, outside = true ∧ ¬ t.IsGlobal w) ∧ v ∈ t.resolveItemIn name true outer := by
  rw [← Symbol.isSome_program?] at hprog
  obtain ⟨data, hdata⟩ := Option.isSome_iff_exists.mp hprog
  have hbearers : t.bearers p name = data.domain.lookup name := by
    unfold bearers Symbol.domain
    rw [hdata]
    rfl
  have hcounts : ∀ w, (!outside || (t.get w).flags.meets globalFlags) = true ↔ (outside = true → t.IsGlobal w) := by
    intro w
    rw [← meets_globalFlags]
    cases outside <;> simp
  rw [resolveItemIn, hdata, hbearers]
  simp only
  split
  · rename_i hnone
    rw [List.filter_eq_nil_iff] at hnone
    have hnone' : ∀ w ∈ data.domain.lookup name, outside = true ∧ ¬ t.IsGlobal w := fun w hw =>
      Classical.not_imp.mp fun hcounted => hnone w hw ((hcounts w).mpr hcounted)
    exact ⟨fun hv => .inr ⟨hnone', hv⟩, fun hv => hv.elim (fun hv => absurd (hv.2 (hnone' v hv.1).1) (hnone' v hv.1).2) (·.2)⟩
  · rename_i hsome
    rw [List.mem_filter, hcounts]
    refine ⟨.inl, fun hv => hv.resolve_right fun hnone => hsome (List.filter_eq_nil_iff.mpr fun w hw hcounted => ?_)⟩
    exact (hnone.1 w hw).2 ((hcounts w).mp hcounted (hnone.1 w hw).1)

/-- What is found belongs to one of the programs and procedures that are searched. -/
theorem InPlace.itemOf_of_resolved (h : t.InPlace) {outside : Bool} {ids : List SymbolId}
    (hv : v ∈ t.resolveItemIn name outside ids) : ∃ m ∈ ids, t.ItemOf m v := by
  induction ids generalizing outside with
  | nil => cases hv
  | cons id outer ih =>
    have houter : ∀ outside, v ∈ t.resolveItemIn name outside outer → ∃ m ∈ id :: outer, t.ItemOf m v := by
      intro outside hv
      obtain ⟨m, hm, hitem⟩ := ih hv
      exact ⟨m, List.mem_cons_of_mem _ hm, hitem⟩
    cases hprog : (t.get id).kind.isProgramLike with
    | false =>
      rw [← Symbol.isSome_program?, Option.isSome_eq_false_iff, Option.isNone_iff_eq_none] at hprog
      rw [resolveItemIn, hprog] at hv
      exact houter outside hv
    | true =>
      rcases (mem_resolveItemIn_program hprog outside outer).mp hv with hv | hv
      · exact ⟨id, List.mem_cons_self .., ((h.bearers id name v).mp hv.1).1⟩
      · exact houter true hv.2

/-- A program inside another program or procedure belongs to a program inside that one. -/
theorem InPlace.program_around (h : t.InPlace) (hformed : t.Formed base) (hp : (t.get p).kind.isProgramLike = true)
    (hq : (t.get q).kind = .program) (hwithin : t.Within p q) (hne : q ≠ p) :
    ∃ owner, t.OwnedBy q owner ∧ (t.get owner).kind = .program ∧ t.Within p owner := by
  obtain ⟨owner, hown, houter⟩ := (within_iff.mp hwithin).resolve_left hne
  refine ⟨owner, hown, (h.nested q owner hq hown).resolve_left fun hroot => ?_, houter⟩
  have hle : p ≤ rootId := hroot ▸ houter.le hformed.ordered
  rcases (hformed.root p).mpr (Nat.le_zero.mp hle) with hkind | hkind <;> · rw [hkind] at hp; cases hp

theorem Ordered.not_mem_owners (h : t.Ordered) : v ∉ t.owners v := by
  intro hmem
  cases howner : (t.get v).owner with
  | none =>
    rw [owners_of_none howner] at hmem
    cases hmem
  | some owner =>
    rw [owners_of_ownedBy howner] at hmem
    exact absurd (h v owner howner) ((within_of_mem_chainFrom hmem).le h).not_gt

theorem ItemOf.unique {m : SymbolId} (h : t.ItemOf p v) (h' : t.ItemOf m v) : m = p :=
  Option.some.inj (h'.enclosed.symm.trans h.enclosed)

/-- An item of a program is found among the global items of the programs from one inside it outwards when it is global and
no program on the way has a global item of its name. -/
theorem ItemOf.mem_resolve_outside (hv : t.ItemOf p v) (hplace : t.InPlace) (hformed : t.Formed base) {m : SymbolId}
    (hm : (t.get m).kind = .program) (hwithin : t.Within p m) :
    v ∈ t.resolveItemIn (t.name v) true (t.chain m) ↔
      t.IsGlobal v ∧ ∀ m', t.Within p m' → t.Within m' m → m' ≠ p → ¬ t.Shadows m' (t.name v) := by
  have hbearers : ∀ m w, w ∈ t.bearers m (t.name v) ↔ t.ItemOf m w ∧ t.name w = t.name v := fun m w =>
    hplace.bearers m (t.name v) w
  have hordered := hformed.ordered
  induction m using Nat.strongRecOn with
  | _ m ih =>
    have hprog : (t.get m).kind.isProgramLike = true := by
      rw [hm]
      rfl
    rw [hordered.chain_eq (lt_size_of_program hm), mem_resolveItemIn_program hprog]
    by_cases heq : m = p
    · subst heq
      constructor
      · rintro (⟨_, hglobal⟩ | ⟨_, hfound⟩)
        · refine ⟨hglobal rfl, fun m' hin hout hne => absurd ?_ hne⟩
          exact (hout.le hordered).antisymm (hin.le hordered)
        · obtain ⟨m', hm', hitem⟩ := hplace.itemOf_of_resolved hfound
          rw [hv.unique hitem] at hm'
          exact absurd hm' hordered.not_mem_owners
      · rintro ⟨hglobal, _⟩
        exact .inl ⟨(hbearers m v).mpr ⟨hv, rfl⟩, fun _ => hglobal⟩
    · obtain ⟨owner, hown, hkind, houter⟩ := hplace.program_around hformed hv.program hm hwithin heq
      have hinner : v ∈ t.resolveItemIn (t.name v) true (t.chain owner) ↔ t.IsGlobal v ∧
          ∀ m', t.Within p m' → t.Within m' owner → m' ≠ p → ¬ t.Shadows m' (t.name v) :=
        ih owner (hordered m owner hown) hkind houter
      rw [owners_of_ownedBy hown, hinner]
      constructor
      · rintro (⟨hmem, _⟩ | ⟨hnone, hglobal, hrest⟩)
        · exact absurd (hv.unique ((hbearers m v).mp hmem).1) heq
        · refine ⟨hglobal, fun m' hin hout hne => ?_⟩
          rcases within_iff.mp hout with rfl | ⟨other, hother, hout'⟩
          · rintro ⟨w, hitem, hname, hw⟩
            exact (hnone w ((hbearers _ w).mpr ⟨hitem, hname⟩)).2 hw
          · obtain rfl := hown.unique hother
            exact hrest m' hin hout' hne
      · rintro ⟨hglobal, hall⟩
        refine .inr ⟨fun w hw => ⟨rfl, fun hw' => hall m hwithin .refl heq ?_⟩, hglobal, fun m' hin hout hne => ?_⟩
        · exact ⟨w, ((hbearers m w).mp hw).1, ((hbearers m w).mp hw).2, hw'⟩
        · exact hall m' hin (within_iff.mpr (.inr ⟨owner, hown, hout⟩)) hne

/-- An item of a program is found from a program inside it when it is global, the inner program has no item of its name,
and no program between the two has a global one. -/
theorem ItemOf.mem_resolveItem (hv : t.ItemOf p v) (hplace : t.InPlace) (hformed : t.Formed base)
    (hq : (t.get q).kind = .program) (hwithin : t.Within p q) (hne : q ≠ p) :
    v ∈ t.resolveItem q (t.name v) ↔ t.IsGlobal v ∧ (∀ w, t.ItemOf q w → t.name w ≠ t.name v) ∧
      ∀ m, t.Within p m → t.Within m q → m ≠ p → m ≠ q → ¬ t.Shadows m (t.name v) := by
  obtain ⟨owner, hown, hkind, houter⟩ := hplace.program_around hformed hv.program hq hwithin hne
  have hprog : (t.get q).kind.isProgramLike = true := by
    rw [hq]
    rfl
  have hordered := hformed.ordered
  have hstep : ∀ m, t.Within m q → m ≠ q → t.Within m owner := by
    intro m hout hne
    obtain ⟨other, hother, hout'⟩ := (within_iff.mp hout).resolve_left fun heq => hne heq.symm
    exact Option.some.inj (hother.symm.trans hown) ▸ hout'
  unfold resolveItem
  rw [hordered.chain_eq hown.lt_size, mem_resolveItemIn_program hprog, owners_of_ownedBy hown,
    hv.mem_resolve_outside hplace hformed hkind houter]
  constructor
  · rintro (⟨hmem, _⟩ | ⟨hnone, hglobal, hrest⟩)
    · exact absurd (hv.unique ((hplace.bearers q _ v).mp hmem).1) hne
    · refine ⟨hglobal, fun w hitem hname => ?_, fun m hin hout hne hne' => hrest m hin (hstep m hout hne') hne⟩
      exact absurd (hnone w ((hplace.bearers q _ w).mpr ⟨hitem, hname⟩)).1 Bool.false_ne_true
  · rintro ⟨hglobal, hown', hbetween⟩
    refine .inr ⟨fun w hw => ?_, hglobal, fun m hin hout hne => ?_⟩
    · obtain ⟨hitem, hname⟩ := (hplace.bearers q _ w).mp hw
      exact absurd hname (hown' w hitem)
    · refine hbetween m hin (within_iff.mpr (.inr ⟨owner, hown, hout⟩)) hne ?_
      exact ((hout.le hordered).trans_lt (hordered q owner hown)).ne

end Resolution

section Records

variable {origin origin' : Option StorageSection} {r group : SymbolId}

theorem origin_unique (h : ∀ kept : StorageSection, decide (origin' = some kept) = decide (origin = some kept)) :
    origin' = origin := by
  cases origin' with
  | some kept => exact (of_decide_eq_true ((h kept).symm.trans (decide_eq_true rfl))).symm
  | none =>
    cases origin with
    | none => rfl
    | some kept => exact of_decide_eq_true ((h kept).trans (decide_eq_true rfl))

/-- An item that belongs to anything but the root is in order. -/
theorem InPlace.laid_of_owner (h : t.InPlace) (hitem : t.IsItem v) (hown : t.OwnedBy v p) (hne : p ≠ rootId) :
    ∃ origin, t.Laid origin v :=
  (h.items v hitem).resolve_left fun hbuiltin => hne (Option.some.inj (hown.symm.trans hbuiltin.owner))

/-- An item of a program or procedure that came with a storage section, or with none. -/
structure Stands (t : Table) (p : SymbolId) (origin : Option StorageSection) (v : SymbolId) : Prop where
  laid : t.Laid origin v
  itemOf : t.ItemOf p v
  inSection : ∀ kept, origin = some kept → t.InSection p kept v
  bare : origin = none → (t.get v).flags.has .global = false

theorem stands_of_owner (hplace : t.InPlace) (hformed : t.Formed base) (hitem : t.IsItem v) (htype : ¬ t.IsType v)
    (hprog : (t.get p).kind.isProgramLike = true) (hown : t.OwnedBy v p)
    (hflags : ∀ kept : StorageSection, (t.get v).flags.has kept.flag = decide (origin = some kept)) :
    t.Stands p origin v := by
  have hscope := isScope_of_isProgramLike hprog
  have hroot : p ≠ rootId := fun heq => by
    rcases (hformed.root p).mpr heq with hkind | hkind <;> · rw [hkind] at hprog; cases hprog
  obtain ⟨origin', hlaid⟩ := hplace.laid_of_owner hitem hown hroot
  obtain rfl : origin' = origin := origin_unique fun kept => (hlaid.flags kept).symm.trans (hflags kept)
  refine ⟨hlaid, ⟨hitem, .of_owner hown htype (hformed.scope_outside hscope), ?_, hprog⟩, ?_, fun hnone => ?_⟩
  · exact hformed.ordered.enclosingScope_of_program hprog hown
  · rintro kept rfl
    exact .entry ((hplace.listed p kept v).mpr ⟨hlaid.has_flag, hown, hprog⟩)
  · rw [← Bool.not_eq_true]
    intro hglobal
    obtain ⟨owner, hown', hmark⟩ := hlaid.bare hnone htype hglobal
    obtain rfl : owner = p := Option.some.inj (hown'.symm.trans hown)
    have hnot : ¬ t.IsItem owner := fun hitem => by
      rw [isScope_of_isItem hitem] at hscope
      cases hscope
    exact absurd ((hplace.others owner hnot .global rfl).symm.trans hmark) Bool.false_ne_true

theorem Stands.field (h : t.Stands p origin group) (hregular : t.Regular) (hplace : t.InPlace) (hformed : t.Formed base)
    (hfield : v ∈ t.fields group) : t.Stands p origin v := by
  have hown : t.OwnedBy v group := hformed.field_owner group v hfield
  have hgroup := isScope_of_isItem h.laid.item
  have hitem : t.IsItem v := (hregular.standing v hown.lt_size).inner group hown h.laid.item
  have htype : ¬ t.IsType v := fun htype => by
    rw [hformed.type_owner v group hown htype] at hgroup
    cases hgroup
  have hroot : group ≠ rootId := fun heq => by
    have hnot := h.laid.item
    unfold IsItem at hnot
    rcases (hformed.root group).mpr heq with hkind | hkind <;> · rw [hkind] at hnot; cases hnot
  obtain ⟨origin', hlaid⟩ := hplace.laid_of_owner hitem hown hroot
  have horigin : origin' = origin := by
    obtain ⟨owner, howner, _, hhosts⟩ := hlaid.owner
    obtain rfl := howner.unique hown
    rcases hhosts with ⟨hprog, _⟩ | ⟨hmarked, _⟩
    · rw [isScope_of_isProgramLike hprog] at hgroup
      cases hgroup
    · exact origin_unique fun kept => (hmarked.flags kept).symm.trans (h.laid.flags kept)
  subst horigin
  refine ⟨hlaid, ⟨hitem, .of_owner hown htype h.itemOf.outside, ?_, h.itemOf.program⟩,
    fun kept heq => .field (h.inSection kept heq) hfield, fun hnone => ?_⟩
  · rw [hformed.ordered.enclosingScope_eq hown, Symbol.isScope_eq, hgroup]
    exact h.itemOf.enclosed
  · rw [← Bool.not_eq_true]
    intro hglobal
    obtain ⟨owner, hown', hmark⟩ := hlaid.bare hnone htype hglobal
    obtain rfl : owner = group := Option.some.inj (hown'.symm.trans hown)
    exact absurd ((h.bare hnone).symm.trans hmark) Bool.false_ne_true

theorem RecordAt.stands {before : List Boundary} (h : t.RecordAt before r) (htype : ¬ t.IsType r) (hregular : t.Regular)
    (hplace : t.InPlace) (hformed : t.Formed base) :
    ∃ p, scopeAfter before = some p ∧ ∀ v, t.Governs r v → r ≤ v ∧ t.Stands p (storages.current before) v := by
  obtain ⟨p, hscope, hprog, hown, hflags⟩ := h.scope htype
  have hrecord := stands_of_owner hplace hformed h.item htype hprog hown hflags
  refine ⟨p, hscope, fun v hv => ?_⟩
  rcases hv with rfl | hindexed | hcontains
  · exact ⟨le_rfl, hrecord⟩
  · have hkind : (t.get v).kind = .index := by
      by_contra hkind
      rw [Declarations.indexed?_of_kind hkind] at hindexed
      cases hindexed
    have hitem : t.IsItem v := by
      unfold IsItem
      rw [hkind]
      rfl
    have htype' : ¬ t.IsType v := by
      unfold IsType
      rw [hkind]
      nofun
    rcases hplace.items v hitem with hbuiltin | ⟨origin, hlaid⟩
    · exact absurd (hbuiltin.plain.symm.trans hindexed) nofun
    · have hindex := hlaid.index r hindexed
      refine ⟨hindex.lt.le, ?_⟩
      refine stands_of_owner hplace hformed hitem htype' hprog (hindex.owner.trans hown) fun kept => ?_
      rw [hindex.marks _ kept.isMark_flag]
      exact hflags kept
  · have hfield : ∀ group v, v ∈ t.fields group → r ≤ group ∧ t.Stands p (storages.current before) group →
        r ≤ v ∧ t.Stands p (storages.current before) v := fun group v hfield hgroup =>
      ⟨hgroup.1.trans (hformed.ordered v group (hformed.field_owner group v hfield)).le,
        hgroup.2.field hregular hplace hformed hfield⟩
    induction hcontains with
    | single hv => exact hfield r _ hv ⟨le_rfl, hrecord⟩
    | tail _ hv ih => exact hfield _ _ hv ih

/-- An item is global when it lies in GLOBAL-STORAGE, or in another section while a GLOBAL clause counts for it. -/
theorem Stands.isGlobal_iff (h : t.Stands p origin v) {tree : Tree} {base' : Nat} (hdeclared : t.Declared base' tree)
    (hregular : t.Regular) (hplace : t.InPlace) (hformed : t.Formed base) (hv : base' ≤ v) :
    t.IsGlobal v ↔ origin = some .globalStorage ∨ origin.isSome ∧ ∃ u, t.Governs u v ∧ tree.DeclaresGlobal u := by
  have hstorage : (t.get v).flags.has .globalStorage = decide (origin = some .globalStorage) :=
    h.laid.flags .globalStorage
  unfold IsGlobal
  rw [hstorage]
  cases horigin : origin with
  | none => simp [h.bare horigin]
  | some kept =>
    rw [hdeclared.global_inSection hregular hplace hformed hv (h.inSection kept horigin)]
    by_cases hkept : kept = .globalStorage <;> simp [hkept]

end Records

end Table

namespace Session

/-- In every session, the boundaries of the tree of a well-nested unit tell which items its nested programs see. What a
record that is no type governs belongs to the program or procedure around the record. It is found by its name from a program
inside exactly when it is in GLOBAL-STORAGE, or in another section while a GLOBAL clause counts for it, the inner program
has no item of that name, and no program between the two has a global one. The section is the one that is kept where the
record ends, which is the section around the record if nothing before it that changes a section stands in one. -/
theorem global_items_visible (options : Options) (actions : List Action) (file : FileId) {events : List Event}
    (hnested : WellNested events) :
    let s := reached options actions
    let tree := (s.compile file events).1.tree
    let t := (s.compile file events).2.table
    ∀ before r after, tree.boundaries = before ++ .record (some r) :: after → ¬ t.IsType r →
      (openAfter before, .record (some r)) ∈ tree.places ∧
      (storages.Flat before → storages.current before = storages.nearest (openAfter before)) ∧
      ∃ p, scopeAfter before = some p ∧ ∀ v, t.Governs r v → t.ItemOf p v ∧
        ∀ q, (t.get q).kind = .program → t.Within p q → q ≠ p →
          (v ∈ t.resolveItem q (t.name v) ↔
            (storages.current before = some .globalStorage ∨
              (storages.current before).isSome ∧ ∃ u, t.Governs u v ∧ tree.DeclaresGlobal u) ∧
            (∀ w, t.ItemOf q w → t.name w ≠ t.name v) ∧
            ∀ m, t.Within p m → t.Within m q → m ≠ p → m ≠ q → ¬ t.Shadows m (t.name v)) := by
  intro s tree t before r after hsplit htype
  have hstart : s.Regular := regular_reached options actions
  have hplace : s.table.InPlace := inPlace_reached options actions
  have hregular := hstart.compile file events
  have hplace' : t.InPlace := hstart.inPlace_compile hplace file events
  have hformed : t.Formed t.size := hregular.sound.toFormed
  obtain ⟨hholds, _, hrecords⟩ := hstart.boundaries_hold hplace file hnested
  have hat : t.RecordAt before r := hholds _ _ _ hsplit
  have hr : s.table.size ≤ r := hrecords r (by rw [hsplit]; exact List.mem_append_right _ (List.mem_cons_self ..))
  obtain ⟨p, hscope, hall⟩ := hat.stands htype hregular.table hplace' hformed
  refine ⟨Tree.mem_places rfl hsplit, fun hflat => hflat.current_eq.2, p, hscope, fun v hv => ?_⟩
  obtain ⟨hle, hstands⟩ := hall v hv
  refine ⟨hstands.itemOf, fun q hq hwithin hne => ?_⟩
  rw [hstands.itemOf.mem_resolveItem hplace' hformed hq hwithin hne,
    hstands.isGlobal_iff (hstart.declared_compile hplace file events) hregular.table hplace' hformed (Nat.le_trans hr hle)]

end Session

/-- A program with a global group, a table with an index in the group, and a program inside. -/
def globalTable : List Event :=
  [.startProgram { name := "P", position := ⟨1, 8⟩ }, .startDataDivision ⟨2, 8⟩,
    .startStorage .workingStorage ⟨⟨3, 8⟩⟩,
    .dataEntry (DataEntry.named 1 "G" ⟨4, 8⟩).asGlobal,
    .dataEntry ((((DataEntry.named 2 "T" ⟨5, 8⟩).withPicture "X").withOccurs 3 3).indexedBy "I" ⟨5, 30⟩),
    .endStorage .workingStorage, .endDataDivision, .startProgram { name := "Q", position := ⟨6, 8⟩ }, .endProgram none,
    .endProgram none]

/-- The program inside sees the index by way of the clause of the group. -/
theorem global_items_visible_index :
    let t := ((Session.reached {} []).compile 0 globalTable).2.table
    WellNested globalTable ∧ t.name 13 = "I" ∧ t.Within 10 14 ∧ 13 ∈ t.resolveItem 14 "I" := by
  intro t
  have hnested : WellNested globalTable := by decide
  let before : List Boundary :=
    [.start ⟨.program, some 10⟩, .start ⟨.dataDivision, none⟩, .start ⟨.storage .workingStorage, none⟩]
  have hboundaries : ((Session.reached {} []).compile 0 globalTable).1.tree.boundaries = before ++ .record (some 11) ::
      [.finish, .finish, .start ⟨.program, some 14⟩, .finish, .finish] := by decide +kernel
  have htype : ¬ t.IsType 11 := by
    unfold IsType
    decide +kernel
  have hname : t.name 13 = "I" := by decide +kernel
  have hgoverns : t.Governs 11 13 := .inr (.inr (.single (by decide +kernel)))
  have hclause : ((Session.reached {} []).compile 0 globalTable).1.tree.DeclaresGlobal 11 := by
    unfold Tree.DeclaresGlobal
    decide +kernel
  have hown : t.OwnedBy 14 10 := by
    unfold OwnedBy
    decide +kernel
  have hwithin : t.Within 10 14 := .single hown
  obtain ⟨_, _, p, hscope, hall⟩ := global_items_visible {} [] 0 hnested before 11 _ hboundaries htype
  cases hscope
  obtain ⟨_, hvisible⟩ := hall 13 hgoverns
  have hregular := (regular_reached {} []).compile 0 globalTable
  have hplace : t.InPlace := (regular_reached {} []).inPlace_compile (inPlace_reached {} []) 0 globalTable
  refine ⟨hnested, hname, hwithin, hname ▸ (hvisible 14 (by decide +kernel) hwithin nofun).mpr ⟨.inr ⟨rfl, 11, hgoverns, hclause⟩,
    fun w hitem hsame => ?_, fun m hin hout hne hne' => ?_⟩⟩
  · have hmem := (hplace.bearers 14 _ w).mpr ⟨hitem, hsame⟩
    have hnone : t.bearers 14 (t.name 13) = [] := by decide +kernel
    rw [hnone] at hmem
    cases hmem
  · obtain ⟨owner, hown', hout'⟩ := (within_iff.mp hout).resolve_left fun heq => hne' heq.symm
    obtain rfl : owner = 10 := Option.some.inj (hown'.symm.trans hown)
    exact absurd (Nat.le_antisymm (hout'.le hregular.sound.ordered) (hin.le hregular.sound.ordered)) hne

/-- A program with a program inside its working storage and a global item after that. Another program comes at the end. -/
def itemAfterProgram : List Event :=
  [.startProgram { name := "P", position := ⟨1, 8⟩ }, .startDataDivision ⟨2, 8⟩,
    .startStorage .workingStorage ⟨⟨3, 8⟩⟩, .startProgram { name := "Q1", position := ⟨4, 8⟩ }, .endProgram none,
    .dataEntry ((DataEntry.named 1 "B" ⟨5, 8⟩).withPicture "X").asGlobal,
    .endStorage .workingStorage, .endDataDivision, .startProgram { name := "Q2", position := ⟨6, 8⟩ }, .endProgram none,
    .endProgram none]

/-- A global item of the working storage is not seen from inside when a program has ended in the section before it: the
section is no longer kept then. -/
theorem global_item_after_program_hidden :
    let unit := (Session.reached {} []).compile 0 itemAfterProgram
    WellNested itemAfterProgram ∧
      ([⟨.storage .workingStorage, none⟩, ⟨.dataDivision, none⟩, ⟨.program, some 10⟩], .record (some 12)) ∈
        unit.1.tree.places ∧
      unit.1.tree.DeclaresGlobal 12 ∧ unit.2.table.name 12 = "B" ∧ unit.2.table.OwnedBy 13 10 ∧
      unit.2.table.bearers 13 "B" = [] ∧ unit.2.table.resolveItem 13 "B" = [] := by
  unfold Tree.DeclaresGlobal OwnedBy
  decide +kernel

end CobolSymbols
