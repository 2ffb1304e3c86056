import CobolSymbols.Proofs.Session.Isolation

/-!
# The restrictions of items

A type definition declares how strictly it binds the items of its type. When a reference is bound, the item takes over the
restrictions that the type has at that moment: the one that the type declares, and those that the type itself has taken over
before from the type that it refers to. So an item has the restriction that its type declares, and whatever restriction an
item has is declared by a type that its reference leads to; which of these an item has depends on what has been linked first.
-/

set_option autoImplicit false

namespace CobolSymbols

open Declarations Symbol Table SymbolFlag FlagSet

open Relation (ReflTransGen)

theorem SymbolFlag.isTrait_of_isRestriction {f : SymbolFlag} (h : f.isRestriction = true) : f.isTrait = true := by
  unfold isTrait
  rw [h, Bool.or_true]

theorem SymbolFlags.has_restrictions (f : SymbolFlag) : restrictions.has f = f.isRestriction := by
  cases f <;> decide

theorem Symbol.declares_eq (s : Symbol) (f : SymbolFlag) : s.declares f = s.core?.any fun kind => kind.declares f := by
  unfold declares core?
  cases s.item? with
  | none => rfl
  | some data => cases hkind : data.kind <;> simp [hkind, ItemKind.core, ItemKind.declares]

namespace Table

variable {t t' : Table}

theorem Extends.declares (h : Extends t t') {id : SymbolId} (hid : id < t.size) (f : SymbolFlag) :
    (t'.get id).declares f = (t.get id).declares f := by
  have hcore : (t'.get id).core? = (t.get id).core? := congrArg (·.2.2.2.2) (h.identity id hid)
  rw [declares_eq, declares_eq, hcore]

/-- A type has the restriction that it declares, an item the one that its type declares, and every restriction is declared
by a type that can be reached along references. -/
structure Restricted (t : Table) : Prop where
  own : ∀ id f, f.isRestriction = true → (t.get id).declares f = true → (t.get id).flags.has f = true
  bound : ∀ id type f, f.isRestriction = true → t.Refers id type → (t.get type).declares f = true →
    (t.get id).flags.has f = true
  source : ∀ id f, f.isRestriction = true → (t.get id).flags.has f = true →
    ∃ type, ReflTransGen t.Refers id type ∧ (t.get type).declares f = true

/-- The table grows by symbols that have the restrictions they declare, and no reference is bound. -/
theorem Restricted.grows (h : t.Restricted) (hext : t.Extends t') (hrefers : t'.Refers = t.Refers)
    (hflags : ∀ id f, f.isRestriction = true → id < t.size → (t'.get id).flags.has f = (t.get id).flags.has f)
    (hnew : ∀ id f, f.isRestriction = true → t.size ≤ id → (t'.get id).flags.has f = (t'.get id).declares f)
    (htarget : ∀ id type, t.Refers id type → type < t.size) : t'.Restricted where
  own id f hf hdeclares := by
    by_cases hid : id < t.size
    · rw [hext.declares hid] at hdeclares
      rw [hflags id f hf hid]
      exact h.own id f hf hdeclares
    · rw [hnew id f hf (not_lt.mp hid)]
      exact hdeclares
  bound id type f hf href hdeclares := by
    rw [hrefers] at href
    rw [hext.declares (htarget id type href)] at hdeclares
    rw [hflags id f hf (lt_size_of_reference? href.isSome)]
    exact h.bound id type f hf href hdeclares
  source id f hf hhas := by
    by_cases hid : id < t.size
    · rw [hflags id f hf hid] at hhas
      obtain ⟨type, hreach, hdeclares⟩ := h.source id f hf hhas
      rw [hrefers]
      exact ⟨type, hreach, (hext.declares (lt_size_of_get (·.declares f = true) hdeclares nofun) f).trans hdeclares⟩
    · rw [hnew id f hf (not_lt.mp hid)] at hhas
      exact ⟨id, .refl, hhas⟩

theorem Restricted.of_binding (h : t.Restricted) (hkept : ∀ id, (t'.get id).binding = (t.get id).binding) : t'.Restricted := by
  have hrefers : t'.Refers = t.Refers := by
    funext id type
    have href : (t'.get id).reference? = (t.get id).reference? := congrArg (·.1) (hkept id)
    unfold Refers
    rw [href]
  have hflags : ∀ id, (t'.get id).flags = (t.get id).flags := fun id => congrArg (·.2.1) (hkept id)
  have hdeclares : ∀ id, (t'.get id).declares = (t.get id).declares := by
    intro id
    have hcore : (t'.get id).core? = (t.get id).core? := congrArg (·.2.2) (hkept id)
    funext f
    rw [declares_eq, declares_eq, hcore]
  constructor <;> simp only [hrefers, hflags, hdeclares]
  · exact h.own
  · exact h.bound
  · exact h.source

theorem restricted_initial : initial.Restricted := by
  have hplain := forall_initial (P := fun _ s => s.reference?.isNone = true ∧ ∀ f ∈ [SymbolFlag.strongType, .strictType, .weakType],
      s.flags.has f = s.declares f) (by decide) fun _ _ => by decide
  have hown : ∀ id f, f.isRestriction = true → (initial.get id).flags.has f = (initial.get id).declares f :=
    fun id f hf => (hplain id).2 f (by cases f <;> first | exact absurd hf (by decide) | simp)
  refine ⟨fun id f hf hdeclares => (hown id f hf).trans hdeclares, fun id type f _ href => ?_,
    fun id f hf hhas => ⟨id, .refl, (hown id f hf).symm.trans hhas⟩⟩
  have hsome := href.isSome
  rw [Option.isNone_iff_eq_none.mp (hplain id).1] at hsome
  cases hsome

end Table

namespace Linker

variable {l l' : Linker} {base : Nat} {item type : SymbolId}

/-- What is bound in the unit is what the references mean. -/
def BindsMeant (l : Linker) (base : Nat) : Prop :=
  ∀ item type, base ≤ item → l.table.Refers item type → l.table.meant? item = some type

theorem refers_bind (hsome : (l.table.get item).reference?.isSome = true) {id target : SymbolId} :
    (l.bind item type).table.Refers id target ↔ if id = item then target = type else l.table.Refers id target := by
  have hlt := lt_size_of_reference? hsome
  unfold Refers
  rw [bind_table, get_modify]
  split
  · rename_i heq
    rw [if_pos heq.1, heq.1, bind_reference?]
    obtain ⟨reference, href⟩ := Option.isSome_iff_exists.mp hsome
    simp [href, eq_comm]
  · rename_i hne
    have hne' : id ≠ item := fun heq => hne ⟨heq, heq ▸ hlt⟩
    rw [if_neg hne']

theorem has_bind (hlt : item < l.table.size) {f : SymbolFlag} (hf : f.isRestriction = true) (id : SymbolId) :
    ((l.bind item type).table.get id).flags.has f =
      ((l.table.get id).flags.has f || (decide (id = item) && (l.table.get type).flags.has f)) := by
  rw [bind_table, get_modify]
  split
  · rename_i heq
    simp [heq.1, has_union, has_inter, SymbolFlags.has_restrictions, hf]
  · rename_i hne
    have hne' : id ≠ item := fun heq => hne ⟨heq, heq ▸ hlt⟩
    simp [hne']

theorem restricted_bind (h : l.table.Restricted) (hbinds : l.BindsMeant base) (hitem : base ≤ item)
    (hmeant : l.table.meant? item = some type) : (l.bind item type).table.Restricted := by
  have hsome := isSome_reference? hmeant
  have hlt := lt_size_of_reference? hsome
  have hdeclares : ∀ id f, ((l.bind item type).table.get id).declares f = (l.table.get id).declares f := fun id f =>
    view_modify (fun s => s.declares f) rfl id
  -- a reference that has been bound means its type, so that it stays bound to it
  have hstays : ∀ id target, l.table.Refers id target → (l.bind item type).table.Refers id target := by
    intro id target href
    rw [refers_bind hsome]
    split
    · rename_i heq
      subst heq
      exact Option.some.inj ((hbinds id target hitem href).symm.trans hmeant)
    · exact href
  have hgrows : ∀ {id f}, f.isRestriction = true → (l.table.get id).flags.has f = true →
      ((l.bind item type).table.get id).flags.has f = true := by
    intro id f hf hhas
    rw [has_bind hlt hf, hhas, Bool.true_or]
  constructor
  case own =>
    intro id f hf hd
    rw [hdeclares] at hd
    exact hgrows hf (h.own id f hf hd)
  case bound =>
    intro id target f hf href hd
    rw [hdeclares] at hd
    rw [refers_bind hsome] at href
    split at href
    · rename_i heq
      rw [has_bind hlt hf, h.own type f hf (href ▸ hd)]
      simp [heq]
    · exact hgrows hf (h.bound id target f hf href hd)
  case source =>
    intro id f hf hhas
    rw [has_bind hlt hf, Bool.or_eq_true, Bool.and_eq_true, decide_eq_true_iff] at hhas
    rcases hhas with hhas | ⟨rfl, hhas⟩
    · obtain ⟨target, hreach, hd⟩ := h.source id f hf hhas
      exact ⟨target, hreach.lift (fun v => v) hstays, (hdeclares target f).trans hd⟩
    · obtain ⟨target, hreach, hd⟩ := h.source type f hf hhas
      have hfirst : (l.bind id type).table.Refers id type := (refers_bind hsome).mpr (by simp)
      exact ⟨target, .head hfirst (hreach.lift (fun v => v) hstays), (hdeclares target f).trans hd⟩

theorem Act.restricted (hact : Act base l l') (h : l.table.Restricted) (hbinds : l.BindsMeant base) :
    l'.table.Restricted ∧ l'.BindsMeant base := by
  have hmeans : l'.table.meant? = l.table.meant? := Changes.meant? (.single hact.change)
  cases hact with
  | bind item type hitem hleads =>
    refine ⟨restricted_bind h hbinds hitem hleads.meant, fun other target hother href => ?_⟩
    rw [hmeans]
    rw [refers_bind (isSome_reference? hleads.meant)] at href
    split at href
    · rename_i heq
      rw [heq, href]
      exact hleads.meant
    · exact hbinds other target hother href
  | other _ hkept =>
    refine ⟨h.of_binding hkept, fun other target hother href => ?_⟩
    rw [hmeans]
    refine hbinds other target hother ?_
    have hreference : (l'.table.get other).reference? = (l.table.get other).reference? := congrArg (·.1) (hkept other)
    unfold Refers at href
    rw [hreference] at href
    exact href

theorem restricted_of_acts (hacts : ReflTransGen (Act base) l l') (h : l.table.Restricted) (hbinds : l.BindsMeant base) :
    l'.table.Restricted ∧ l'.BindsMeant base := by
  induction hacts with
  | refl => exact ⟨h, hbinds⟩
  | tail _ hact ih => exact hact.restricted ih.1 ih.2

end Linker

namespace Declarations

variable {base : Nat} {d d' : Declarations}

/-- Until the unit is linked, its symbols have the restrictions that they declare. -/
theorem Work.restricted (hwork : Work base d d') (hsound : d.table.Sound base) (hindexed : d.table.Indexed)
    (h : d.table.Restricted) : d'.table.Restricted := by
  have hspares := hwork.spares hsound hindexed
  have hsound' := hwork.sound hsound
  cases hwork with
  | stack htable =>
    rw [htable]
    exact h
  | move old parent hmove =>
    have hrefers : d'.table.Refers = d.table.Refers := by
      funext id type
      by_cases hid : id < base
      · obtain ⟨_, _, _, htype, _, _⟩ := lasting_eq (hspares id hid)
        unfold Refers Symbol.reference?
        rw [htype]
      · have hbase := not_lt.mp hid
        exact propext ⟨fun href => absurd href (hsound'.unbound id type hbase),
          fun href => absurd href (hsound.unbound id type hbase)⟩
    refine h.grows hmove.extends hrefers
      (fun id f hf hid => hmove.view_eq (overlooks_trait (isTrait_of_isRestriction hf)) hid)
      (fun id f hf hid => ?_) fun id type href => (hsound.target_type id type href).lt_size
    have hbeyond : d'.table.size ≤ id → (d'.table.get id).flags.has f = (d'.table.get id).declares f := by
      intro hle
      rw [get_of_size_le hle]
      cases f <;> rfl
    rcases hmove.size_eq_or_alloc with hsize | ⟨s, owner, hfresh, _, _, rfl⟩
    · exact hbeyond (hsize ▸ hid)
    · rcases Nat.eq_or_lt_of_le hid with rfl | hlt
      · rw [d.get_made s]
        exact hfresh.traits f (isTrait_of_isRestriction hf)
      · exact hbeyond ((Table.size_alloc d.table s).trans_le hlt)

theorem Works.restricted (hworks : Works base d d') (hsound : d.table.Sound base) (hindexed : d.table.Indexed)
    (h : d.table.Restricted) : d'.table.Restricted := by
  induction hworks with
  | refl => exact h
  | tail hfirst hwork ih =>
    obtain ⟨_, hsound', hindexed'⟩ := Works.spares hfirst hsound hindexed
    exact hwork.restricted hsound' hindexed' ih

theorem Step.restricted (hstep : Step d d') (hready : d.Ready base) (hindexed : d.table.Indexed)
    (h : d.table.Restricted) : d'.table.Restricted := by
  rcases hstep.turn hready with hturn | ⟨_, rfl⟩
  · exact hturn.works.restricted hready.sound_frontier hindexed h
  · exact (Linker.restricted_of_acts hready.proceeds_link.acts h fun item type hitem href =>
      absurd href (hready.sound.unbound item type hitem)).1

end Declarations

namespace Table

variable {t : Table} {program : SymbolId}

theorem Regular.restricted_removeProgram {base : Nat} (h : t.Regular) (hsound : t.Sound base)
    (hkind : (t.get program).kind = .program) (hrestricted : t.Restricted) : (t.removeProgram program).2.Restricted := by
  obtain ⟨hext, hsize⟩ := h.extends_removeProgram hsound hkind
  have hrefers : (t.removeProgram program).2.Refers = t.Refers := by
    funext id type
    have htype := h.view_removeProgram Symbol.type hsound hkind (fun s f => s.mapScopes_type f) (fun s => s.mapItem_type _) id
    unfold Refers Symbol.reference?
    rw [htype]
  refine hrestricted.grows hext hrefers (fun id f hf _ => ?_) (fun id f _ hid => ?_) fun id type href =>
    (hsound.target_type id type href).lt_size
  · refine h.view_removeProgram (fun s => s.flags.has f) hsound hkind (fun s g => ?_) (fun s => ?_) id
    · rw [mapScopes_flags]
    · have hne : SymbolFlag.removed ≠ f := by rintro rfl; cases hf
      simp [Symbol.detached, Symbol.addFlags, has_union, has_single, mapItem_flags, hne]
  · rw [get_of_size_le (hsize ▸ hid)]
    cases f <;> rfl

end Table

namespace Session

theorem restricted_reached (options : Options) (actions : List Action) : (reached options actions).table.Restricted :=
  (table_reached (P := fun t => t.Restricted ∧ t.Indexed) ⟨restricted_initial, regular_initial.indexed⟩
    (fun _ file events h hs => h.keeps_compile (P := fun t => t.Restricted ∧ t.Indexed)
      (fun hstep hready hd => ⟨hstep.restricted hready hd.2 hd.1, hready.indexed_step hd.2 hstep⟩) hs file events)
    (fun _ _ _ h hsound hkind ht => ⟨h.restricted_removeProgram hsound hkind ht.1, (h.removeProgram hsound hkind).indexed⟩)
    options actions).1

/-- In every table that a session reaches, an item whose reference is bound has the restriction that its type declares, and
every restriction of it is declared by a type that its reference leads to. Where the type refers to no other type, an item
that is no type itself has the restriction of its type and no other one. -/
theorem restrictions_of_type (options : Options) (actions : List Action) {id type : SymbolId} {f : SymbolFlag}
    (hf : f.isRestriction = true) (h : (reached options actions).table.Refers id type) :
    let t := (reached options actions).table
    ((t.get type).declares f = true → (t.get id).flags.has f = true) ∧
      ((t.get id).flags.has f = true → ∃ target, ReflTransGen t.Refers id target ∧ (t.get target).declares f = true) ∧
      ((t.get id).kind ≠ .typeDefinition → (∀ target, ¬ t.Refers type target) →
        (t.get id).flags.has f = (t.get type).declares f) := by
  intro t
  have hrestricted : t.Restricted := restricted_reached options actions
  refine ⟨hrestricted.bound id type f hf h, hrestricted.source id f hf, fun hkind hnone => ?_⟩
  refine Bool.eq_iff_iff.mpr ⟨fun hhas => ?_, hrestricted.bound id type f hf h⟩
  obtain ⟨target, hreach, hdeclares⟩ := hrestricted.source id f hf hhas
  rcases hreach.cases_head with rfl | ⟨next, href, hrest⟩
  · rcases kind_of_declares hdeclares with ⟨_, rfl⟩ | ⟨htype, _⟩
    · cases hf
    · exact absurd htype hkind
  · have heq : next = type := by
      obtain ⟨reference, hreference, htarget⟩ := href
      obtain ⟨reference', hreference', htarget'⟩ := h
      cases hreference.symm.trans hreference'
      exact Option.some.inj (htarget.symm.trans htarget')
    subst heq
    rcases hrest.cases_head with rfl | ⟨further, href', _⟩
    · exact hdeclares
    · exact absurd href' (hnone further)

end Session

/-- Two items of a weak type that refers to a strong one. -/
def typeOfType : List Event :=
  [.startProgram { name := "P", position := ⟨1, 8⟩ }, .startDataDivision ⟨2, 8⟩, .startStorage .workingStorage ⟨⟨3, 8⟩⟩,
    .dataEntry { (DataEntry.named 1 "U" ⟨4, 8⟩).withPicture "X" with typeClause := some { restriction := .strong } },
    .dataEntry { DataEntry.named 1 "T" ⟨5, 8⟩ with typeClause := some { restriction := .weak }, userType := some ⟨"U", ⟨5, 20⟩⟩ },
    .dataEntry { DataEntry.named 1 "A" ⟨6, 8⟩ with userType := some ⟨"T", ⟨6, 20⟩⟩ },
    .dataEntry { DataEntry.named 1 "B" ⟨7, 8⟩ with userType := some ⟨"T", ⟨7, 20⟩⟩ },
    .endStorage .workingStorage, .endDataDivision, .endProgram none]

theorem restrictions_of_type_typeOfType :
    let t := (Session.reached {} [.build ⟨false, 0, typeOfType⟩]).table
    t.Refers 14 12 ∧ ((t.get 12).declares .weakType = true → (t.get 14).flags.has .weakType = true) := by
  have h : (Session.reached {} [.build ⟨false, 0, typeOfType⟩]).table.Refers 14 12 :=
    ⟨⟨"T", ⟨7, 20⟩, some 12⟩, by decide +kernel, rfl⟩
  exact ⟨h, (Session.restrictions_of_type {} _ (f := .weakType) rfl h).1⟩

/-- The first item has the restriction of its type, the second one that of the other type too. -/
theorem restrictions_differ_typeOfType :
    let t := (Session.reached {} [.build ⟨false, 0, typeOfType⟩]).table
    (t.get 13).flags.has .strongType = false ∧ (t.get 14).flags.has .strongType = true ∧
      (t.get 12).declares .strongType = false := by
  decide +kernel

end CobolSymbols
