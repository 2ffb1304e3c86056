import CobolSymbols.Proofs.Link.Bodies
import CobolSymbols.Proofs.Link.Circles
import CobolSymbols.Proofs.Table.Owners

/-!
# Linking a unit

Linking starts with nothing settled. Every item outside of types and every type that is linked settles the types it
reaches, so at the end following references from type to type still never comes back.
-/

set_option autoImplicit false

namespace CobolSymbols

open Table List Symbol

namespace Linker

variable {l l' : Linker} {base : Nat} {settled goal goal' : SymbolId → Prop} {item scope type : SymbolId}

theorem Search.open (h : l.Search base settled []) (htype : l.table.Reachable base type)
    {l' : Linker} (hfollows : Follows l l' []) (hedge : ∀ target, l'.table.Edge type target → l.table.Edge type target)
    (hsearch : l'.Search base settled ([] ++ [type])) : l'.Open base settled [] type where
  search := hsearch
  chain := isChain_singleton type
  nodup := nodup_singleton type
  types other hother := by
    rw [mem_singleton.mp hother]
    unfold Reachable
    rw [hfollows.arranges.isType, hfollows.arranges.typedItems]
    exact htype
  last target htarget := by
    by_cases hsettled : settled type
    · exact h.closed hsettled (hedge target htarget)
    · exact absurd (hedge target htarget) (h.no_edge htype hsettled not_mem_nil)

/-- The search has gone on with no type open and has settled the types of `goal`. -/
def Advances (base : Nat) (goal : SymbolId → Prop) (l l' : Linker) : Prop :=
  ∀ settled, l.Search base settled [] →
    ∃ settled', (∀ type, settled type ∨ goal type → settled' type) ∧ l'.Search base settled' [] ∧ Follows l l' []

theorem Advances.refl (base : Nat) (l : Linker) : Advances base (fun _ => False) l l :=
  fun settled h => ⟨settled, fun _ hother => hother.resolve_right id, h, Follows.refl l []⟩

theorem Advances.trans {l' l'' : Linker} (h : Advances base goal l l') (h' : Advances base goal' l' l'') :
    Advances base (fun type => goal type ∨ goal' type) l l'' := by
  intro settled hsearch
  obtain ⟨settled₁, hsub₁, hsearch₁, hfollows₁⟩ := h settled hsearch
  obtain ⟨settled₂, hsub₂, hsearch₂, hfollows₂⟩ := h' settled₁ hsearch₁
  refine ⟨settled₂, fun type htype => hsub₂ type ?_, hsearch₂, hfollows₁.trans hfollows₂⟩
  rcases htype with htype | htype | htype
  · exact .inl (hsub₁ type (.inl htype))
  · exact .inl (hsub₁ type (.inr htype))
  · exact .inr htype

theorem Advances.weaken (h : Advances base goal' l l') (hgoal : ∀ type, goal type → goal' type) :
    Advances base goal l l' := by
  intro settled hsearch
  obtain ⟨settled', hsub, hrest⟩ := h settled hsearch
  exact ⟨settled', fun type htype => hsub type (htype.imp_right (hgoal type)), hrest⟩

/-- One after the other, all goals are settled. -/
theorem advances_foldl {f : Linker → SymbolId → Linker} (goal : SymbolId → SymbolId → Prop) (ids : List SymbolId)
    (hf : ∀ l id, Changes l (f l id)) (h : ∀ id ∈ ids, ∀ l', Changes l l' → l'.table.Formed base →
      Advances base (goal id) l' (f l' id)) : Advances base (fun type => ∃ id ∈ ids, goal id type) l (ids.foldl f l) := by
  induction ids generalizing l with
  | nil => exact (Advances.refl base l).weaken (by simp)
  | cons id rest ih =>
    intro settled hsearch
    have hfirst := h id mem_cons_self l .refl hsearch.formed
    have hrest := ih fun other hother l' hchanges => h other (mem_cons_of_mem _ hother) l' ((hf l id).trans hchanges)
    exact ((hfirst.trans hrest).weaken fun type htype => by simpa using htype) settled hsearch

theorem linkType_advances (hscope : base ≤ scope ∨ scope = rootId)
    (htype : l.table.Reachable base type) : Advances base (· = type) l (l.linkType scope type) := by
  intro settled h
  have hopen : l.Open base settled [] type :=
    h.open htype (Follows.refl l []) (fun _ hedge => hedge) (h.weaken fun _ hother => by cases hother)
  obtain ⟨settled', hlinked⟩ := linkBody_spec hscope (l.table.size + 1) type [] l settled hopen
    (Nat.lt_succ_self l.table.size)
  exact ⟨settled', hlinked.sub_goal, hlinked.search, hlinked.follows⟩

theorem follows_bind_outside (hitem : ∀ lister, item ∉ (l.table.get lister).typedItems)
    (type : SymbolId) : Follows l (l.bind item type) [] := by
  refine ⟨arranges_bind l item type, ?_, ?_, fun _ _ hlookup => hlookup, fun _ hother => hother, nofun⟩
  · rw [bind_table, size_modify]
  · intro other found hrefers ⟨lister, hother⟩
    have hne : other ≠ item := fun heq => hitem lister (heq ▸ hother)
    exact (refers_bind_of_ne hne).mpr hrefers

/-- An item outside of types is used in its scope: its type is settled afterwards. -/
theorem use_advances (hscope : base ≤ scope ∨ scope = rootId)
    (hitem : ∀ lister, item ∉ (l.table.get lister).typedItems) (htype : l.table.Reachable base type) :
    Advances base (· = type) l (l.use scope item type fun type l => l.linkType scope type) := by
  intro settled h
  have hbound := h.bind_outside hitem htype.1
  have harranges := arranges_bind l item type
  have hbindFollows : Follows l (l.bind item type) [] := follows_bind_outside hitem type
  have hreach : (l.bind item type).table.Reachable base type := by
    unfold Reachable
    rw [harranges.isType, harranges.typedItems]
    exact htype
  have huntouched := untouched_record (l.bind item type) scope type item
  unfold Linker.use
  split
  · rename_i l₁ heq
    -- first use in the scope
    have hsearch := (hbound.weaken fun _ hother => by cases hother).record (.inr (mem_singleton_self type)) scope item
    rw [heq] at huntouched hsearch
    have hopen : l₁.Open base settled [] type := by
      refine hbound.open hreach (huntouched.follows []) (fun target hedge => ?_) hsearch
      rwa [huntouched.edge] at hedge
    obtain ⟨settled', hlinked⟩ := linkBody_spec hscope (l₁.table.size + 1) type [] l₁ settled hopen
      (Nat.lt_succ_self l₁.table.size)
    exact ⟨settled', hlinked.sub_goal, hlinked.search, (hbindFollows.trans (huntouched.follows [])).trans hlinked.follows⟩
  · rename_i l₁ heq
    -- used before in the scope, so the type is settled
    have hsettled : settled type := hbound.settled_of_record hscope (by rw [heq]) not_mem_nil
    have hsearch := hbound.record (.inl hsettled) scope item
    rw [heq] at huntouched hsearch
    exact ⟨settled, fun _ hother => hother.elim id (· ▸ hsettled), hsearch, hbindFollows.trans (huntouched.follows [])⟩

/-- A change that touches no links goes on with the search. -/
theorem advances_of_untouched {l' : Linker} (h : Untouched l l')
    (hreferences : ∀ id, (l'.table.get id).references = (l.table.get id).references) : Advances base (fun _ => False) l l' := by
  intro settled hsearch
  refine ⟨settled, fun _ hother => hother.resolve_right id, h.search hsearch fun scope type items hscope hitems => ?_, h.follows []⟩
  rw [hreferences] at hitems
  exact hsearch.used scope type items hscope hitems

theorem advances_of_table {l' : Linker} (htable : l'.table = l.table) (hresolved : l'.resolved = l.resolved)
    (hcyclic : l'.cyclic = l.cyclic) : Advances base (fun _ => False) l l' := by
  refine advances_of_untouched ⟨hresolved, hcyclic, ?_, ?_, ?_, ?_, ?_, ?_, ?_, ?_⟩ ?_ <;> simp [htable]

theorem setDependingOn_advances (l : Linker) (item : SymbolId) (object : DependingOn) (found : Option SymbolId) :
    Advances base (fun _ => False) l (l.setDependingOn item object found) := by
  cases found with
  | none =>
    exact advances_of_table (l.context.told_reportAt _ rfl _).table rfl rfl
  | some target =>
    have hfields : ∀ s : Symbol, ({ s with type := s.type.map (DataType.bindDependingOn target) } : Symbol).fieldList =
        s.fieldList := by
      intro s
      unfold fieldList Symbol.fields?
      cases s.type <;> simp
    have href : ∀ s : Symbol, ({ s with type := s.type.map (DataType.bindDependingOn target) } : Symbol).reference? =
        s.reference? := by
      intro s
      unfold Symbol.reference?
      cases s.type <;> simp
    have hleading : ∀ s : Symbol, ({ s with type := s.type.map (DataType.bindDependingOn target) } : Symbol).leading? =
        s.leading? := by
      intro s
      unfold Symbol.leading?
      cases s.type <;> simp
    refine advances_of_untouched ⟨rfl, rfl, size_modify _ _ _, ?_, ?_, ?_, ?_, ?_, ?_, ?_⟩ ?_
    · exact view_modify Symbol.owner rfl
    · exact view_modify Symbol.kind rfl
    · exact view_modify Symbol.typedItems rfl
    · exact view_modify fieldList (hfields _)
    · exact view_modify Symbol.types rfl
    · exact view_modify Symbol.reference? (href _)
    · exact view_modify Symbol.leading? (hleading _)
    · exact view_modify Symbol.references rfl

theorem resolveDependingOn_advances (l : Linker) (item : SymbolId) : Advances base (fun _ => False) l (l.resolveDependingOn item) := by
  unfold resolveDependingOn
  split
  · exact Advances.refl base l
  · exact setDependingOn_advances l item _ _

theorem resolveTypeDependingOn_advances (l : Linker) (type : SymbolId) :
    Advances base (fun _ => False) l (l.resolveTypeDependingOn type) := by
  refine List.foldlRecOn (motive := Advances base (fun _ => False) l) _ _ (Advances.refl base l) fun l' hl' item _ => ?_
  split
  · exact hl'
  · exact (hl'.trans (setDependingOn_advances l' item _ _)).weaken fun _ => .inl

section

variable (hformed : l.table.Formed base)
include hformed

theorem not_listed_of_home (hhome : l.table.Home item none)
    (lister : SymbolId) : item ∉ (l.table.get lister).typedItems := by
  intro hitem
  have htype : l.table.IsType lister := kind_of_typedItems (ne_nil_of_mem hitem)
  exact hhome lister htype (hformed.listed_within lister item hitem)

theorem linkItem_advances (hitem : base ≤ item)
    (hhome : l.table.Home item none) : Advances base (l.table.meant? item = some ·) l (l.linkItem item) := by
  obtain ⟨htable, hresolved, hcyclic⟩ := resolve_state l item
  have hlooked : Advances base _ l (l.resolve item).2 := advances_of_table htable hresolved hcyclic
  have hmeant := resolve_fst l item
  unfold linkItem
  split
  · rename_i l₁ heq
    rw [heq] at hlooked hmeant
    exact hlooked.weaken fun type htype => by cases hmeant.trans htype
  · rename_i type l₁ heq
    have htype : l.table.Reachable base type := resolve_reachable hformed hitem (by rw [heq])
    rw [heq] at hlooked htable hmeant
    have htable : l₁.table = l.table := htable
    have hnot : ∀ lister, item ∉ (l₁.table.get lister).typedItems := by
      rw [htable]
      exact not_listed_of_home hformed hhome
    split
    · -- an item without a scope means no type
      rename_i hscope
      rw [htable] at hscope
      simp [Table.meant?, hscope] at hmeant
    · rename_i scope hscope
      rw [htable] at hscope
      refine (hlooked.trans (use_advances (hformed.enclosing_base hitem hscope) hnot (htable ▸ htype))).weaken ?_
      exact fun other hother => .inr (Option.some.inj (hother.symm.trans hmeant.symm))

/-- A type that waits because of its tables is linked from the scope that it belongs to. -/
theorem linkDependentType_advances (hbase : base ≤ type) (htype : l.table.IsType type) :
    Advances base (fun other => other = type ∧ (l.table.get type).owner.isSome) l (l.linkDependentType type) := by
  have hrest : ∀ l : Linker, Advances base (fun _ => False) l (l.resolveTypeDependingOn type) :=
    fun l => resolveTypeDependingOn_advances l type
  unfold linkDependentType
  split
  · rename_i scope hscope
    refine ((linkType_advances (hformed.enclosing_base hbase hscope) ⟨htype, .inl hbase⟩).trans (hrest _)).weaken ?_
    exact fun _ hother => .inl hother.1
  · rename_i hnone
    refine (hrest l).weaken fun other hother => ?_
    obtain ⟨owner, howner⟩ := Option.isSome_iff_exists.mp hother.2
    rw [hformed.ordered.enclosingScope_eq howner, isScope_eq, hformed.type_owner type owner howner htype] at hnone
    cases hnone

end

theorem linkUnit_advances (l : Linker) {items types : List SymbolId}
    (hitems : ∀ item ∈ items, base ≤ item ∧ l.table.Home item none)
    (htypes : ∀ type ∈ types, base ≤ type ∧ l.table.IsType type) (tables : List SymbolId) :
    Advances base (fun type => (∃ item ∈ items, l.table.meant? item = some type) ∨
      type ∈ types ∧ (l.table.get type).owner.isSome) l (l.linkUnit items types tables) := by
  have hlinked : Advances base _ l (items.foldl linkItem l) :=
    advances_foldl (fun item type => l.table.meant? item = some type) items linkItem_changes
      fun item hitem l' hchanges hformed => by
        obtain ⟨hbase, hhome⟩ := hitems item hitem
        rw [← meant?_congr hchanges.size_eq (hchanges.keeps blind_text)]
        exact linkItem_advances hformed hbase (hchanges.arranges.home ▸ hhome)
  have hchanges : Changes l (items.foldl linkItem l) :=
    List.foldlRecOn (motive := Changes l) _ _ .refl fun l' hl' item _ => hl'.trans (linkItem_changes l' item)
  have hdep : Advances base _ (items.foldl linkItem l) (types.foldl linkDependentType (items.foldl linkItem l)) :=
    advances_foldl (fun type other => other = type ∧ (l.table.get type).owner.isSome) types
      linkDependentType_changes fun type htype l' hchanges' hformed => by
        obtain ⟨hbase, hkind⟩ := htypes type htype
        have harranges := Changes.arranges (hchanges.trans hchanges')
        rw [← harranges.owner]
        exact linkDependentType_advances hformed hbase (harranges.isType ▸ hkind)
  have htables : Advances base _ _ (l.linkUnit items types tables) :=
    advances_foldl (fun _ _ => False) tables resolveDependingOn_changes fun table _ l' _ _ =>
      resolveDependingOn_advances l' table
  refine ((hlinked.trans hdep).trans htables).weaken fun type htype => .inl (htype.imp_right fun htype => ?_)
  exact ⟨type, htype.1, rfl, htype.2⟩

/-- Before linking nothing is settled. -/
theorem search_start {c : Context} (hsound : c.table.Sound base) :
    ({ context := c } : Linker).Search base (fun _ => False) [] := by
  constructor
  case formed => exact hsound.toFormed
  case target_type => exact hsound.target_type
  case acyclic => exact hsound.acyclic
  case reachable => exact fun _ hfalse => hfalse.elim
  case done => exact fun _ _ hfalse => hfalse.elim
  case visited => exact fun _ item target _ hbase hrefers => absurd hrefers (hsound.unbound item target hbase)
  case cached => exact fun _ item target _ hbase hrefers => absurd hrefers (hsound.unbound item target hbase)
  case unbound => exact fun _ _ _ _ hcyclic => by cases hcyclic
  case used =>
    intro scope type items hscope hitems
    have hnone : (c.table.get scope).references = [] := hsound.unused scope hscope
    have hitems : (type, items) ∈ (c.table.get scope).references := hitems
    rw [hnone] at hitems
    cases hitems
  case found => exact fun _ _ hlookup => by cases hlookup

end Linker

namespace Declarations

/-- Linking a unit leaves a sound table in which nothing is under construction. -/
theorem link_sound {d : Declarations} {base : Nat} (hsound : d.table.Sound base)
    (hitems : ∀ item ∈ d.typedItems, base ≤ item ∧ d.table.Home item none)
    (htypes : ∀ type ∈ d.dependentTypes, base ≤ type ∧ d.table.IsType type) :
    d.link.table.Sound d.link.table.size ∧ d.table.Arranges d.link.table ∧ d.link.table.size = d.table.size := by
  have hadvances := Linker.linkUnit_advances { context := d.context } hitems htypes d.dependentTables
  obtain ⟨settled, _, hsearch, hfollows⟩ := hadvances _ (Linker.search_start hsound)
  have htable : d.link.table = (({ context := d.context } : Linker).linkUnit d.typedItems d.dependentTypes
    d.dependentTables).table := rfl
  rw [htable]
  exact ⟨hsearch.formed.finish hsearch.target_type hsearch.acyclic, hfollows.arranges, hfollows.size⟩

end Declarations

end CobolSymbols
