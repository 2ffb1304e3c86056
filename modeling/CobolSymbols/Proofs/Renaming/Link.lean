import CobolSymbols.Proofs.Link.Bodies
import CobolSymbols.Proofs.Link.Inside
import CobolSymbols.Proofs.Renaming.Layout

/-!
# Linking under other numbers

Linking binds the same references and reports the same problems under other numbers. The other table may be larger, which
allows the search through type bodies more steps. A path of open types meets no type twice, so neither search runs out of
steps, and both go the same way.
-/

set_option autoImplicit false

namespace CobolSymbols

open List Option Table DataType

variable {ρ : SymbolId → SymbolId}

theorem lookup_map_of_injective {α β : Type} (hρ : Function.Injective ρ) (g : α → β) (id : SymbolId)
    (entries : List (SymbolId × α)) :
    List.lookup (ρ id) (entries.map (Prod.map ρ g)) = (List.lookup id entries).map g := by
  induction entries with
  | nil => rfl
  | cons entry rest ih =>
    obtain ⟨key, value⟩ := entry
    have hkey : (ρ id == ρ key) = (id == key) := by
      apply Bool.eq_iff_iff.mpr
      simp [hρ.eq_iff]
    rw [map_cons, Prod.map_apply, lookup_cons, lookup_cons, hkey, ih]
    cases id == key <;> rfl

theorem ProgramData.references_rename (data : ProgramData) :
    (data.rename ρ).references = data.references.map (Prod.map ρ (List.map ρ)) := rfl

theorem listReference_map (hρ : Function.Injective ρ) (type item : SymbolId) (references : List (SymbolId × List SymbolId)) :
    listReference (ρ type) (ρ item) (references.map (Prod.map ρ (List.map ρ))) =
      (listReference type item references).map (Prod.map ρ (List.map ρ)) := by
  induction references with
  | nil => rfl
  | cons entry rest ih =>
    obtain ⟨key, items⟩ := entry
    simp only [map_cons, Prod.map_apply, listReference, hρ.eq_iff, Table.contains_map hρ, ih]
    by_cases hkey : key = type
    · rw [if_pos hkey, if_pos hkey]
      split <;> simp
    · rw [if_neg hkey, if_neg hkey]
      rfl

namespace Linker

/-- The state of linking is found in another one under other numbers. -/
structure Alike (ρ : SymbolId → SymbolId) (l l' : Linker) : Prop where
  context : l.context.Alike ρ l'.context
  resolved : l'.resolved = l.resolved.map (Prod.map ρ (Option.map ρ))
  cyclic : l'.cyclic = l.cyclic.map ρ

variable {l l' : Linker} {base : Nat} {item type scope : SymbolId}

namespace Alike

section

variable (h : l.Alike ρ l')
include h

theorem table : l.table.Alike ρ l'.table := h.context.table

theorem setContext {c c' : Context} (hc : c.Alike ρ c') :
    ({ l with context := c } : Linker).Alike ρ { l' with context := c' } :=
  { h with context := hc }

theorem resolve (hordered : l.table.Ordered) (item : SymbolId) :
    (l'.resolve (ρ item)).1 = (l.resolve item).1.map ρ ∧ (l.resolve item).2.Alike ρ (l'.resolve (ρ item)).2 := by
  unfold Linker.resolve
  simp only [(h.table.get item).reference?, h.table.enclosingScope hordered]
  cases (l.table.get item).reference? with
  | none => exact ⟨rfl, h⟩
  | some reference =>
    cases hscope : l.table.enclosingScope item with
    | none => exact ⟨rfl, h⟩
    | some scope =>
      have hlt : scope < l.table.size := lt_size_of_enclosingScope hscope
      simp only [map_some, TypeReference.rename, h.table.resolveType hordered hlt]
      cases l.table.resolveType scope reference.name with
      | nil => exact ⟨rfl, h.setContext (h.context.report _ _)⟩
      | cons type others =>
        cases others with
        | nil => exact ⟨rfl, h⟩
        | cons other others =>
          refine ⟨rfl, h.setContext ?_⟩
          simp only [map_cons, length_cons, length_map]
          exact h.context.report _ _

theorem resolveOnce (hordered : l.table.Ordered) (item : SymbolId) :
    Returns (Option.map ρ) (Alike ρ) (l.resolveOnce item) (l'.resolveOnce (ρ item)) := by
  obtain ⟨hfound, hlooked⟩ := h.resolve hordered item
  unfold Linker.resolveOnce
  rw [h.resolved, lookup_map_of_injective h.table.injective]
  cases List.lookup item l.resolved with
  | some found => exact ⟨rfl, h⟩
  | none =>
    refine ⟨hfound, hlooked.context, ?_, hlooked.cyclic⟩
    simp only [map_none, map_cons, Prod.map_apply, hfound, hlooked.resolved]

theorem bind (item type : SymbolId) : (l.bind item type).Alike ρ (l'.bind (ρ item) (ρ type)) := by
  refine h.setContext (h.context.modify ?_)
  have hitem := h.table.get item
  have hbound := hitem.mapType (bindReference_rename ρ type)
  rw [(h.table.get type).flags]
  exact { hbound with flags := congrArg (· ∪ _) hitem.flags }

theorem record (scope type item : SymbolId) :
    (l'.record (ρ scope) (ρ type) (ρ item)).1 = (l.record scope type item).1 ∧
      (l.record scope type item).2.Alike ρ (l'.record (ρ scope) (ρ type) (ρ item)).2 := by
  have hρ := h.table.injective
  unfold Linker.record
  rw [(h.table.get scope).program?]
  cases (l.table.get scope).program? with
  | none => exact ⟨rfl, h⟩
  | some data =>
    constructor
    · simp only [map_some, ProgramData.references_rename, lookup_map_of_injective hρ]
      cases List.lookup type data.references with
      | none => rfl
      | some items => cases items <;> rfl
    · refine h.setContext (h.context.modify ((h.table.get scope).mapProgram fun data => ?_))
      simp only [ProgramData.references_rename, listReference_map hρ]
      rfl

theorem reportCycle (path : List SymbolId) (item target : SymbolId) :
    (l.reportCycle path item target).Alike ρ (l'.reportCycle (path.map ρ) (ρ item) (ρ target)) := by
  have hne : ((fun open' => open' != ρ target) ∘ ρ) = fun open' => open' != target := by
    funext open'
    apply Bool.eq_iff_iff.mpr
    simp [h.table.injective.eq_iff]
  have hcycle : ((path.map ρ).dropWhile (· != ρ target) ++ [ρ target]).map l'.table.name =
      (path.dropWhile (· != target) ++ [target]).map l.table.name := by
    rw [dropWhile_map, hne, map_append, map_append, List.map_map]
    simp only [map_cons, map_nil, h.table.name]
    congr 2
    funext open'
    exact h.table.name open'
  have hposition : referencePosition l'.table (ρ item) = referencePosition l.table item := by
    unfold referencePosition
    simp only [(h.table.get item).reference?, (h.table.get item).position, Option.map_map]
    rfl
  refine ⟨?_, h.resolved, congrArg (ρ item :: ·) h.cyclic⟩
  unfold Linker.reportCycle
  simp only [hcycle, hposition]
  exact h.context.report _ _

end

/-- Along symbols of the unit the states stay alike, and the first one stays inside the unit. -/
theorem foldl_alike {P : SymbolId → Prop} {step step' : Linker → SymbolId → Linker} {start : Linker}
    {items : List SymbolId} (hitems : ∀ item ∈ items, P item)
    (hstep : ∀ l l' item, P item → l.Alike ρ l' → Proceeds base start l →
      (step l item).Alike ρ (step' l' (ρ item)) ∧ Proceeds base start (step l item))
    (h : l.Alike ρ l') (hproceeds : Proceeds base start l) :
    (items.foldl step l).Alike ρ (items.foldl (fun l item => step' l (ρ item)) l') ∧
      Proceeds base start (items.foldl step l) := by
  induction items generalizing l l' with
  | nil => exact ⟨h, hproceeds⟩
  | cons item rest ih =>
    obtain ⟨hnext, hgoes⟩ := hstep l l' item (hitems item mem_cons_self) h hproceeds
    exact ih (fun other hother => hitems other (mem_cons_of_mem _ hother)) hnext hgoes

section Bodies

variable {path : List SymbolId} {linkTarget linkTarget' : SymbolId → Linker → Linker}

theorem use (h : l.Alike ρ l') (hinside : l.Inside base) (hscope : base ≤ scope ∨ scope = rootId)
    (hitem : base ≤ item) (hleads : l.LeadsTo base item type)
    (htarget : ∀ l₁ l₁', l₁.Alike ρ l₁' → Proceeds base l l₁ →
      (linkTarget type l₁).Alike ρ (linkTarget' (ρ type) l₁')) :
    (l.use scope item type linkTarget).Alike ρ (l'.use (ρ scope) (ρ item) (ρ type) linkTarget') := by
  have hbound := hinside.bind hitem hleads
  have hlisted := hbound.trans (hbound.inside.record hscope type item)
  obtain ⟨hfirst, halike⟩ := (h.bind item type).record scope type item
  unfold Linker.use
  revert hlisted hfirst halike
  generalize (l.bind item type).record scope type item = recorded
  generalize (l'.bind (ρ item) (ρ type)).record (ρ scope) (ρ type) (ρ item) = recorded'
  obtain ⟨first, l₁⟩ := recorded
  obtain ⟨first', l₁'⟩ := recorded'
  intro hlisted hfirst halike
  subst hfirst
  cases first' with
  | true => exact htarget l₁ l₁' halike hlisted
  | false => exact halike

theorem linkListed (h : l.Alike ρ l') (hinside : l.Inside base) (hscope : base ≤ scope ∨ scope = rootId)
    (hitem : base ≤ item)
    (htarget : ∀ target l₁ l₁', target ∉ path → l₁.Alike ρ l₁' → Proceeds base l l₁ → l₁.table.Reachable base target →
      (linkTarget target l₁).Alike ρ (linkTarget' (ρ target) l₁')) :
    (l.linkListed scope path linkTarget item).Alike ρ
      (l'.linkListed (ρ scope) (path.map ρ) linkTarget' (ρ item)) := by
  obtain ⟨hproceeds, hfinds⟩ := hinside.resolveOnce hitem
  obtain ⟨hfound, hlooked⟩ := h.resolveOnce hinside.formed.ordered item
  unfold Linker.linkListed
  rw [h.cyclic, Table.contains_map h.table.injective]
  split
  · exact h
  · revert hproceeds hfinds hfound hlooked
    generalize l.resolveOnce item = looked
    generalize l'.resolveOnce (ρ item) = looked'
    obtain ⟨found, l₁⟩ := looked
    obtain ⟨found', l₁'⟩ := looked'
    intro hproceeds hfinds hfound hlooked
    subst hfound
    cases found with
    | none => exact hlooked
    | some target =>
      have hleads := hproceeds.changes.leads (hfinds target rfl)
      simp only [map_some, Table.contains_map h.table.injective]
      split
      · exact hlooked.reportCycle path item target
      · rename_i hopen
        have hnew : target ∉ path := fun hmem => hopen (contains_iff_mem.mpr hmem)
        refine hlooked.use hproceeds.inside hscope hitem hleads fun l₂ l₂' h₂ hp₂ => ?_
        exact htarget target l₂ l₂' hnew h₂ (hproceeds.trans hp₂) (hp₂.changes.reachable hleads.reachable)

/-- Both searches have steps enough, so they link the same bodies. -/
theorem linkBody (hscope : base ≤ scope ∨ scope = rootId) (steps steps' : Nat) (h : l.Alike ρ l')
    (hinside : l.Inside base) (htype : l.table.Reachable base type) (hnodup : (path ++ [type]).Nodup)
    (hpath : ∀ open' ∈ path ++ [type], open' < l.table.size) (hsteps : l.table.size < steps + path.length)
    (hsteps' : l.table.size < steps' + path.length) :
    (Linker.linkBody scope steps type path l).Alike ρ
      (Linker.linkBody (ρ scope) steps' (ρ type) (path.map ρ) l') := by
  induction steps generalizing steps' type path l l' with
  | zero =>
    have hlength := length_le_size hnodup hpath
    rw [length_append, length_singleton] at hlength
    omega
  | succ steps ih =>
    cases steps' with
    | zero =>
      have hlength := length_le_size hnodup hpath
      rw [length_append, length_singleton] at hlength
      omega
    | succ steps' =>
      have hlisted : ∀ item ∈ (l.table.get type).typedItems, base ≤ item := fun item hitem =>
        hinside.formed.listed_base htype hitem
      have hopen : path.map ρ ++ [ρ type] = (path ++ [type]).map ρ := by simp
      unfold Linker.linkBody
      rw [(h.table.get type).typedItems, foldl_map, hopen]
      refine (foldl_alike hlisted (fun l₁ l₁' item hitem h₁ hp₁ => ⟨?_, ?_⟩) h (.refl hinside)).1
      · refine h₁.linkListed hp₁.inside hscope hitem fun target l₂ l₂' hnew h₂ hp₂ htarget => ?_
        have hsize : l₂.table.size = l.table.size := (hp₁.trans hp₂).changes.size_eq
        -- The path is longer by the type that is now open, and there is one step less.
        refine ih steps' h₂ hp₂.inside htarget ?_ ?_ ?_ ?_
        · refine nodup_append.mpr ⟨hnodup, nodup_singleton target, ?_⟩
          intro open' hmem other hother heq
          rw [mem_singleton.mp hother] at heq
          exact hnew (heq ▸ hmem)
        · intro open' hmem
          rcases mem_append.mp hmem with hmem | hmem
          · rw [hsize]
            exact hpath open' hmem
          · rw [mem_singleton.mp hmem]
            exact htarget.1.lt_size
        · rw [hsize, length_append, length_singleton]
          omega
        · rw [hsize, length_append, length_singleton]
          omega
      · exact hp₁.trans (hp₁.inside.linkListed hscope hitem fun target l₂ h₂ htarget =>
          Inside.linkBody hscope steps h₂ htarget _)

end Bodies

theorem pendingObject? {t t' : Table} (h : t.Alike ρ t') (item : SymbolId) :
    Linker.pendingObject? t' (ρ item) = (Linker.pendingObject? t item).map (DependingOn.rename ρ) := by
  unfold Linker.pendingObject?
  rw [(h.get item).type]
  cases (t.get item).type with
  | none => rfl
  | some type =>
    simp only [map_some, bind_some, dependingOn?_rename]
    cases type.dependingOn? with
    | none => rfl
    | some object =>
      simp only [map_some, filter_some, DependingOn.rename, isNone_map]
      split <;> rfl

section

variable (h : l.Alike ρ l')
include h

theorem linkType (hinside : l.Inside base) (hscope : base ≤ scope ∨ scope = rootId)
    (htype : l.table.Reachable base type) : (l.linkType scope type).Alike ρ (l'.linkType (ρ scope) (ρ type)) := by
  have hsize := h.table.size_le
  refine linkBody hscope _ _ h hinside htype (nodup_singleton type) ?_ ?_ ?_
  · intro open' hmem
    rw [mem_singleton.mp hmem]
    exact htype.1.lt_size
  · exact Nat.lt_succ_self _
  · exact Nat.lt_succ_of_le hsize

theorem linkItem (hinside : l.Inside base) (hitem : base ≤ item) :
    (l.linkItem item).Alike ρ (l'.linkItem (ρ item)) := by
  have hproceeds := hinside.resolve item
  have hfinds : ∀ type, (l.resolve item).1 = some type → l.LeadsTo base item type := fun type htype =>
    leads_of_meant? hinside.formed hitem ((resolve_fst l item).symm.trans htype)
  obtain ⟨hfound, hlooked⟩ := h.resolve hinside.formed.ordered item
  unfold Linker.linkItem
  revert hproceeds hfinds hfound hlooked
  generalize l.resolve item = looked
  generalize l'.resolve (ρ item) = looked'
  obtain ⟨found, l₁⟩ := looked
  obtain ⟨found', l₁'⟩ := looked'
  intro hproceeds hfinds hfound hlooked
  subst hfound
  cases found with
  | none => exact hlooked
  | some type =>
    have hleads := hproceeds.changes.leads (hfinds type rfl)
    simp only [map_some, hlooked.table.enclosingScope hproceeds.inside.formed.ordered]
    cases hscope : l₁.table.enclosingScope item with
    | none => exact hlooked.bind item type
    | some scope =>
      have henclosing := hproceeds.inside.formed.enclosing_base hitem hscope
      refine hlooked.use hproceeds.inside henclosing hitem hleads fun l₂ l₂' h₂ hp₂ => ?_
      exact h₂.linkType hp₂.inside henclosing (hp₂.changes.reachable hleads.reachable)

theorem setDependingOn (item : SymbolId) (object : DependingOn) (found : Option SymbolId) :
    (l.setDependingOn item object found).Alike ρ
      (l'.setDependingOn (ρ item) (object.rename ρ) (found.map ρ)) := by
  cases found with
  | some target =>
    exact h.setContext (h.context.modify ((h.table.get item).mapType (bindDependingOn_rename ρ target)))
  | none =>
    refine h.setContext ?_
    simp only [h.context.options, h.table.name]
    exact h.context.reportAt _ _ _

theorem resolveDependingOn (hordered : l.table.Ordered) (item : SymbolId) :
    (l.resolveDependingOn item).Alike ρ (l'.resolveDependingOn (ρ item)) := by
  unfold Linker.resolveDependingOn
  rw [pendingObject? h.table]
  cases Linker.pendingObject? l.table item with
  | none => exact h
  | some object =>
    have hfound : ((l'.table.enclosingScope (ρ item)).bind fun scope =>
          (l'.table.resolveItem scope (object.rename ρ).name).head?) =
        ((l.table.enclosingScope item).bind fun scope => (l.table.resolveItem scope object.name).head?).map ρ := by
      rw [h.table.enclosingScope hordered]
      cases hscope : l.table.enclosingScope item with
      | none => rfl
      | some scope =>
        have hlt : scope < l.table.size := lt_size_of_enclosingScope hscope
        simp only [map_some, bind_some, DependingOn.rename, h.table.resolveItem hordered hlt,
          head?_map]
    simp only [map_some, hfound]
    exact h.setDependingOn item object _

end

section Subordinates

variable {t t' : Table}

/-- Further steps find no further items. -/
theorem subordinatesWithin_eq (hformed : t.Formed base) {steps steps' : Nat} {id : SymbolId}
    (hsteps : t.size ≤ id + steps) (hsteps' : t.size ≤ id + steps') :
    subordinatesWithin t steps id = subordinatesWithin t steps' id := by
  induction steps generalizing steps' id with
  | zero =>
    cases steps' with
    | zero => rfl
    | succ steps' =>
      unfold subordinatesWithin
      rw [fields_of_size_le id hsteps]
      rfl
  | succ steps ih =>
    cases steps' with
    | zero =>
      unfold subordinatesWithin
      rw [fields_of_size_le id hsteps']
      rfl
    | succ steps' =>
      apply flatMap_congr
      intro field hfield
      have hlt : Nat.succ id ≤ field := hformed.ordered field id (hformed.field_owner id field hfield)
      have hbelow := @ih steps' field (by omega) (by omega)
      rw [hbelow]

theorem subordinatesWithin (h : t.Alike ρ t') (steps : Nat) (id : SymbolId) :
    Linker.subordinatesWithin t' steps (ρ id) = (Linker.subordinatesWithin t steps id).map ρ := by
  induction steps generalizing id with
  | zero => rfl
  | succ steps ih =>
    unfold Linker.subordinatesWithin
    rw [h.fields, flatMap_map, map_flatMap]
    apply flatMap_congr
    intro field _
    rw [ih, map_cons]

theorem subordinates (h : t.Alike ρ t') (hformed : t.Formed base) (id : SymbolId) :
    Linker.subordinates t' (ρ id) = (Linker.subordinates t id).map ρ := by
  unfold Linker.subordinates
  rw [subordinatesWithin h, subordinatesWithin_eq hformed (Nat.le_add_left_of_le h.size_le) (Nat.le_add_left _ _)]

end Subordinates

theorem resolveTypeDependingOn (h : l.Alike ρ l') (hformed : l.table.Formed base) (type : SymbolId) :
    (l.resolveTypeDependingOn type).Alike ρ (l'.resolveTypeDependingOn (ρ type)) := by
  have hown := subordinates h.table hformed type
  have hlinked : ((Linker.subordinates l.table type).map ρ).filterMap
        (fun item => (l'.table.get item).reference?.bind (·.target)) =
      ((Linker.subordinates l.table type).filterMap fun item => (l.table.get item).reference?.bind (·.target)).map ρ := by
    rw [filterMap_map, map_filterMap]
    congr 1
    funext item
    simp only [Function.comp_apply, (h.table.get item).reference?]
    cases (l.table.get item).reference? <;> rfl
  unfold Linker.resolveTypeDependingOn
  simp only
  rw [hown, hlinked]
  generalize hlinks : (Linker.subordinates l.table type).filterMap
    (fun item => (l.table.get item).reference?.bind (·.target)) = linked
  have hcandidates : (Linker.subordinates l.table type).map ρ ++ (linked.map ρ).flatMap (Linker.subordinates l'.table) =
      (Linker.subordinates l.table type ++ linked.flatMap (Linker.subordinates l.table)).map ρ := by
    rw [flatMap_map, map_append, map_flatMap]
    congr 1
    apply flatMap_congr
    intro target _
    exact subordinates h.table hformed target
  rw [hcandidates, ← map_cons, foldl_map]
  generalize Linker.subordinates l.table type ++ linked.flatMap (Linker.subordinates l.table) = candidates
  generalize type :: Linker.subordinates l.table type = items
  clear hown hlinked hlinks hcandidates
  induction items generalizing l l' with
  | nil => exact h
  | cons item rest ih =>
    rw [foldl_cons, foldl_cons, pendingObject? h.table]
    refine ih ?_ ?_
    · cases Linker.pendingObject? l.table item with
      | none => exact h
      | some object =>
        have hnamed : ((fun candidate => l'.table.name candidate == (object.rename ρ).name) ∘ ρ) =
            fun candidate => l.table.name candidate == object.name := by
          funext candidate
          exact congrArg (· == object.name) (h.table.name candidate)
        simp only [map_some, find?_map, hnamed]
        exact h.setDependingOn item object _
    · cases Linker.pendingObject? l.table item with
      | none => exact hformed
      | some object => exact (setDependingOn_changes l item object _).formed hformed

theorem linkDependentType (h : l.Alike ρ l') (hinside : l.Inside base) (hbase : base ≤ type)
    (htype : l.table.IsType type) : (l.linkDependentType type).Alike ρ (l'.linkDependentType (ρ type)) := by
  unfold Linker.linkDependentType
  rw [h.table.enclosingScope hinside.formed.ordered]
  cases hscope : l.table.enclosingScope type with
  | none => exact h.resolveTypeDependingOn hinside.formed type
  | some scope =>
    have henclosing := hinside.formed.enclosing_base hbase hscope
    have hlinked := hinside.linkType henclosing ⟨htype, .inl hbase⟩
    exact (h.linkType hinside henclosing ⟨htype, .inl hbase⟩).resolveTypeDependingOn hlinked.inside.formed type

/-- Linking a unit gives the same under other numbers. -/
theorem linkUnit (h : l.Alike ρ l') (hinside : l.Inside base) {items types tables : List SymbolId}
    (hitems : ∀ item ∈ items, base ≤ item) (htypes : ∀ type ∈ types, base ≤ type ∧ l.table.IsType type)
    (htables : ∀ item ∈ tables, base ≤ item) :
    (l.linkUnit items types tables).Alike ρ (l'.linkUnit (items.map ρ) (types.map ρ) (tables.map ρ)) := by
  have hlinked : (items.foldl Linker.linkItem l).Alike ρ ((items.map ρ).foldl Linker.linkItem l') ∧
      Proceeds base l (items.foldl Linker.linkItem l) := by
    rw [foldl_map]
    refine foldl_alike hitems (fun l₁ l₁' item hitem h₁ hp₁ => ?_) h (.refl hinside)
    exact ⟨h₁.linkItem hp₁.inside hitem, hp₁.trans (hp₁.inside.linkItem hitem)⟩
  have hdep : (types.foldl Linker.linkDependentType (items.foldl Linker.linkItem l)).Alike ρ
        ((types.map ρ).foldl Linker.linkDependentType ((items.map ρ).foldl Linker.linkItem l')) ∧
      Proceeds base l (types.foldl Linker.linkDependentType (items.foldl Linker.linkItem l)) := by
    rw [foldl_map]
    refine foldl_alike htypes (fun l₁ l₁' type htype h₁ hp₁ => ?_) hlinked.1 hlinked.2
    have hkept : l₁.table.IsType type := by
      rw [hp₁.changes.arranges.isType]
      exact htype.2
    exact ⟨h₁.linkDependentType hp₁.inside htype.1 hkept,
      hp₁.trans (hp₁.inside.linkDependentType htype.1 hkept)⟩
  unfold Linker.linkUnit
  rw [foldl_map]
  refine (foldl_alike htables (fun l₁ l₁' item hitem h₁ hp₁ => ?_) hdep.1 hdep.2).1
  exact ⟨h₁.resolveDependingOn hp₁.inside.formed.ordered item, hp₁.trans (hp₁.inside.resolveDependingOn hitem)⟩

end Alike

end Linker

end CobolSymbols
