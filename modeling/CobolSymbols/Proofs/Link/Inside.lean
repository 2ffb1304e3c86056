import CobolSymbols.Proofs.Link.Changes
import CobolSymbols.Proofs.Link.Search

/-!
# Linking stays inside the unit

Linking arranges symbols as they were, so the types that it comes to are types of the unit or list no items, and what the
reference of an item means does not depend on what has been linked. What linking binds, and where it lists what it has
bound, belongs to the unit too: the symbols that were there before stay as they are.
-/

set_option autoImplicit false

namespace CobolSymbols

open Option Table

/-- What a symbol contributes to the meaning of references, and its name. -/
def Symbol.text (s : Symbol) : String × Option SymbolId × SymbolKind × Scope SymbolId × Option String × List SymbolId ×
    Bool :=
  (s.name, s.owner, s.kind, s.types, s.reference?.map (·.name), s.typedItems, s.flags.meets SymbolFlags.visibility)

/-- What a symbol tells of the types that it refers to and of its restrictions. -/
def Symbol.binding (s : Symbol) : Option TypeReference × SymbolFlags × Option ItemKind := (s.reference?, s.flags, s.core?)

namespace Table

variable {t t' : Table}

/-- The type that the reference of an item means, if it is the only one of its name seen from the scope of the item. -/
def meant? (t : Table) (item : SymbolId) : Option SymbolId :=
  (t.get item).reference?.bind fun reference => (t.enclosingScope item).bind fun scope =>
    match t.resolveType scope reference.name with
    | [type] => some type
    | _ => none

theorem isSome_reference? {item type : SymbolId} (h : t.meant? item = some type) :
    (t.get item).reference?.isSome = true := by
  cases href : (t.get item).reference? with
  | none => simp [meant?, href] at h
  | some => rfl

theorem typesIn_eq (t : Table) (name : String) (left : Bool) (id : SymbolId) :
    t.typesIn name left id = ((t.get id).types.lookup name).filter fun type =>
      !(left && (t.get id).kind.isProgramLike) || (t.get type).flags.meets SymbolFlags.visibility := by
  unfold typesIn Symbol.types Symbol.kind
  cases hbody : (t.get id).body with
  | item | paragraph | heading => rfl
  | root | namespaceBody => simpa [SymbolKind.isProgramLike] using (List.filter_eq_self.mpr fun _ _ => rfl).symm
  | program | procedure => simp [SymbolKind.isProgramLike]

/-- References mean the same in tables with the same text. -/
theorem meant?_congr (hsize : t'.size = t.size) (h : ∀ id, (t'.get id).text = (t.get id).text) : t'.meant? = t.meant? := by
  have howner : ∀ id, (t'.get id).owner = (t.get id).owner := fun id => congrArg (·.2.1) (h id)
  have hkind : ∀ id, (t'.get id).kind = (t.get id).kind := fun id => congrArg (·.2.2.1) (h id)
  have hvisible : ∀ id, (t'.get id).flags.meets SymbolFlags.visibility = (t.get id).flags.meets SymbolFlags.visibility :=
    fun id => congrArg (·.2.2.2.2.2.2) (h id)
  have hchain : ∀ steps id, t'.chainFrom steps id = t.chainFrom steps id := by
    intro steps
    induction steps with
    | zero => exact fun _ => rfl
    | succ steps ih => intro id; cases id <;> simp only [chainFrom, howner, ih]
  have htypes : ∀ name left id, t'.typesIn name left id = t.typesIn name left id := by
    intro name left id
    have htypes : (t'.get id).types = (t.get id).types := congrArg (·.2.2.2.1) (h id)
    rw [typesIn_eq, typesIn_eq, hkind, htypes]
    exact List.filter_congr fun type _ => by rw [hvisible]
  have hresolve : ∀ scope name, t'.resolveType scope name = t.resolveType scope name := by
    intro scope name
    unfold resolveType chain
    rw [hsize, hchain]
    generalize false = left
    induction t.chainFrom t.size (some scope) generalizing left with
    | nil => rfl
    | cons id outer ih => simp only [resolveTypeIn, htypes, hkind, ih]
  have hscope : ∀ id, t'.enclosingScope id = t.enclosingScope id := fun id => by
    simp only [enclosingScope, owners, hsize, hchain, howner, Symbol.isScope_eq, hkind]
  funext item
  have hname : (t'.get item).reference?.map (·.name) = (t.get item).reference?.map (·.name) := congrArg (·.2.2.2.2.1) (h item)
  unfold meant?
  rw [hscope]
  cases href : (t.get item).reference? with
  | none =>
    rw [map_eq_none_iff.mp (hname.trans (congrArg _ href))]
    rfl
  | some reference =>
    obtain ⟨reference', href', heq⟩ := map_eq_some_iff.mp (hname.trans (congrArg _ href))
    simp only [href', bind_some, heq, hresolve]

end Table

theorem Table.Formed.listed_base {t : Table} {base : Nat} {type item : SymbolId} (hformed : t.Formed base)
    (htype : t.Reachable base type) (hitem : item ∈ (t.get type).typedItems) : base ≤ item := by
  rcases htype.2 with hbase | hnone
  · exact hbase.trans ((hformed.listed_within type item hitem).le hformed.ordered)
  · rw [hnone] at hitem
    cases hitem

namespace Linker

variable {l l' l'' : Linker} {base : Nat} {item type scope : SymbolId}

/-- How a symbol is arranged among the others, whatever its reference is bound to. -/
def arrangement (s : Symbol) : Option SymbolId × SymbolKind × List SymbolId × List SymbolId × Scope SymbolId × Bool ×
    Option DataType :=
  (s.owner, s.kind, s.typedItems, s.fieldList, s.types, s.reference?.isSome, s.leading?)

theorem blind_arrangement : Blind arrangement where
  bind s type flags := by
    simp only [arrangement, bind_fieldList, bind_reference?, bind_leading?, isSome_map]
    rfl
  list s f := by
    simp [arrangement, Symbol.typedItems, Symbol.fieldList, Symbol.fields?, Symbol.reference?, Symbol.leading?]
  object s target := by
    simp only [arrangement, Symbol.fieldList, Symbol.fields?, Symbol.reference?, Symbol.leading?]
    cases s.type <;> simp <;> exact ⟨rfl, rfl, rfl⟩

theorem resolve_fst (l : Linker) (item : SymbolId) : (l.resolve item).1 = l.table.meant? item := by
  unfold resolve Table.meant?
  simp only
  split
  · rename_i reference scope href hscope
    rw [href, hscope, bind_some, bind_some]
    split <;> simp_all
  · rename_i hnone
    cases href : (l.table.get item).reference? with
    | none => rfl
    | some reference =>
      cases hscope : l.table.enclosingScope item with
      | none => rfl
      | some scope => exact absurd hscope (hnone reference scope href)

/-- Restrictions do not make a type visible. -/
theorem meets_visibility_restrict (flags other : SymbolFlags) :
    (flags ∪ (other ∩ SymbolFlags.restrictions)).meets SymbolFlags.visibility = flags.meets SymbolFlags.visibility := by
  unfold SymbolFlags.visibility
  rw [FlagSet.meets_ofList, FlagSet.meets_ofList]
  have hnot : SymbolFlags.restrictions.has .global = false ∧ SymbolFlags.restrictions.has .exported = false ∧
      SymbolFlags.restrictions.has .hidden = false := by decide
  simp [hnot]

theorem blind_text : Blind Symbol.text where
  bind s type flags := by
    simp only [Symbol.text, bind_reference?, map_map, meets_visibility_restrict]
    rfl
  list s f := by simp [Symbol.text, Symbol.typedItems, Symbol.reference?]
  object s target := by
    simp only [Symbol.text, Symbol.reference?]
    cases s.type <;> simp <;> exact ⟨rfl, rfl, rfl⟩

section

variable (h : Changes l l')
include h

/-- Linking arranges symbols as they were. -/
theorem Changes.arranges : l.table.Arranges l'.table := by
  have hview := h.keeps blind_arrangement
  constructor
  case owner => exact fun id => congrArg (·.1) (hview id)
  case kind => exact fun id => congrArg (·.2.1) (hview id)
  case typedItems => exact fun id => congrArg (·.2.2.1) (hview id)
  case fields =>
    intro group field hfield
    have heq : (l'.table.get group).fieldList = _ := congrArg (·.2.2.2.1) (hview group)
    rw [heq] at hfield
    exact .inl hfield
  case types =>
    intro scope name type htype
    have heq : (l'.table.get scope).types = _ := congrArg (·.2.2.2.2.1) (hview scope)
    rw [heq] at htype
    exact .inl htype
  case referring =>
    intro id href
    have heq : (l'.table.get id).reference?.isSome = _ := congrArg (·.2.2.2.2.2.1) (hview id)
    rw [heq] at href
    exact href
  case leading =>
    intro id type hleading
    have heq : (l'.table.get id).leading? = _ := congrArg (·.2.2.2.2.2.2) (hview id)
    rw [heq] at hleading
    exact .inl hleading

theorem Changes.formed (hformed : l.table.Formed base) : l'.table.Formed base :=
  hformed.arranges h.arranges

theorem Changes.reachable (htype : l.table.Reachable base type) : l'.table.Reachable base type := by
  unfold Reachable
  rw [h.arranges.isType, h.arranges.typedItems]
  exact htype

theorem Changes.meant? : l'.table.meant? = l.table.meant? :=
  meant?_congr h.size_eq (h.keeps blind_text)

end

/-- A reference means a type, which belongs to the unit or lists no items. -/
structure LeadsTo (l : Linker) (base : Nat) (item type : SymbolId) : Prop where
  reachable : l.table.Reachable base type
  meant : l.table.meant? item = some type

theorem Changes.leads (h : Changes l l') (hleads : l.LeadsTo base item type) : l'.LeadsTo base item type :=
  ⟨h.reachable hleads.reachable, h.meant? ▸ hleads.meant⟩

theorem leads_of_meant? (hformed : l.table.Formed base) (hitem : base ≤ item) (h : l.table.meant? item = some type) :
    l.LeadsTo base item type := ⟨resolve_reachable hformed hitem ((resolve_fst l item).trans h), h⟩

/-- What has been looked up is what the references mean. -/
structure Inside (l : Linker) (base : Nat) : Prop where
  formed : l.table.Formed base
  faithful : ∀ item result, List.lookup item l.resolved = some result → result = l.table.meant? item

/-- The changes of linking, where references of the unit are bound to what they mean. -/
inductive Act (base : Nat) : Linker → Linker → Prop
  | bind (l : Linker) (item type : SymbolId) (hitem : base ≤ item) (hleads : l.LeadsTo base item type) :
      Act base l (l.bind item type)
  | other {l l' : Linker} (h : Change l l') (hkept : ∀ id, (l'.table.get id).binding = (l.table.get id).binding) :
      Act base l l'

/-- Linking has gone on inside the unit. -/
structure Proceeds (base : Nat) (l l' : Linker) : Prop where
  acts : Relation.ReflTransGen (Act base) l l'
  inside : l'.Inside base
  spared : ∀ id, id < base → l'.table.get id = l.table.get id

theorem Act.change (h : Act base l l') : Change l l' := by
  cases h with
  | bind item type => exact .bind l item type
  | other h => exact h

theorem Proceeds.changes (h : Proceeds base l l') : Changes l l' := h.acts.lift id fun _ _ => Act.change

theorem Proceeds.refl (h : l.Inside base) : Proceeds base l l := ⟨.refl, h, fun _ _ => rfl⟩

theorem Proceeds.trans (h : Proceeds base l l') (h' : Proceeds base l' l'') : Proceeds base l l'' where
  acts := h.acts.trans h'.acts
  inside := h'.inside
  spared id hid := (h'.spared id hid).trans (h.spared id hid)

section

variable (h : l.Inside base)
include h

theorem Inside.changes (hchanges : Changes l l') (hresolved : l'.resolved = l.resolved) : l'.Inside base where
  formed := hchanges.formed h.formed
  faithful := by
    rw [hresolved, hchanges.meant?]
    exact h.faithful

/-- A change of one symbol of the unit. -/
theorem Inside.proceeds_modify (hact : Act base l l') (hresolved : l'.resolved = l.resolved) {id : SymbolId}
    {f : Symbol → Symbol} (htable : l'.table = l.table.modify id f) (hid : base ≤ id) : Proceeds base l l' := by
  refine ⟨.single hact, h.changes (.single hact.change) hresolved, fun other hother => ?_⟩
  rw [htable]
  exact get_modify_of_ne _ (hother.trans_le hid).ne

theorem Inside.proceeds_note (hchanges : Changes l l') (htable : l'.table = l.table)
    (hresolved : l'.resolved = l.resolved) : Proceeds base l l' :=
  ⟨.single (.other (.note l l' htable hchanges.options hchanges.repeats) fun id => by rw [htable]),
    h.changes hchanges hresolved, fun id _ => by rw [htable]⟩

theorem Inside.resolve (item : SymbolId) : Proceeds base l (l.resolve item).2 := by
  obtain ⟨htable, hresolved, _⟩ := resolve_state l item
  exact h.proceeds_note (resolve_changes l item) htable hresolved

/-- Looking up a reference of the unit finds what it means. -/
theorem Inside.resolveOnce (hitem : base ≤ item) :
    Proceeds base l (l.resolveOnce item).2 ∧ ∀ type, (l.resolveOnce item).1 = some type → l.LeadsTo base item type := by
  have hlooked := h.resolve item
  unfold Linker.resolveOnce
  split
  · rename_i found hfound
    exact ⟨.refl h, fun type htype => leads_of_meant? h.formed hitem ((h.faithful item found hfound).symm.trans htype)⟩
  · have hfound := resolve_fst l item
    have hnoted : Proceeds base (l.resolve item).2
        { (l.resolve item).2 with resolved := (item, (l.resolve item).1) :: (l.resolve item).2.resolved } := by
      refine ⟨.single (.other (.note _ _ rfl rfl rfl) fun _ => rfl), ⟨hlooked.inside.formed, fun other result hresult => ?_⟩,
        fun _ _ => rfl⟩
      simp only [List.lookup_cons] at hresult
      split at hresult
      · rename_i heq
        cases hresult
        rw [hfound, beq_iff_eq.mp heq]
        exact (congrFun hlooked.changes.meant? item).symm
      · exact hlooked.inside.faithful other result hresult
    exact ⟨hlooked.trans hnoted, fun type htype => leads_of_meant? h.formed hitem (hfound.symm.trans htype)⟩

theorem Inside.bind (hitem : base ≤ item) (hleads : l.LeadsTo base item type) : Proceeds base l (l.bind item type) :=
  h.proceeds_modify (.bind l item type hitem hleads) rfl (bind_table l item type) hitem

end

theorem binding_mapProgram (s : Symbol) (f : ProgramData → ProgramData) : (s.mapProgram f).binding = s.binding := by
  simp [Symbol.binding, Symbol.reference?, Symbol.core?]

theorem binding_object (s : Symbol) (target : SymbolId) :
    ({ s with type := s.type.map (DataType.bindDependingOn target) } : Symbol).binding = s.binding := by
  refine congrArg (fun reference => (reference, s.flags, s.core?)) ?_
  unfold Symbol.reference?
  cases s.type <;> simp

theorem Inside.record (h : l.Inside base) (hscope : base ≤ scope ∨ scope = rootId) (type item : SymbolId) :
    Proceeds base l (l.record scope type item).2 := by
  unfold Linker.record
  split
  · exact .refl h
  · rename_i data hdata
    rcases hscope with hscope | hroot
    · exact h.proceeds_modify (.other (.list l scope type item) (view_modify Symbol.binding (binding_mapProgram _ _)))
        rfl rfl hscope
    · have hkind := (h.formed.root scope).mpr hroot
      unfold Symbol.program? at hdata
      unfold Symbol.kind at hkind
      cases hbody : (l.table.get scope).body <;> simp [hbody] at hdata hkind

section Bodies

variable {linkTarget : SymbolId → Linker → Linker} {path : List SymbolId}

theorem Inside.use (h : l.Inside base) (hscope : base ≤ scope ∨ scope = rootId) (hitem : base ≤ item)
    (hleads : l.LeadsTo base item type)
    (htarget : ∀ l, l.Inside base → l.table.Reachable base type → Proceeds base l (linkTarget type l)) :
    Proceeds base l (l.use scope item type linkTarget) := by
  have hbound := h.bind hitem hleads
  have hlisted := hbound.trans (hbound.inside.record hscope type item)
  unfold Linker.use
  split
  · rename_i l₁ heq
    rw [heq] at hlisted
    exact hlisted.trans (htarget l₁ hlisted.inside (hlisted.changes.reachable hleads.reachable))
  · rename_i l₁ heq
    rw [heq] at hlisted
    exact hlisted

theorem Inside.linkListed (h : l.Inside base) (hscope : base ≤ scope ∨ scope = rootId) (hitem : base ≤ item)
    (htarget : ∀ type l, l.Inside base → l.table.Reachable base type → Proceeds base l (linkTarget type l)) :
    Proceeds base l (l.linkListed scope path linkTarget item) := by
  obtain ⟨hlooked, hfound⟩ := h.resolveOnce hitem
  unfold Linker.linkListed
  split
  · exact .refl h
  · split
    · rename_i l₁ heq
      rw [heq] at hlooked
      exact hlooked
    · rename_i target l₁ heq
      have hleads := hlooked.changes.leads (hfound target (by rw [heq]))
      rw [heq] at hlooked hleads
      split
      · exact hlooked.trans (hlooked.inside.proceeds_note (note_changes rfl rfl (l₁.context.repeats_push rfl _ _)) rfl rfl)
      · exact hlooked.trans (hlooked.inside.use hscope hitem hleads (htarget target))

theorem Inside.linkBody (hscope : base ≤ scope ∨ scope = rootId) (steps : Nat) (h : l.Inside base)
    (htype : l.table.Reachable base type) (path : List SymbolId) :
    Proceeds base l (Linker.linkBody scope steps type path l) := by
  induction steps generalizing l type path with
  | zero => exact .refl h
  | succ steps ih =>
    refine List.foldlRecOn (motive := Proceeds base l) _ _ (.refl h) fun l₁ hl₁ item hitem => hl₁.trans ?_
    exact hl₁.inside.linkListed hscope (h.formed.listed_base htype hitem) fun target l₂ h₂ htarget => ih h₂ htarget _

end Bodies

section

variable (h : l.Inside base)
include h

theorem Inside.linkType (hscope : base ≤ scope ∨ scope = rootId)
    (htype : l.table.Reachable base type) : Proceeds base l (l.linkType scope type) :=
  Inside.linkBody hscope _ h htype []

variable (hitem : base ≤ item)
include hitem

theorem Inside.linkItem : Proceeds base l (l.linkItem item) := by
  have hlooked := h.resolve item
  unfold Linker.linkItem
  split
  · rename_i l₁ heq
    rw [heq] at hlooked
    exact hlooked
  · rename_i type l₁ heq
    have hmeant : l.table.meant? item = some type := by rw [← resolve_fst, heq]
    have hleads := hlooked.changes.leads (leads_of_meant? h.formed hitem hmeant)
    rw [heq] at hlooked hleads
    split
    · exact hlooked.trans (hlooked.inside.bind hitem hleads)
    · rename_i scope hscope
      have henclosing := hlooked.inside.formed.enclosing_base hitem hscope
      exact hlooked.trans (hlooked.inside.use henclosing hitem hleads fun l₂ h₂ htype => h₂.linkType henclosing htype)

theorem Inside.setDependingOn (object : DependingOn)
    (found : Option SymbolId) : Proceeds base l (l.setDependingOn item object found) := by
  cases found with
  | some target =>
    exact h.proceeds_modify (.other (.object l item target) (view_modify Symbol.binding (binding_object _ target)))
      rfl rfl hitem
  | none =>
    exact h.proceeds_note (setDependingOn_changes l item object none) (l.context.told_reportAt _ rfl _).table rfl

theorem Inside.resolveDependingOn : Proceeds base l (l.resolveDependingOn item) := by
  unfold Linker.resolveDependingOn
  split
  · exact .refl h
  · exact h.setDependingOn hitem _ _

end

/-- What is subordinate to an item is made after it. -/
theorem lt_of_mem_subordinatesWithin {t : Table} (hformed : t.Formed base) {steps : Nat} {id other : SymbolId}
    (h : other ∈ subordinatesWithin t steps id) : id < other := by
  induction steps generalizing id with
  | zero => cases h
  | succ steps ih =>
    obtain ⟨field, hfield, hother⟩ := List.mem_flatMap.mp h
    have hlt : id < field := hformed.ordered field id (hformed.field_owner id field hfield)
    rcases List.mem_cons.mp hother with heq | hother
    · exact heq ▸ hlt
    · exact hlt.trans (ih hother)

theorem Inside.linkDependentType (h : l.Inside base) (hbase : base ≤ type) (htype : l.table.IsType type) :
    Proceeds base l (l.linkDependentType type) := by
  have hobjects : ∀ l : Linker, l.Inside base → Proceeds base l (l.resolveTypeDependingOn type) := by
    intro l h
    refine List.foldlRecOn (motive := Proceeds base l) _ _ (.refl h) fun l₁ hl₁ item hitem => hl₁.trans ?_
    have hitem : base ≤ item := by
      rcases List.mem_cons.mp hitem with heq | hsub
      · exact heq ▸ hbase
      · exact hbase.trans (lt_of_mem_subordinatesWithin h.formed hsub).le
    split
    · exact .refl hl₁.inside
    · exact hl₁.inside.setDependingOn hitem _ _
  unfold Linker.linkDependentType
  split
  · rename_i scope hscope
    have hlinked := h.linkType (h.formed.enclosing_base hbase hscope) ⟨htype, .inl hbase⟩
    exact hlinked.trans (hobjects _ hlinked.inside)
  · exact hobjects l h

theorem Inside.linkUnit (h : l.Inside base) {items types tables : List SymbolId} (hitems : ∀ item ∈ items, base ≤ item)
    (htypes : ∀ type ∈ types, base ≤ type ∧ l.table.IsType type) (htables : ∀ item ∈ tables, base ≤ item) :
    Proceeds base l (l.linkUnit items types tables) := by
  have hlinked := List.foldlRecOn (motive := Proceeds base l) _ _ (.refl h) fun l₁ hl₁ item hitem =>
      hl₁.trans (hl₁.inside.linkItem (hitems item hitem))
  have hdep : Proceeds base l (types.foldl Linker.linkDependentType (items.foldl Linker.linkItem l)) := by
    refine List.foldlRecOn (motive := Proceeds base l) _ _ hlinked fun l₁ hl₁ type htype => hl₁.trans ?_
    refine hl₁.inside.linkDependentType (htypes type htype).1 ?_
    rw [hl₁.changes.arranges.isType]
    exact (htypes type htype).2
  exact List.foldlRecOn (motive := Proceeds base l) _ _ hdep fun l₁ hl₁ table htable =>
    hl₁.trans (hl₁.inside.resolveDependingOn (htables table htable))

theorem inside_start {c : Context} (hformed : c.table.Formed base) : ({ context := c } : Linker).Inside base :=
  ⟨hformed, nofun⟩

end Linker

end CobolSymbols
