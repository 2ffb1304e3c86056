import CobolSymbols.Proofs.Build.Declaring

/-!
# What linking changes

Linking binds references and DEPENDING ON objects, lists the items that use a type, and reports problems. A view of
symbols that sees none of this is kept when a unit is linked.
-/

set_option autoImplicit false

namespace CobolSymbols

open Table

namespace Linker

variable {l l' : Linker} {linkTarget : SymbolId → Linker → Linker}

/-- The elementary changes of linking. -/
inductive Change : Linker → Linker → Prop
  /-- Something is reported or remembered, but no name of a program. -/
  | note (l l' : Linker) (htable : l'.table = l.table) (hoptions : l'.context.options = l.context.options)
      (hrepeats : l'.context.repeats = l.context.repeats) : Change l l'
  /-- The reference of an item is bound. -/
  | bind (l : Linker) (item type : SymbolId) : Change l (l.bind item type)
  /-- An item is listed under its type in a scope. -/
  | list (l : Linker) (scope type item : SymbolId) : Change l { l with
      context := l.context.modify scope (Symbol.mapProgram fun data =>
        { data with references := listReference type item data.references }) }
  /-- A DEPENDING ON object is bound. -/
  | object (l : Linker) (item target : SymbolId) : Change l { l with
      context := l.context.modify item fun s => { s with type := s.type.map (DataType.bindDependingOn target) } }

/-- Any number of elementary changes. -/
def Changes : Linker → Linker → Prop := Relation.ReflTransGen Change

theorem note_changes (htable : l'.table = l.table) (hoptions : l'.context.options = l.context.options)
    (hrepeats : l'.context.repeats = l.context.repeats) : Changes l l' := .single (.note l l' htable hoptions hrepeats)

section

variable (l)

theorem resolve_changes (item : SymbolId) : Changes l (l.resolve item).2 := by
  unfold resolve
  simp only
  split
  · split
    · exact .refl
    · exact note_changes rfl rfl (l.context.repeats_push rfl _ _)
    · exact note_changes rfl rfl (l.context.repeats_push rfl _ _)
  · exact .refl

theorem resolveOnce_changes (item : SymbolId) : Changes l (l.resolveOnce item).2 := by
  unfold resolveOnce
  split
  · exact .refl
  · exact (resolve_changes l item).trans (note_changes rfl rfl rfl)

theorem record_changes (scope type item : SymbolId) : Changes l (l.record scope type item).2 := by
  unfold record
  split
  · exact .refl
  · exact .single (.list l scope type item)

theorem use_changes (scope item type : SymbolId)
    (htarget : ∀ type l, Changes l (linkTarget type l)) : Changes l (l.use scope item type linkTarget) := by
  have hbound : Changes l (l.bind item type) := .single (.bind l item type)
  have hlisted := hbound.trans (record_changes (l.bind item type) scope type item)
  unfold use
  split
  · rename_i l' heq
    rw [heq] at hlisted
    exact hlisted.trans (htarget type l')
  · rename_i l' heq
    rw [heq] at hlisted
    exact hlisted

theorem linkListed_changes (scope : SymbolId) (path : List SymbolId) (htarget : ∀ type l, Changes l (linkTarget type l))
    (item : SymbolId) : Changes l (l.linkListed scope path linkTarget item) := by
  have hresolved := resolveOnce_changes l item
  unfold linkListed
  split
  · exact .refl
  · split
    · rename_i l' heq
      rw [heq] at hresolved
      exact hresolved
    · rename_i target l' heq
      rw [heq] at hresolved
      split
      · exact hresolved.trans (note_changes rfl rfl (l'.context.repeats_push rfl _ _))
      · exact hresolved.trans (use_changes l' scope item target htarget)

end

theorem linkBody_changes (scope : SymbolId) (steps : Nat) (type : SymbolId) (path : List SymbolId) (l : Linker) :
    Changes l (linkBody scope steps type path l) := by
  induction steps generalizing type path l with
  | zero => exact .refl
  | succ steps ih =>
    refine List.foldlRecOn (motive := Changes l) _ _ .refl fun l' hl' item _ => hl'.trans ?_
    exact linkListed_changes l' scope _ (fun target l => ih target _ l) item

section

variable (l)

theorem linkItem_changes (item : SymbolId) : Changes l (l.linkItem item) := by
  have hresolved := resolve_changes l item
  unfold linkItem
  split
  · rename_i l' heq
    rw [heq] at hresolved
    exact hresolved
  · rename_i type l' heq
    rw [heq] at hresolved
    split
    · exact hresolved.tail (.bind l' item type)
    · exact hresolved.trans (use_changes l' _ item type fun type l => linkBody_changes _ _ type [] l)

theorem setDependingOn_changes (item : SymbolId) (object : DependingOn) (found : Option SymbolId) :
    Changes l (l.setDependingOn item object found) := by
  cases found with
  | some target => exact .single (.object l item target)
  | none =>
    have htold : l.context.Told (l.context.reportAt _ (.unresolvedDependingOn (l.table.name item) object.name)
        object.position) := l.context.told_reportAt l.context.options.unresolvedDependingOn rfl _
    exact note_changes htold.table htold.options htold.repeats

theorem resolveDependingOn_changes (item : SymbolId) : Changes l (l.resolveDependingOn item) := by
  unfold resolveDependingOn
  split
  · exact .refl
  · exact setDependingOn_changes l item _ _

theorem linkDependentType_changes (type : SymbolId) : Changes l (l.linkDependentType type) := by
  have hobjects : ∀ l : Linker, Changes l (l.resolveTypeDependingOn type) := by
    intro l
    refine List.foldlRecOn (motive := Changes l) _ _ .refl fun l' hl' item _ => hl'.trans ?_
    split
    · exact .refl
    · exact setDependingOn_changes l' item _ _
  refine Relation.ReflTransGen.trans ?_ (hobjects _)
  split
  · exact linkBody_changes _ _ type [] l
  · exact .refl

theorem linkUnit_changes (items types tables : List SymbolId) : Changes l (l.linkUnit items types tables) := by
  have hitems : Changes l (items.foldl linkItem l) :=
    List.foldlRecOn (motive := Changes l) _ _ .refl fun l' hl' item _ => hl'.trans (linkItem_changes l' item)
  have htypes : Changes l (types.foldl linkDependentType (items.foldl linkItem l)) :=
    List.foldlRecOn (motive := Changes l) _ _ hitems fun l' hl' type _ => hl'.trans (linkDependentType_changes l' type)
  exact List.foldlRecOn (motive := Changes l) _ _ htypes fun l' hl' table _ =>
    hl'.trans (resolveDependingOn_changes l' table)

end

theorem Change.size_eq (h : Change l l') : l'.table.size = l.table.size := by
  cases h with
  | note _ htable => rw [htable]
  | bind item type | object item target => exact size_modify l.table item _
  | list scope type item => exact size_modify l.table scope _

theorem Changes.size_eq (h : Changes l l') : l'.table.size = l.table.size := by
  induction h with
  | refl => rfl
  | tail _ hlast ih => exact hlast.size_eq.trans ih

/-- A view of symbols that does not see what linking changes. -/
structure Blind {α : Type} (view : Symbol → α) : Prop where
  bind : ∀ (s : Symbol) (type : SymbolId) (flags : SymbolFlags),
    view { s with
      type := s.type.map (DataType.bindReference type)
      flags := s.flags ∪ (flags ∩ SymbolFlags.restrictions) } = view s
  list : ∀ (s : Symbol) (f : List (SymbolId × List SymbolId) → List (SymbolId × List SymbolId)),
    view (s.mapProgram fun data => { data with references := f data.references }) = view s
  object : ∀ (s : Symbol) (target : SymbolId),
    view { s with type := s.type.map (DataType.bindDependingOn target) } = view s

variable {α : Type} {view : Symbol → α}

theorem Change.keeps (hview : Blind view) (h : Change l l') (id : SymbolId) :
    view (l'.table.get id) = view (l.table.get id) := by
  cases h with
  | note _ htable => rw [htable]
  | bind item type => exact view_modify view (hview.bind _ _ _) id
  | list scope type item => exact view_modify view (hview.list _ _) id
  | object item target => exact view_modify view (hview.object _ _) id

theorem Changes.keeps (hview : Blind view) (h : Changes l l') (id : SymbolId) :
    view (l'.table.get id) = view (l.table.get id) := by
  induction h with
  | refl => rfl
  | tail _ hlast ih => exact (hlast.keeps hview id).trans ih

end Linker

/-- Linking makes no symbols. -/
theorem Declarations.size_link (d : Declarations) : d.link.table.size = d.table.size :=
  (Linker.linkUnit_changes { context := d.context } d.typedItems d.dependentTypes d.dependentTables).size_eq

/-- Linking leaves the options alone. -/
theorem Linker.Changes.options {l l' : Linker} (h : Changes l l') : l'.context.options = l.context.options := by
  induction h with
  | refl => rfl
  | tail _ hlast ih =>
    refine Eq.trans ?_ ih
    cases hlast with
    | note _ _ hoptions => exact hoptions
    | _ => rfl

/-- Linking reports no name of a program. -/
theorem Linker.Changes.repeats {l l' : Linker} (h : Changes l l') : l'.context.repeats = l.context.repeats := by
  induction h with
  | refl => rfl
  | tail _ hlast ih =>
    refine Eq.trans ?_ ih
    cases hlast with
    | note _ _ _ hrepeats => exact hrepeats
    | _ => rfl

theorem Declarations.view_link {α : Type} {view : Symbol → α} (hview : Linker.Blind view) (d : Declarations)
    (id : SymbolId) : view (d.link.table.get id) = view (d.table.get id) :=
  (Linker.linkUnit_changes { context := d.context } d.typedItems d.dependentTypes d.dependentTables).keeps hview id

end CobolSymbols
