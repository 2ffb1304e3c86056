import CobolSymbols.Proofs.Build.Work
import CobolSymbols.Proofs.Name.Scope

/-!
# Scopes find what they list

A scope of a program, a procedure or the root finds under a name exactly the symbols of that name that it lists, in the
same order. This holds whatever is built, and deleting a symbol from a scope takes it out of both.
-/

set_option autoImplicit false

namespace CobolSymbols

open Symbol Table

/-- A scope lists symbols of the table that were made after its owner, and finds by name what it lists. -/
structure Scope.Indexed (t : Table) (owner : SymbolId) (scope : Scope SymbolId) : Prop where
  keyed : scope.domain.Keyed
  lookup : ∀ name, scope.lookup name = scope.order.filter fun id => t.name id = name
  after : ∀ id ∈ scope.order, owner < id
  lt : ∀ id ∈ scope.order, id < t.size

namespace Scope

variable {t t' : Table} {owner : SymbolId} {scope : Scope SymbolId} {id : SymbolId}

theorem indexed_empty (t : Table) (owner : SymbolId) : ({} : Scope SymbolId).Indexed t owner :=
  ⟨Domain.keyed_empty, fun _ => rfl, nofun, nofun⟩

variable (h : scope.Indexed t owner)
include h

theorem Indexed.listed : scope.Listed t.name := ⟨h.keyed, h.lookup⟩

/-- What is found by name in a scope is listed there. -/
theorem Indexed.mem_order {name : String} (hid : id ∈ scope.lookup name) : id ∈ scope.order :=
  (h.listed.mem_lookup.mp hid).1

theorem Indexed.extends (hext : t.Extends t') : scope.Indexed t' owner where
  keyed := h.keyed
  lookup name := by
    rw [h.lookup]
    apply List.filter_congr
    intro id hid
    rw [Table.name, Table.name, hext.name (h.lt id hid)]
  after := h.after
  lt id hid := (h.lt id hid).trans_le hext.size_le

theorem Indexed.enter (howner : owner < id) (hid : id < t.size) : (scope.enter (t.name id) id).Indexed t owner where
  keyed := (h.listed.enter id).keyed
  lookup := (h.listed.enter id).lookup
  after other hother := by
    rcases List.mem_append.mp hother with hother | hother
    · exact h.after other hother
    · rw [List.mem_singleton.mp hother]
      exact howner
  lt other hother := by
    rcases List.mem_append.mp hother with hother | hother
    · exact h.lt other hother
    · rw [List.mem_singleton.mp hother]
      exact hid

/-- A scope that finds what it lists loses the symbol and nothing else. -/
theorem Indexed.order_without (hnodup : scope.order.Nodup) (id : SymbolId) :
    (scope.without (t.name id) id).order = scope.order.filter (· ≠ id) := by
  rw [h.listed.order_without, ← getD_eraseLast?, eraseLast?_getD hnodup]

theorem Indexed.without (hnodup : scope.order.Nodup) (id : SymbolId) :
    (scope.without (t.name id) id).Indexed t owner where
  keyed := (h.listed.without id).keyed
  lookup := (h.listed.without id).lookup
  after other hother := by
    rw [h.order_without hnodup] at hother
    exact h.after other (List.mem_filter.mp hother).1
  lt other hother := by
    rw [h.order_without hnodup] at hother
    exact h.lt other (List.mem_filter.mp hother).1

end Scope

namespace Table

/-- All scopes find what they list, and no two entries of the tables of types and programs have the same name. -/
structure Indexed (t : Table) : Prop where
  scopes : ∀ id slot scope, (t.get id).scope? slot = some scope → scope.Indexed t id
  types : t.types.Keyed
  programs : t.programs.Keyed

variable {t t' : Table}

/-- What is found in a slot after a scope has been changed. -/
theorem scope?_modifyScope (t : Table) (owner id : SymbolId) (slot other : ScopeSlot)
    (f : Scope SymbolId → Scope SymbolId) {scope : Scope SymbolId}
    (h : ((t.modifyScope (.slot owner slot) f).get id).scope? other = some scope) :
    (t.get id).scope? other = some scope ∨
      id = owner ∧ ∃ old, (t.get id).scope? other = some old ∧ scope = f old := by
  unfold modifyScope at h
  simp only at h
  split at h
  · rw [get_modify] at h
    split at h
    · rename_i hid
      rw [scope?_mapScopes] at h
      obtain ⟨old, hold, heq⟩ := Option.map_eq_some_iff.mp h
      rw [hold]
      split at heq
      · exact .inr ⟨hid.1, old, rfl, heq.symm⟩
      · exact .inl (congrArg some heq)
    · exact .inl h
  · exact .inl h

variable (h : t.Indexed)
include h

/-- A change that leaves the scopes of all symbols as they are. -/
theorem Indexed.congr (hext : t.Extends t') (hscopes : ∀ id, (t'.get id).scope? = (t.get id).scope?)
    (htypes : t'.types = t.types) (hprogs : t'.programs = t.programs) : t'.Indexed where
  scopes id slot scope hscope := by
    rw [hscopes] at hscope
    exact (h.scopes id slot scope hscope).extends hext
  types := htypes ▸ h.types
  programs := hprogs ▸ h.programs

theorem Indexed.modify {id : SymbolId} {f : Symbol → Symbol}
    (hidentity : (f (t.get id)).identity = (t.get id).identity) (hscope : (f (t.get id)).scope? = (t.get id).scope?) :
    (t.modify id f).Indexed := h.congr (Extends.modify t id hidentity) (view_modify Symbol.scope? hscope) rfl rfl

theorem Indexed.alloc {s : Symbol} (hs : ∀ slot scope, s.scope? slot = some scope → scope = {}) :
    (t.alloc s).2.Indexed where
  scopes id slot scope hscope := by
    rw [get_alloc] at hscope
    split at hscope
    · rw [hs slot scope hscope]
      exact Scope.indexed_empty _ id
    · exact (h.scopes id slot scope hscope).extends (Extends.alloc t s)
  types := h.types
  programs := h.programs

theorem Indexed.enter {ref : ScopeRef} {id : SymbolId} (howner : ref.owner < id) (hid : id < t.size) :
    (t.enter ref id).Indexed := by
  have hext := Extends.enter t ref id
  cases ref with
  | fields owner =>
    rw [enter_fields] at hext ⊢
    exact h.congr hext (view_modify Symbol.scope? rfl) rfl rfl
  | slot owner slot =>
    refine ⟨?_, ?_, ?_⟩
    · intro other otherSlot scope hscope
      rcases scope?_modifyScope t owner other slot otherSlot _ hscope with hold | ⟨hother, old, hold, heq⟩
      · exact (h.scopes other otherSlot scope hold).extends hext
      · rw [heq]
        exact ((h.scopes other otherSlot old hold).enter (hother ▸ howner) hid).extends hext
    · rw [enter_slot]
      split <;> exact h.types
    · rw [enter_slot]
      split <;> exact h.programs

end Table

namespace Declarations

variable {base old : Nat} {parent : Option ScopeRef} {d d' : Declarations}

theorem indexed_queueTyped (h : d.table.Indexed) (id : SymbolId) (typeBody : Option SymbolId) :
    (d.queueTyped id typeBody).table.Indexed := by
  have hext := extends_queueTyped d id typeBody
  cases typeBody with
  | none => exact h
  | some type => exact h.congr hext (view_modify Symbol.scope? (scope?_mapItem _ _)) rfl rfl

theorem Move.indexed (hmove : Move base old parent d d') (h : d.table.Indexed) : d'.table.Indexed := by
  have hext := hmove.extends
  cases hmove with
  | context c htable =>
    have htable' : ({ d with context := c } : Declarations).table = d.table := htable
    rw [htable']
    exact h
  | note => exact h
  | heading => exact h
  | listProgram => exact h
  | alloc s owner hfresh => exact h.alloc fun slot scope hscope => hfresh.scope?_eq hscope
  | setType id => exact h.modify rfl rfl
  | setLeading id => exact h.modify rfl rfl
  | refer id name position typeBody =>
    have hset : (d.setType id (.named ⟨name, position, none⟩)).table.Indexed := h.modify rfl rfl
    exact indexed_queueTyped hset id typeBody
  | wrap id => exact h.modify rfl rfl
  | depend id =>
    rw [queueDependent_table]
    exact h.modify rfl rfl
  | enter ref id href hold henters => exact h.enter henters.owner_lt henters.lt
  | registerType id =>
    exact ⟨fun x slot scope hscope => (h.scopes x slot scope hscope).extends hext, h.types.enter _ id, h.programs⟩
  | registerProgram id =>
    exact ⟨fun x slot scope hscope => (h.scopes x slot scope hscope).extends hext, h.types, h.programs.enter _ id⟩
  | addToDomain id =>
    unfold Declarations.addToDomain
    split
    · exact h.modify (identity_mapProgram _ _) (scope?_mapProgram _ fun _ => rfl)
    · exact h
  | addVariable id =>
    refine h.congr hext (fun x => ?_) rfl rfl
    exact (congrArg Symbol.scope? (addVariable_get d.table id x)).trans
      (view_modify Symbol.scope? (scope?_mapItem _ _) x)
  | addFlags id flags => exact h.modify rfl rfl
  | setSignature id => exact h.modify rfl rfl
  | setRange id range => exact h.congr hext (view_modify Symbol.scope? (scope?_mapItem _ _)) rfl rfl
  | addDuplicate program id =>
    exact h.modify (identity_mapProgram _ _) (scope?_mapProgram _ fun _ => rfl)

end Declarations

namespace Linker

theorem Changes.registries {l l' : Linker} (h : Changes l l') :
    l'.table.types = l.table.types ∧ l'.table.programs = l.table.programs ∧ l'.table.slots = l.table.slots := by
  induction h with
  | refl => exact ⟨rfl, rfl, rfl⟩
  | tail _ hlast ih =>
    cases hlast with
    | note _ htable =>
      rw [htable]
      exact ih
    | bind item type => exact ih
    | list scope type item => exact ih
    | object item target => exact ih

theorem blind_scope? : Blind Symbol.scope? where
  bind _ _ _ := rfl
  list s _ := scope?_mapProgram s fun _ => rfl
  object _ _ := rfl

theorem blind_identity : Blind Symbol.identity where
  bind _ _ _ := rfl
  list s _ := identity_mapProgram s _
  object _ _ := rfl

end Linker

namespace Declarations

variable {base : Nat} {d d' : Declarations}

theorem extends_link (d : Declarations) : d.table.Extends d.link.table :=
  Extends.of_get d.size_link (d.view_link Linker.blind_identity)

theorem registries_link (d : Declarations) :
    d.link.table.types = d.table.types ∧ d.link.table.programs = d.table.programs ∧ d.link.table.slots = d.table.slots :=
  (Linker.linkUnit_changes { context := d.context } d.typedItems d.dependentTypes d.dependentTables).registries

theorem indexed_link (h : d.table.Indexed) : d.link.table.Indexed :=
  h.congr d.extends_link (d.view_link Linker.blind_scope?) d.registries_link.1 d.registries_link.2.1

theorem Ready.indexed_step (hready : d.Ready base) (h : d.table.Indexed) (hstep : Step d d') : d'.table.Indexed :=
  hstep.keeps (P := Indexed) (fun hmove => hmove.indexed) (fun _ => indexed_link) hready h

end Declarations

end CobolSymbols
