import CobolSymbols.Proofs.Build.Ready
import CobolSymbols.Proofs.Table.Size
import CobolSymbols.Session

/-!
# Sessions keep their table sound

A session is asked to build units, for the first time or again. It starts with a sound table, detaching programs changes
no connection between symbols, and building a unit leaves a sound table whatever is read. So type definitions never
refer to each other around a cycle, and the size of every symbol can be followed to its end.
-/

set_option autoImplicit false

namespace CobolSymbols

open Relation (TransGen ReflTransGen)

/-- What a session is asked to do: build the unit read from a file, for the first time or again. -/
structure Request where
  /-- Whether the programs that the file gave before are detached first. -/
  again : Bool
  file : FileId
  events : List Event

namespace Session

/-- Build the unit that is asked for. -/
def serve (s : Session) (request : Request) : CompiledUnit × Session :=
  if request.again then s.recompile request.file request.events else s.compile request.file request.events

/-- The session after it has been asked to build units one after the other. -/
def after (options : Options) (requests : List Request) : Session :=
  requests.foldl (fun s request => (s.serve request).2) (start options)

end Session

namespace Table

variable {t : Table} {base : Nat}

theorem size_initial : initial.size = 10 := by decide

/-- What holds of the ten symbols that a table starts with and of the default symbol holds of every number. -/
theorem forall_initial {P : SymbolId → Symbol → Prop} (hbuiltin : ∀ id < 10, P id (initial.get id))
    (hdefault : ∀ id, 10 ≤ id → P id default) (id : SymbolId) : P id (initial.get id) := by
  by_cases hid : id < 10
  · exact hbuiltin id hid
  · have hsize : initial.size ≤ id := by
      rw [size_initial]
      exact not_lt.mp hid
    rw [get_of_size_le hsize]
    exact hdefault id (not_lt.mp hid)

theorem owner_initial {id owner : SymbolId} (h : initial.OwnedBy id owner) : owner = rootId ∧ 0 < id ∧ id < 10 := by
  have hlt : id < 10 := by
    rw [← size_initial]
    exact h.lt_size
  have howner : ∀ id < 10, (initial.get id).owner = if id = 0 then none else some rootId := by decide
  unfold OwnedBy at h
  rw [howner id hlt] at h
  split at h
  · cases h
  · rename_i hid
    exact ⟨(Option.some.inj h).symm, Nat.pos_of_ne_zero hid, hlt⟩

/-- At first nothing is typed and there are no groups. -/
theorem bare_initial : ∀ id, (initial.get id).typedItems = [] ∧ (initial.get id).reference? = none ∧
    (initial.get id).leading?.isSome = false ∧ (initial.get id).fieldList = [] :=
  forall_initial (P := fun _ s => s.typedItems = [] ∧ s.reference? = none ∧ s.leading?.isSome = false ∧ s.fieldList = [])
    (by decide) fun _ _ => ⟨rfl, rfl, rfl, rfl⟩

/-- Only the root declares types: the built-in ones. -/
theorem types_initial {id type : SymbolId} {name : String} (h : type ∈ (initial.get id).types.lookup name) :
    id = rootId ∧ 2 ≤ type ∧ type < 10 := by
  have hentries := forall_initial (P := fun id s => ∀ entry ∈ s.types.domain.entries, ∀ type ∈ entry.2,
      id = rootId ∧ 2 ≤ type ∧ type < 10) (by decide) fun _ _ _ hentry => by cases hentry
  unfold Scope.lookup Domain.lookup at h
  cases hlookup : List.lookup name (initial.get id).types.domain.entries with
  | none => simp [hlookup] at h
  | some bucket =>
    obtain ⟨before, after, heq, _⟩ := List.lookup_eq_some_iff.mp hlookup
    refine hentries id (name, bucket) ?_ type (by simpa [hlookup] using h)
    rw [heq]
    exact List.mem_append_right before List.mem_cons_self

/-- The table of a session in which nothing has been built is sound. -/
theorem sound_initial : initial.Sound initial.size := by
  have hroot : (initial.get rootId).kind.isScope = true := by decide
  have hformed : initial.Formed 10 := by
    constructor
    case root =>
      refine forall_initial (P := fun id s => s.kind = .root ∨ s.kind = .namespaceKind ↔ id = rootId) (by decide) ?_
      intro id hid
      refine iff_of_false ?_ ?_
      · decide
      · intro h
        rw [h] at hid
        exact absurd hid (by decide)
    case root_lt_base => decide
    case ordered =>
      intro id owner hown
      obtain ⟨rfl, hpos, _⟩ := owner_initial hown
      exact hpos
    case scope_owner =>
      intro id owner hown _
      rw [(owner_initial hown).1]
      exact hroot
    case type_owner =>
      intro id owner hown _
      rw [(owner_initial hown).1]
      exact hroot
    case field_owner =>
      intro group field hfield
      rw [(bare_initial group).2.2.2] at hfield
      cases hfield
    case declared =>
      intro scope name type htype
      obtain ⟨rfl, hle, hlt⟩ := types_initial htype
      have hdeclared : ∀ id < 10, 2 ≤ id → (initial.get id).kind = .typeDefinition ∧
          (initial.get id).owner = some rootId := by decide
      exact hdeclared type hlt hle
    case listed_within =>
      intro type item hitem
      rw [(bare_initial _).1] at hitem
      cases hitem
    case listed =>
      intro type item _ _ href
      rw [(bare_initial item).2.1] at href
      cases href
    case lister_owner =>
      intro type owner _ hitems
      exact absurd (bare_initial type).1 hitems
    case leading =>
      intro id type hleading
      have hnone := (bare_initial id).2.2.1
      rw [hleading] at hnone
      cases hnone
    case region =>
      intro id owner hid hown
      exact absurd (owner_initial hown).2.2 hid.not_gt
  refine hformed.finish ?_ ?_
  · intro item type hrefers
    have hsome := hrefers.isSome
    rw [(bare_initial item).2.1] at hsome
    cases hsome
  · intro type hcycle
    obtain ⟨target, ⟨item, hitem, _⟩, _⟩ := TransGen.head'_iff.mp hcycle
    rw [(bare_initial _).1] at hitem
    cases hitem

/-- Taking a slot away changes no connection. -/
theorem keeps_removeVariable (t : Table) (id : SymbolId) : t.Keeps (t.removeVariable id) := by
  unfold removeVariable
  split
  · exact Keeps.refl t
  · have hlinks : ((t.get id).mapItem fun data => { data with variableSlot := none }).links = (t.get id).links :=
      Symbol.links_mapItem (fun _ => rfl) fun _ _ _ => Iff.rfl
    exact Keeps.of_links fun j => view_modify Symbol.links hlinks j

/-- Detaching a symbol changes no connection. -/
theorem Sound.detach (hsound : t.Sound base) (id : SymbolId) : (t.detach id).Sound base := by
  refine Sound.keeps ?_ (keeps_modify_links rfl)
  refine Sound.keeps ?_ (keeps_removeVariable _ id)
  split
  · exact hsound.keeps (Keeps.of_links fun _ => rfl)
  · exact hsound.keeps (Keeps.of_links fun _ => rfl)
  · exact hsound.keeps (Keeps.of_links fun _ => rfl)
  · exact hsound.keeps (Keeps.of_links fun _ => rfl)
  · exact hsound

/-- Removing a program changes no connection but the programs that its owner holds. -/
theorem Sound.removeProgram (hsound : t.Sound base) (id : SymbolId) : (t.removeProgram id).2.Sound base := by
  unfold Table.removeProgram
  split
  · exact hsound
  · refine List.foldlRecOn (motive := fun t : Table => t.Sound base) _ _ ?_ fun _ h id _ => h.detach id
    split
    · unfold modifyScope
      simp only
      split
      · exact hsound.keeps (keeps_modify_links (Symbol.links_mapScopes (by simp) _))
      · exact hsound
    · exact hsound

end Table

namespace Session

/-- Building a unit leaves a sound table. -/
theorem sound_compile {s : Session} (h : s.table.Sound s.table.size) (file : FileId) (events : List Event) :
    (s.compile file events).2.table.Sound (s.compile file events).2.table.size := by
  have hready : ∃ base, ({ context := { s.context with file } } : Declarations).Ready base :=
    ⟨_, Declarations.ready_closed (d := { context := { s.context with file } }) h rfl rfl rfl rfl rfl rfl⟩
  exact (Build.unit_steps { s.context with file } events).sound hready

theorem sound_detach {s : Session} (h : s.table.Sound s.table.size) (file : FileId) :
    (s.detach file).table.Sound (s.detach file).table.size := by
  have hremoved : (s.detach file).table.Sound s.table.size :=
    List.foldlRecOn (motive := fun t : Table => t.Sound s.table.size) _ _ h fun _ ht program _ => ht.removeProgram program
  exact hremoved.restart

/-- Whatever a session is asked to build, its table is sound. -/
theorem sound_after (options : Options) (requests : List Request) :
    (after options requests).table.Sound (after options requests).table.size := by
  refine List.foldlRecOn (motive := fun s : Session => s.table.Sound s.table.size) _ _ Table.sound_initial ?_
  intro s h request _
  unfold serve
  split
  · exact sound_compile (sound_detach h request.file) request.file request.events
  · exact sound_compile h request.file request.events

end Session

/-- The items of a type definition: the definition itself and the fields in it at any depth. -/
inductive Table.InBody (t : Table) (type : SymbolId) : SymbolId → Prop
  | self : InBody t type type
  | field {group field : SymbolId} (hgroup : InBody t type group) (hfield : field ∈ t.fields group) : InBody t type field

/-- A type definition holds an item whose reference, looked for through arrays, is bound to another type. -/
def Table.RefersToType (t : Table) (type target : SymbolId) : Prop :=
  t.IsType type ∧ ∃ item, t.InBody type item ∧ t.Refers item target

theorem Table.Formed.within_of_inBody {t : Table} {base : Nat} (h : t.Formed base) {type item : SymbolId}
    (hitem : t.InBody type item) : t.Within type item := by
  induction hitem with
  | self => exact .refl
  | field _ hfield ih => exact within_iff.mpr (.inr ⟨_, h.field_owner _ _ hfield, ih⟩)

theorem Table.Formed.edge_of_refersToType {t : Table} {base : Nat} (h : t.Formed base) {type target : SymbolId}
    (hrefers : t.RefersToType type target) : t.Edge type target := by
  obtain ⟨htype, item, hitem, hrefers⟩ := hrefers
  exact ⟨item, h.listed type item htype (h.within_of_inBody hitem) hrefers.isSome, hrefers⟩

/-- Whatever units a session has built, following the bound references in the bodies of type definitions from definition
to definition never comes back. So asking for the sizes that a size depends on comes to an end for every symbol, and the
size of a symbol is what its type gives with those sizes. -/
theorem Session.type_references_acyclic (options : Options) (requests : List Request) :
    (∀ type, ¬ TransGen (after options requests).table.RefersToType type type) ∧
      WellFounded (fun asked id => (after options requests).table.Demands id asked) ∧
      ∀ id, (after options requests).table.sizeOf id = ((after options requests).table.get id).type.bind
        (DataType.sizeWith (after options requests).table (after options requests).table.sizeOf) := by
  have hsound := sound_after options requests
  refine ⟨?_, hsound.demands_wellFounded, hsound.sizeOf_eq⟩
  intro type hcycle
  exact hsound.acyclic type (hcycle.lift (fun id => id) fun _ _ => hsound.edge_of_refersToType)

end CobolSymbols
