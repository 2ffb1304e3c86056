import CobolSymbols.Build.Declarations.Program
import CobolSymbols.Proofs.Build.Flags
import CobolSymbols.Proofs.Table.Extends

/-!
# The elementary changes of declarations

Making symbols changes the declarations of a unit by a few elementary moves: a symbol is made, given a type, queued,
entered into a scope, registered, or given flags. `Move` lists them with what is known when each is made. `old` is a
number of symbols: those below it keep their types and scopes, except that symbols from `old` on may be entered into the
scope `parent`; a program can get a new signature. `base` is the outermost open program; what a unit makes is owned by symbols from `base` on.

Every invariant of the table can be proved move by move. The first one is here: no move changes the name, the owner, the
kind or the level of a symbol.
-/

set_option autoImplicit false

namespace CobolSymbols

open Relation Symbol Table Context ItemData

/-- The problem of a program whose name is taken. -/
def Problem.isRepeat : Problem → Bool
  | .duplicateProgram _ => true
  | _ => false

/-- The problem of types that refer to each other in a circle. -/
def Problem.isCircular : Problem → Bool
  | .circularType _ => true
  | _ => false

/-- A problem that is reported by the linker or for a program, and never while data and procedures are declared. -/
def Problem.isWatched (p : Problem) : Bool := p.isRepeat || p.isCircular

namespace Context

/-- The diagnostics about programs whose names are taken. -/
def repeats (c : Context) : List Diagnostic := c.diagnostics.filter fun diagnostic => diagnostic.problem.isRepeat

/-- The diagnostics about types that refer to each other in a circle. -/
def circular (c : Context) : List Diagnostic := c.diagnostics.filter fun diagnostic => diagnostic.problem.isCircular

/-- The diagnostics that declaring data and procedures leaves alone. -/
def watched (c : Context) : List Diagnostic := c.diagnostics.filter fun diagnostic => diagnostic.problem.isWatched

theorem filter_watched (c : Context) {p : Problem → Bool} (h : ∀ problem, p problem = true → problem.isWatched = true) :
    c.watched.filter (fun diagnostic => p diagnostic.problem) =
      c.diagnostics.filter fun diagnostic => p diagnostic.problem := by
  unfold watched
  rw [List.filter_filter]
  refine List.filter_congr fun diagnostic _ => ?_
  cases hp : p diagnostic.problem with
  | false => rfl
  | true => rw [h _ hp]; rfl

theorem repeats_eq (c : Context) : c.repeats = c.watched.filter fun diagnostic => diagnostic.problem.isRepeat :=
  (c.filter_watched fun problem h => by simp [Problem.isWatched, h]).symm

theorem circular_eq (c : Context) : c.circular = c.watched.filter fun diagnostic => diagnostic.problem.isCircular :=
  (c.filter_watched fun problem h => by simp [Problem.isWatched, h]).symm

end Context

namespace ItemData

theorem addTypedItem_level (id : SymbolId) (data : ItemData) : (data.addTypedItem id).level = data.level := by
  unfold addTypedItem
  split <;> rfl

theorem addTypedItem_core (id : SymbolId) (data : ItemData) : (data.addTypedItem id).kind.core = data.kind.core := by
  unfold addTypedItem
  cases hkind : data.kind <;> simp [hkind, ItemKind.core]

theorem setRange_level (range : RenamesRange) (data : ItemData) : (data.setRange range).level = data.level := by
  unfold setRange
  split <;> rfl

theorem setRange_core (range : RenamesRange) (data : ItemData) : (data.setRange range).kind.core = data.kind.core := by
  unfold setRange
  cases hkind : data.kind <;> simp [hkind, ItemKind.core]

end ItemData

section Suits

variable {s : Symbol} {type element : DataType}

theorem suits_plain {id : SymbolId} (htype : type = .group {} none id ∨ type.IsElementary) (hkind : s.kind ≠ .renames) :
    s.suits type = true := by
  rcases htype with rfl | htype
  · simp [suits, DataType.isRoomy, DataType.isCondition, hkind]
  · cases type <;> cases htype <;> simp [suits, DataType.isRoomy, DataType.isCondition, hkind]

theorem suits_named (reference : TypeReference) (hkind : s.kind ≠ .renames) : s.suits (.named reference) = true := by
  simp [suits, DataType.isRoomy, DataType.isCondition, hkind]

theorem suits_signature (signature : Signature) (hkind : s.kind.isProgramLike = true) :
    s.suits (.signature signature) = true := by
  have hnot : s.kind ≠ .renames := fun h => by
    rw [h] at hkind
    cases hkind
  simp [suits, DataType.isRoomy, DataType.isCondition, hnot]

theorem suits_array {min max : UInt32} {object : Option DependingOn} (htype : s.type = some element)
    (hplain : element.isArray = false) (hmax : 1 < max) (h : s.isSuited = true) :
    s.suits (.array element min max object) = true := by
  rw [isSuited, htype] at h
  simp_all [suits, DataType.isRoomy, DataType.isCondition]

end Suits

/-- A symbol to which nothing has been added since it was made. -/
structure Symbol.Fresh (s : Symbol) : Prop where
  suited : s.isSuited = true
  /-- Its type says nothing about other symbols. -/
  type : s.type = none ∨ s.type = some (.usage (some .index)) ∨ s.type = some .condition ∨
    s.type = some (.signature {})
  /-- It is no scope without an owner. -/
  rooted : s.kind ≠ .root ∧ s.kind ≠ .namespaceKind
  /-- As a program it holds nothing. -/
  program : ∀ data, s.program? = some data → data = {}
  /-- As an item it has no slot. -/
  slot : ∀ data, s.item? = some data → data.variableSlot = none
  /-- As a type it has no items that refer to types. -/
  typed : s.typedItems = []
  /-- It is flagged as what it is as an item. -/
  traits : ∀ f : SymbolFlag, f.isTrait = true → s.flags.has f = s.declares f

/-- A symbol that has just been made has empty scopes. -/
theorem Symbol.Fresh.scope?_eq {s : Symbol} (h : s.Fresh) {slot : ScopeSlot} {scope : Scope SymbolId}
    (hscope : s.scope? slot = some scope) : scope = {} := by
  have hroot := h.rooted
  unfold Symbol.kind at hroot
  unfold Symbol.scope? at hscope
  cases hbody : s.body with
  | root scopes => simp [hbody] at hroot
  | namespaceBody scopes => simp [hbody] at hroot
  | program data | procedure data =>
    have hdata := h.program data (by simp [Symbol.program?, hbody])
    rw [hbody, hdata] at hscope
    cases slot <;> cases hscope <;> rfl
  | item data => simp [hbody] at hscope
  | paragraph heading => simp [hbody] at hscope
  | heading => simp [hbody] at hscope

theorem Symbol.Fresh.fields?_eq {s : Symbol} (h : s.Fresh) : s.fields? = none := by
  unfold Symbol.fields?
  rcases h.type with htype | htype | htype | htype <;> rw [htype] <;> rfl

namespace Table

/-- A new symbol gets an owner of the unit; only a program can belong to the root, only scopes own scopes and only
programs and procedures own types. -/
structure Joins (t : Table) (base : Nat) (s : Symbol) (owner : SymbolId) : Prop where
  owner_eq : s.owner = some owner
  owner_lt : owner < t.size
  region : base ≤ owner ∨ owner = rootId ∧ s.kind = .program
  scope : s.kind.isScope = true → (t.get owner).kind.isScope = true
  type : s.kind = .typeDefinition → (t.get owner).kind.isProgramLike = true

/-- A symbol can be entered into a scope: the scope belongs to its owner, except that paragraphs are entered into the
program or procedure even when a section owns them, and type definitions and only they are entered among the types. -/
structure Enters (t : Table) (ref : ScopeRef) (id : SymbolId) : Prop where
  lt : id < t.size
  owner_lt : ref.owner < id
  owner : (∃ o, ref = .slot o .paragraphs) ∨ (t.get id).owner = some ref.owner
  types : (∃ o, ref = .slot o .types) ↔ t.IsType id

/-- The search for a redefined item lets an item of the level redefine another one. -/
def Redefinable (t : Table) (level : Option Level) (target : SymbolId) : Prop :=
  t.isRedefining target = true ∨ (t.get target).level? = level

/-- A symbol can be found by some name in a scope. -/
def Finds (t : Table) (ref : ScopeRef) (id : SymbolId) : Prop :=
  ∃ scope name, t.scope? ref = some scope ∧ id ∈ scope.lookup name

end Table

namespace Declarations

theorem table_setContext {d : Declarations} {c : Context} (h : c.table = d.context.table) :
    ({ d with context := c } : Declarations).table = d.table := h

theorem get_made (d : Declarations) (s : Symbol) : (d.alloc s).2.table.get d.table.size = s :=
  get_alloc_self d.table s

theorem ownedBy_made (d : Declarations) {s : Symbol} {owner : SymbolId} (h : s.owner = some owner) :
    (d.alloc s).2.table.OwnedBy d.table.size owner := by
  unfold OwnedBy
  rw [get_made, h]

theorem lt_size_alloc (d : Declarations) (s : Symbol) : d.table.size < (d.alloc s).2.table.size :=
  (Nat.lt_succ_self _).trans_eq (Table.size_alloc d.table s).symm

/-- The elementary changes of declarations. -/
inductive Move (base old : Nat) (parent : Option ScopeRef) : Declarations → Declarations → Prop
  /-- Diagnostics are reported, but none about circles of types or the names of programs. -/
  | context (d : Declarations) (c : Context) (htable : c.table = d.context.table)
      (hoptions : c.options = d.context.options) (hwatched : c.watched = d.context.watched) :
      Move base old parent d { d with context := c }
  /-- The storage section and the level-66 entries that wait are noted. -/
  | note (d : Declarations) (storage : Option StorageSection) (pending : List (SymbolId × RenamesEntry))
      (hpending : ∀ entry ∈ pending, entry ∈ d.pendingRenames ∨ base ≤ entry.1 ∧ entry.1 < d.table.size) :
      Move base old parent d { d with storage, pendingRenames := pending }
  /-- A procedure section of the unit is opened. -/
  | heading (d : Declarations) (id : SymbolId) (hbase : base ≤ id) (hlt : id < d.table.size)
      (hkind : (d.table.get id).kind = .heading) : Move base old parent d { d with heading := some id }
  /-- A program of the root is listed among those of the unit. -/
  | listProgram (d : Declarations) (id : SymbolId) (hold : old ≤ id)
      (href : parent = some (.slot rootId .programs) ∨ old ≤ rootId) :
      Move base old parent d { d with programs := d.programs ++ [id] }
  /-- A symbol is made. -/
  | alloc (d : Declarations) (s : Symbol) (owner : SymbolId) (hfresh : s.Fresh) (hjoins : d.table.Joins base s owner)
      (hlevel : ∀ target, s.redefined? = some target → d.table.Redefinable s.level? target) :
      Move base old parent d (d.alloc s).2
  /-- An item becomes a group without fields, or elementary. -/
  | setType (d : Declarations) (id : SymbolId) (type : DataType) (hold : old ≤ id)
      (hkind : (d.table.get id).kind.isItem = true) (hnone : (d.table.get id).type = none)
      (htype : type = .group {} none id ∨ type.IsElementary) (htypable : (d.table.get id).kind ≠ .renames) :
      Move base old parent d (d.setType id type)
  /-- A group gets the elementary type that goes with its fields. -/
  | setLeading (d : Declarations) (id : SymbolId) (leading : Option DataType) (hold : old ≤ id)
      (htype : ∀ type, leading = some type → type.IsElementary) (hlt : id < d.table.size) :
      Move base old parent d (d.modify id fun s => { s with type := s.type.map (DataType.setLeading leading) })
  /-- An item refers to a type and is queued. -/
  | refer (d : Declarations) (id : SymbolId) (name : String) (position : Position) (typeBody : Option SymbolId)
      (hold : old ≤ id) (hlt : id < d.table.size) (hbase : base ≤ id)
      (hkind : (d.table.get id).kind.isItem = true) (hnone : (d.table.get id).type = none)
      (hhome : d.table.Home id typeBody) (htype : ∀ type, typeBody = some type → base ≤ type)
      (htypable : (d.table.get id).kind ≠ .renames) :
      Move base old parent d ((d.setType id (.named ⟨name, position, none⟩)).queueTyped id typeBody)
  /-- An item becomes an array of what it was. -/
  | wrap (d : Declarations) (id : SymbolId) (element : DataType) (min max : UInt32) (hold : old ≤ id)
      (hkind : (d.table.get id).kind.isItem = true) (hsome : (d.table.get id).type = some element)
      (hplain : element.isArray = false) (hmax : 1 < max) :
      Move base old parent d (d.setType id (.array element min max none))
  /-- An item becomes an array with a DEPENDING ON object and is queued. -/
  | depend (d : Declarations) (id : SymbolId) (element : DataType) (min max : UInt32) (object : DependingOn)
      (typeBody : Option SymbolId) (hold : old ≤ id) (hlt : id < d.table.size) (hbase : base ≤ id)
      (hkind : (d.table.get id).kind.isItem = true) (hsome : (d.table.get id).type = some element)
      (hobject : object.target = none) (hhome : d.table.Home id typeBody)
      (htype : ∀ type, typeBody = some type → base ≤ type) (hplain : element.isArray = false) (hmax : 1 < max) :
      Move base old parent d ((d.setType id (.array element min max (some object))).queueDependent id typeBody)
  /-- A symbol is entered into a scope. -/
  | enter (d : Declarations) (ref : ScopeRef) (id : SymbolId) (href : parent = some ref ∨ old ≤ ref.owner)
      (hold : old ≤ id) (henters : d.table.Enters ref id) : Move base old parent d (d.enterIn id (some ref))
  /-- A type can be found by name. -/
  | registerType (d : Declarations) (id : SymbolId) (hold : old ≤ id) (hkind : d.table.IsType id) :
      Move base old parent d (d.registerType id)
  /-- A program or procedure can be found by name. -/
  | registerProgram (d : Declarations) (id : SymbolId) (hold : old ≤ id)
      (hkind : (d.table.get id).kind.isProgramLike = true) : Move base old parent d (d.registerProgram id)
  /-- An item is listed in the domain of the current program. -/
  | addToDomain (d : Declarations) (id : SymbolId) (hold : old ≤ id) (hlt : id < d.table.size) :
      Move base old parent d (d.addToDomain id)
  /-- An item gets a slot. -/
  | addVariable (d : Declarations) (id : SymbolId) (hold : old ≤ id) (hlt : id < d.table.size) :
      Move base old parent d (d.mapTable fun t => (t.addVariable id).2)
  /-- A parameter gets flags: a new one, or an item of a linkage section of the unit. -/
  | addFlags (d : Declarations) (id : SymbolId) (flags : SymbolFlags)
      (hfound : base ≤ id ∧ id < d.table.size ∨
        ∃ scope, base ≤ scope ∧ d.table.Finds (.slot scope .linkage) id)
      (hpassing : flags.Avoids fun f => !f.tellsPassing) :
      Move base old parent d (d.addFlags id flags)
  /-- A program or procedure gets its signature. -/
  | setSignature (d : Declarations) (id : SymbolId) (signature : Signature) (hbase : base ≤ id)
      (hkind : (d.table.get id).kind.isProgramLike = true) : Move base old parent d (d.setSignature id signature)
  /-- A level-66 item gets its range. -/
  | setRange (d : Declarations) (id : SymbolId) (range : RenamesRange) (hbase : base ≤ id) (hlt : id < d.table.size) :
      Move base old parent d (d.modify id (Symbol.mapItem (ItemData.setRange range)))
  /-- A nested program is refused. -/
  | addDuplicate (d : Declarations) (program id : SymbolId)
      (href : parent = some (.slot program .programs) ∨ old ≤ program) (hlt : program < id) (hsize : id < d.table.size)
      (hold : old ≤ id) : Move base old parent d (d.addDuplicate program id)

/-- Any number of elementary changes. -/
def Moves (base old : Nat) (parent : Option ScopeRef) : Declarations → Declarations → Prop :=
  ReflTransGen (Move base old parent)

section Moving

variable {base old : Nat} {parent : Option ScopeRef} {d d' d'' : Declarations} {old' : Nat} {parent' : Option ScopeRef}
  {f : Symbol → Symbol} {id v : SymbolId} {α : Type}

theorem Moves.refl (d : Declarations) : Moves base old parent d d := ReflTransGen.refl

theorem Moves.trans (h : Moves base old parent d d') (h' : Moves base old parent d' d'') :
    Moves base old parent d d'' := ReflTransGen.trans h h'

theorem Move.moves (h : Move base old parent d d') : Moves base old parent d d' := ReflTransGen.single h

/-- A move that leaves more symbols alone is one that leaves fewer alone. -/
theorem Move.weaken (h : Move base old' parent' d d') (hold : old ≤ old')
    (hparent : ∀ ref, parent' = some ref → parent = some ref ∨ old ≤ ref.owner) : Move base old parent d d' := by
  have href : ∀ ref, parent' = some ref ∨ old' ≤ ref.owner → parent = some ref ∨ old ≤ ref.owner := by
    intro ref h
    rcases h with h | h
    · exact hparent ref h
    · exact .inr (hold.trans h)
  cases h with
  | context c htable hoptions hwatched => exact .context d c htable hoptions hwatched
  | note storage pending hpending => exact .note d storage pending hpending
  | heading id hbase hlt hkind => exact .heading d id hbase hlt hkind
  | listProgram id h h' => exact .listProgram d id (hold.trans h) (href (.slot rootId .programs) h')
  | alloc s owner hfresh hjoins hlevel => exact .alloc d s owner hfresh hjoins hlevel
  | setType id type h hkind hnone htype htypable => exact .setType d id type (hold.trans h) hkind hnone htype htypable
  | setLeading id leading h htype hlt => exact .setLeading d id leading (hold.trans h) htype hlt
  | refer id name position typeBody h hlt hbase hkind hnone hhome htype htypable =>
    exact .refer d id name position typeBody (hold.trans h) hlt hbase hkind hnone hhome htype htypable
  | wrap id element min max h hkind hsome hplain hmax =>
    exact .wrap d id element min max (hold.trans h) hkind hsome hplain hmax
  | depend id element min max object typeBody h hlt hbase hkind hsome hobject hhome htype hplain hmax =>
    exact .depend d id element min max object typeBody (hold.trans h) hlt hbase hkind hsome hobject hhome htype
      hplain hmax
  | enter ref id h hid henters => exact .enter d ref id (href ref h) (hold.trans hid) henters
  | registerType id h hkind => exact .registerType d id (hold.trans h) hkind
  | registerProgram id h hkind => exact .registerProgram d id (hold.trans h) hkind
  | addToDomain id h hlt => exact .addToDomain d id (hold.trans h) hlt
  | addVariable id h hlt => exact .addVariable d id (hold.trans h) hlt
  | addFlags id flags hfound hpassing => exact .addFlags d id flags hfound hpassing
  | setSignature id signature hbase hkind => exact .setSignature d id signature hbase hkind
  | setRange id range hbase hlt => exact .setRange d id range hbase hlt
  | addDuplicate program id h hlt hsize hid =>
    exact .addDuplicate d program id (href (.slot program .programs) h) hlt hsize (hold.trans hid)

theorem Moves.weaken (h : Moves base old' parent' d d') (hold : old ≤ old')
    (hparent : ∀ ref, parent' = some ref → parent = some ref ∨ old ≤ ref.owner) : Moves base old parent d d' := by
  induction h with
  | refl => exact Moves.refl d
  | tail _ hmove ih => exact ih.trans (hmove.weaken hold hparent).moves

section

variable (d)

variable (id)

/-- A move that changes one symbol and nothing that identifies it lets the table grow. -/
theorem extends_modify
    (h : (f (d.table.get id)).identity = (d.table.get id).identity) : d.table.Extends (d.modify id f).table :=
  Extends.modify d.table id h

theorem extends_queueTyped (typeBody : Option SymbolId) : d.table.Extends (d.queueTyped id typeBody).table := by
  cases typeBody with
  | none => exact Extends.refl d.table
  | some type =>
    exact extends_modify d type
      (identity_mapItem _ _ (addTypedItem_level id) (addTypedItem_core id))

theorem queueDependent_table (typeBody : Option SymbolId) : (d.queueDependent id typeBody).table = d.table := by
  unfold queueDependent
  cases typeBody with
  | none => rfl
  | some type =>
    simp only
    split <;> rfl

theorem size_queueTyped (typeBody : Option SymbolId) : (d.queueTyped id typeBody).table.size = d.table.size := by
  cases typeBody with
  | none => rfl
  | some type => exact size_modify d.table type _

end

/-- A move makes one symbol or none. -/
theorem Move.size_eq_or_alloc (h : Move base old parent d d') :
    d'.table.size = d.table.size ∨
      ∃ s owner, s.Fresh ∧ d.table.Joins base s owner ∧
        (∀ target, s.redefined? = some target → d.table.Redefinable s.level? target) ∧ d' = (d.alloc s).2 := by
  cases h with
  | alloc s owner hfresh hjoins hlevel => exact .inr ⟨s, owner, hfresh, hjoins, hlevel, rfl⟩
  | context c htable =>
    exact .inl (congrArg Table.size htable)
  | refer id name position typeBody =>
    refine .inl ?_
    have hset : (d.setType id (.named ⟨name, position, none⟩)).table.size = d.table.size :=
      size_modify d.table id _
    rw [size_queueTyped, hset]
  | depend id =>
    refine .inl ?_
    rw [queueDependent_table]
    exact size_modify d.table id _
  | enter ref id => exact .inl (size_enter d.table ref id)
  | addToDomain id =>
    unfold Declarations.addToDomain
    split
    · exact .inl (size_addToDomain d.table _ id)
    · exact .inl rfl
  | addVariable id => exact .inl (size_addVariable d.table id)
  | note | heading | listProgram | registerType | registerProgram => exact .inl rfl
  | _ => exact .inl (size_modify d.table _ _)

/-- What a move does to a symbol that exists. Symbols below `old` keep their types and scopes, but for the scope `parent`
and for the signatures of programs. -/
inductive Edit (base old : Nat) (parent : Option ScopeRef) (d : Declarations) (v : SymbolId) (s : Symbol) : Symbol → Prop
  | same : Edit base old parent d v s s
  | type (type : Option DataType) (hnew : old ≤ v ∨ base ≤ v ∧ s.kind.isProgramLike = true)
      (hsuited : s.isSuited = true → type.all s.suits = true) :
      Edit base old parent d v s { s with type }
  /-- A type definition can be an item of its own body. -/
  | refer (type : DataType) (hnew : old ≤ v) (id : SymbolId) (hsuited : s.suits type = true) :
      Edit base old parent d v s (({ s with type := some type } : Symbol).mapItem (ItemData.addTypedItem id))
  | item (f : ItemData → ItemData) (hlevel : ∀ data, (f data).level = data.level)
      (hcore : ∀ data, (f data).kind.core = data.kind.core) (hunit : base ≤ v ∨ old ≤ v) :
      Edit base old parent d v s (s.mapItem f)
  | flags (flags : SymbolFlags) (hpassing : flags.Avoids fun f => !f.tellsPassing)
      (hunit : base ≤ v ∨ ∃ scope, base ≤ scope ∧ d.table.Finds (.slot scope .linkage) v) :
      Edit base old parent d v s (s.addFlags flags)
  | domain (name : String) (id : SymbolId) (hunit : v ∈ d.scopes) :
      Edit base old parent d v s (s.mapProgram fun data => { data with domain := data.domain.enter name id })
  | duplicate (id : SymbolId) (hnew : parent = some (.slot v .programs) ∨ old ≤ v) :
      Edit base old parent d v s (s.mapProgram fun data => { data with duplicates := data.duplicates ++ [id] })
  | enter (slot : ScopeSlot) (f : Scope SymbolId → Scope SymbolId) (hnew : parent = some (.slot v slot) ∨ old ≤ v) :
      Edit base old parent d v s (s.mapScopes fun scopes => scopes.modify slot f)
  | field (f : Scope SymbolId → Scope SymbolId) (hnew : parent = some (.fields v) ∨ old ≤ v) :
      Edit base old parent d v s { s with type := s.type.map (DataType.mapFields f) }

/-- A change of one symbol is an edit of it, and the others stay as they are. -/
theorem edit_modify {t : Table}
    (h : v = id → Edit base old parent d v (t.get v) (f (t.get v))) : Edit base old parent d v (t.get v)
    ((t.modify id f).get v) := by
  rw [get_modify]
  split
  · rename_i heq
    exact heq.1 ▸ h heq.1
  · exact .same

theorem Move.edit (h : Move base old parent d d') (hlt : v < d.table.size) :
    Edit base old parent d v (d.table.get v) (d'.table.get v) := by
  cases h with
  | context c htable hoptions =>
    rw [table_setContext htable]
    exact .same
  | note | heading | listProgram | registerType | registerProgram => exact .same
  | alloc s =>
    have hget : (d.alloc s).2.table.get v = d.table.get v := get_alloc_of_lt s hlt
    rw [hget]
    exact .same
  | setType id type hold hkind hnone htype htypable =>
    exact edit_modify fun heq => .type _ (.inl (heq ▸ hold)) fun _ => suits_plain htype (heq ▸ htypable)
  | setLeading id leading hold =>
    exact edit_modify fun heq => .type _ (.inl (heq ▸ hold)) fun h => by
      simpa [isSuited, suits.eq_unfold, Option.all_map, Function.comp_def] using h
  | refer id name position typeBody hold hlt' hbase hkind hnone hhome htype htypable =>
    have hset : Edit base old parent d v (d.table.get v) ((d.setType id (.named ⟨name, position, none⟩)).table.get v) :=
      edit_modify fun heq => .type _ (.inl (heq ▸ hold)) fun _ => suits_named _ (heq ▸ htypable)
    cases typeBody with
    | none => exact hset
    | some type =>
      have hget : ((d.setType id (.named ⟨name, position, none⟩)).queueTyped id (some type)).table.get v =
        (((d.table.modify id fun s => { s with type := some (.named ⟨name, position, none⟩) }).modify type
          (Symbol.mapItem (ItemData.addTypedItem id))).get v) := rfl
      rw [hget, get_modify]
      split
      · rename_i hv
        rw [get_modify]
        split
        · rename_i heq
          exact .refer _ (heq.1 ▸ hold) id (suits_named _ (heq.1 ▸ htypable))
        · exact .item _ (addTypedItem_level id) (addTypedItem_core id) (.inl (hv.1 ▸ htype type rfl))
      · exact hset
  | wrap id element min max hold hkind hsome hplain hmax =>
    exact edit_modify fun heq => .type _ (.inl (heq ▸ hold)) (suits_array (heq ▸ hsome) hplain hmax)
  | depend id element min max object typeBody hold hlt' hbase hkind hsome hobject hhome htype hplain hmax =>
    rw [queueDependent_table]
    exact edit_modify fun heq => .type _ (.inl (heq ▸ hold)) (suits_array (heq ▸ hsome) hplain hmax)
  | enter ref id href =>
    cases ref with
    | slot owner slot =>
      have htable : (d.enterIn id (some (.slot owner slot))).table = d.table.enter (.slot owner slot) id := rfl
      rw [htable, enter_slot]
      split
      · exact edit_modify fun heq => .enter slot _ (heq ▸ href)
      · exact .same
    | fields owner => exact edit_modify fun heq => .field _ (heq ▸ href)
  | addToDomain id =>
    unfold Declarations.addToDomain
    split
    · rename_i scope hscope
      exact edit_modify fun heq => .domain _ id (heq ▸ List.mem_of_mem_head? hscope)
    · exact .same
  | addVariable id hold => exact edit_modify fun heq => .item _ (fun _ => rfl) (fun _ => rfl) (.inr (heq ▸ hold))
  | addFlags id flags hfound hpassing => exact edit_modify fun heq => .flags flags hpassing (heq ▸ hfound.imp_left And.left)
  | setSignature id signature hbase hkind =>
    exact edit_modify fun heq => .type _ (.inr (heq ▸ ⟨hbase, hkind⟩)) fun _ => suits_signature _ (heq ▸ hkind)
  | setRange id range hbase =>
    exact edit_modify fun heq => .item _ (setRange_level range) (setRange_core range) (.inl (heq ▸ hbase))
  | addDuplicate program id href => exact edit_modify fun heq => .duplicate id (heq ▸ href)

/-- A view of symbols that overlooks what declaring changes: types, scopes, what programs hold, what is added to the kinds
of items, and how parameters are passed. -/
structure Overlooks {α : Type} (view : Symbol → α) : Prop where
  type : ∀ s type, view { s with type } = view s
  scopes : ∀ s f, view (Symbol.mapScopes f s) = view s
  program : ∀ s f, view (Symbol.mapProgram f s) = view s
  item : ∀ s f, (∀ data : ItemData, (f data).level = data.level) → (∀ data, (f data).kind.core = data.kind.core) →
    view (Symbol.mapItem f s) = view s
  passing : ∀ s (flags : SymbolFlags), (flags.Avoids fun f => !f.tellsPassing) → view (s.addFlags flags) = view s

theorem overlooks_identity : Overlooks Symbol.identity where
  type _ _ := rfl
  scopes := identity_mapScopes
  program := identity_mapProgram
  item := identity_mapItem
  passing _ _ _ := rfl

/-- How a parameter is passed does not tell what it is. -/
theorem overlooks_trait {f : SymbolFlag} (hf : f.isTrait = true) : Overlooks fun s => s.flags.has f where
  type _ _ := rfl
  scopes s g := by rw [mapScopes_flags]
  program s g := by rw [mapProgram_flags]
  item s g _ _ := by rw [mapItem_flags]
  passing s flags hflags := by
    have hnot : flags.has f = false := hflags f (by cases f <;> first | rfl | cases hf)
    unfold Symbol.addFlags
    rw [FlagSet.has_union, hnot, Bool.or_false]

theorem Move.view_eq {view : Symbol → α} (hview : Overlooks view) (h : Move base old parent d d')
    (hlt : v < d.table.size) : view (d'.table.get v) = view (d.table.get v) := by
  generalize hs : d'.table.get v = s
  cases hs ▸ h.edit hlt with
  | same => rfl
  | type type => exact hview.type _ _
  | refer type hnew id =>
    exact (hview.item _ _ (addTypedItem_level id) (addTypedItem_core id)).trans (hview.type _ _)
  | item f hlevel hcore => exact hview.item _ _ hlevel hcore
  | flags flags hpassing => exact hview.passing _ _ hpassing
  | domain => exact hview.program _ _
  | duplicate => exact hview.program _ _
  | enter => exact hview.scopes _ _
  | field => exact hview.type _ _

theorem Move.size_le (h : Move base old parent d d') : d.table.size ≤ d'.table.size := by
  rcases h.size_eq_or_alloc with hsize | ⟨s, _, _, _, _, rfl⟩
  · exact hsize.symm.le
  · exact (d.lt_size_alloc s).le

/-- No move changes what identifies a symbol. -/
theorem Move.extends (h : Move base old parent d d') : d.table.Extends d'.table :=
  ⟨h.size_le, fun _ hlt => h.view_eq overlooks_identity hlt⟩

theorem Moves.extends (h : Moves base old parent d d') : d.table.Extends d'.table := by
  induction h with
  | refl => exact Extends.refl d.table
  | tail _ hmove ih => exact ih.trans hmove.extends

theorem type_queueTyped (d : Declarations) (item : SymbolId) (typeBody : Option SymbolId) (id : SymbolId) :
    ((d.queueTyped item typeBody).table.get id).type = (d.table.get id).type := by
  cases typeBody with
  | none => rfl
  | some type => exact view_modify Symbol.type (mapItem_type _ _) id

/-- A move changes the types of items that are being made and of programs and procedures; a group gets fields. -/
theorem Move.type_eq (h : Move base old parent d d') (hold : id < old) (hlt : id < d.table.size)
    (hkind : (d.table.get id).kind.isItem = true) : (d'.table.get id).type = (d.table.get id).type ∨
      parent = some (.fields id) ∧ ∃ f, (d'.table.get id).type = (d.table.get id).type.map (DataType.mapFields f) := by
  have hnew : ¬ old ≤ id := hold.not_ge
  generalize hs : d'.table.get id = s
  cases hs ▸ h.edit hlt with
  | same | flags => exact .inl rfl
  | type type hother =>
    rw [SymbolKind.isItem_of_isProgramLike (hother.resolve_left hnew).2] at hkind
    cases hkind
  | refer type hother => exact absurd hother hnew
  | item => exact .inl (mapItem_type _ _)
  | domain | duplicate => exact .inl (mapProgram_type _ _)
  | enter => exact .inl (mapScopes_type _ _)
  | field f hother => exact .inr ⟨hother.resolve_right hnew, f, rfl⟩

/-- Moves make no table out of an item that exists. -/
theorem Moves.isTable_eq (h : Moves base old parent d d') (hold : id < old) (hlt : id < d.table.size)
    (hkind : (d.table.get id).kind.isItem = true) : (d'.table.get id).isTable = (d.table.get id).isTable := by
  unfold Symbol.isTable
  induction h with
  | refl => rfl
  | tail hmoves hmove ih =>
    have hext := Moves.extends hmoves
    rcases hmove.type_eq hold (hlt.trans_le hext.size_le) ((congrArg _ (hext.kind hlt)).trans hkind) with heq | ⟨_, f, heq⟩
    · rw [heq, ih]
    · rw [heq, ← ih]
      simp [Option.any_map]

/-- Besides the table and the queues, a move changes what is reported, notes what waits, opens a section or lists a
program. -/
theorem Move.shape (h : Move base old parent d d') :
    (∃ c typed types tables, d' = { d with
        context := c, typedItems := typed, dependentTypes := types, dependentTables := tables } ∧
      c.options = d.context.options ∧ c.watched = d.context.watched ∧ d.typedItems ⊆ typed) ∨
    (∃ storage pending, d' = { d with storage := storage, pendingRenames := pending } ∧
      ∀ entry ∈ pending, entry ∈ d.pendingRenames ∨ base ≤ entry.1 ∧ entry.1 < d.table.size) ∨
    (∃ id, d' = { d with heading := some id } ∧ (d.table.get id).kind = .heading) ∨
    ∃ id, d' = { d with programs := d.programs ++ [id] } ∧ (parent = some (.slot rootId .programs) ∨ old ≤ rootId) := by
  cases h with
  | context c htable hoptions hwatched => exact .inl ⟨c, _, _, _, rfl, hoptions, hwatched, List.Subset.refl _⟩
  | note storage pending hpending => exact .inr (.inl ⟨storage, pending, rfl, hpending⟩)
  | heading id hbase hlt hkind => exact .inr (.inr (.inl ⟨id, rfl, hkind⟩))
  | listProgram id hold href => exact .inr (.inr (.inr ⟨id, rfl, href⟩))
  | refer id name position typeBody =>
    cases typeBody with
    | none => exact .inl ⟨_, _, _, _, rfl, rfl, rfl, List.subset_append_left _ _⟩
    | some type => exact .inl ⟨_, _, _, _, rfl, rfl, rfl, List.Subset.refl _⟩
  | depend id element min max object typeBody =>
    unfold queueDependent
    cases typeBody with
    | none => exact .inl ⟨_, _, _, _, rfl, rfl, rfl, List.Subset.refl _⟩
    | some type =>
      simp only
      split <;> exact .inl ⟨_, _, _, _, rfl, rfl, rfl, List.Subset.refl _⟩
  | addToDomain id =>
    unfold Declarations.addToDomain
    split <;> exact .inl ⟨_, _, _, _, rfl, rfl, rfl, List.Subset.refl _⟩
  | _ => exact .inl ⟨_, _, _, _, rfl, rfl, rfl, List.Subset.refl _⟩

/-- No move opens or closes a program or procedure. -/
theorem Move.stack (h : Move base old parent d d') : d'.scopes = d.scopes ∧ d'.openPrograms = d.openPrograms := by
  rcases h.shape with ⟨_, _, _, _, rfl, _⟩ | ⟨_, _, rfl, _⟩ | ⟨_, rfl, _⟩ | ⟨_, rfl, _⟩ <;> exact ⟨rfl, rfl⟩

theorem Moves.stack (h : Moves base old parent d d') : d'.scopes = d.scopes ∧ d'.openPrograms = d.openPrograms := by
  induction h with
  | refl => exact ⟨rfl, rfl⟩
  | tail _ hmove ih => exact ⟨hmove.stack.1.trans ih.1, hmove.stack.2.trans ih.2⟩

theorem Moves.currentScope (h : Moves base old parent d d') : d'.currentScope = d.currentScope := by
  unfold Declarations.currentScope
  rw [h.stack.1]

/-- No move reports a reference that is not found, or a name that is taken. -/
theorem Move.watched (h : Move base old parent d d') : d'.context.watched = d.context.watched := by
  rcases h.shape with ⟨_, _, _, _, rfl, _, hwatched, _⟩ | ⟨_, _, rfl, _⟩ | ⟨_, rfl, _⟩ | ⟨_, rfl, _⟩
  · exact hwatched
  all_goals rfl

section

variable (h : Moves base old parent d d')
include h

theorem Moves.watched : d'.context.watched = d.context.watched := by
  induction h with
  | refl => rfl
  | tail _ hmove ih => exact hmove.watched.trans ih

theorem Moves.circular : d'.context.circular = d.context.circular := by
  rw [circular_eq, h.watched, ← circular_eq]

theorem Moves.repeats : d'.context.repeats = d.context.repeats := by
  rw [repeats_eq, h.watched, ← repeats_eq]

end

theorem Move.options (h : Move base old parent d d') : d'.context.options = d.context.options := by
  rcases h.shape with ⟨_, _, _, _, rfl, hoptions, _⟩ | ⟨_, _, rfl, _⟩ | ⟨_, rfl, _⟩ | ⟨_, rfl, _⟩
  · exact hoptions
  all_goals rfl

/-- The level-66 entries that wait are of the unit. -/
theorem Move.pendingRenames {low : Nat} (h : Move base old parent d d') (hlow : low ≤ base)
    (hd : ∀ entry ∈ d.pendingRenames, low ≤ entry.1 ∧ entry.1 < d.table.size) :
    ∀ entry ∈ d'.pendingRenames, low ≤ entry.1 ∧ entry.1 < d'.table.size := by
  have hle := h.extends.size_le
  have hkept : ∀ entry ∈ d.pendingRenames, low ≤ entry.1 ∧ entry.1 < d'.table.size := fun entry hentry =>
    ⟨(hd entry hentry).1, (hd entry hentry).2.trans_le hle⟩
  rcases h.shape with ⟨_, _, _, _, rfl, _⟩ | ⟨_, _, rfl, hpending⟩ | ⟨_, rfl, _⟩ | ⟨_, rfl, _⟩
  · exact hkept
  · intro entry hentry
    exact (hpending entry hentry).elim (hd entry) fun hnew => ⟨hlow.trans hnew.1, hnew.2⟩
  all_goals exact hkept

theorem Moves.pendingRenames (h : Moves base old parent d d')
    (hd : ∀ entry ∈ d.pendingRenames, base ≤ entry.1 ∧ entry.1 < d.table.size) :
    ∀ entry ∈ d'.pendingRenames, base ≤ entry.1 ∧ entry.1 < d'.table.size := by
  induction h with
  | refl => exact hd
  | tail _ hmove ih => exact hmove.pendingRenames le_rfl ih

/-- New symbols come after their owners. -/
theorem Move.ordered (h : Move base old parent d d') (hd : d.table.Ordered) : d'.table.Ordered := by
  rcases h.size_eq_or_alloc with heq | ⟨s, made, _, hjoins, _, rfl⟩
  · intro id owner hown
    have hid : id < d.table.size := heq ▸ hown.lt_size
    exact hd id owner ((h.extends.ownedBy_iff hid).mp hown)
  · exact hd.alloc hjoins.owner_eq hjoins.owner_lt

theorem Moves.ordered (h : Moves base old parent d d') (hd : d.table.Ordered) : d'.table.Ordered := by
  induction h with
  | refl => exact hd
  | tail _ hmove ih => exact hmove.ordered ih

end Moving

end Declarations

end CobolSymbols
