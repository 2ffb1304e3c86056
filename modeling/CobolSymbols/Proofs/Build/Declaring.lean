import CobolSymbols.Proofs.Build.Moves
import CobolSymbols.Proofs.Tree.Standing

/-!
# Declaring takes only elementary moves

Every function that makes symbols of data, of procedures and of programs is a sequence of moves. Making the symbols of a
definition leaves the symbols that exist alone, except that the definition is entered into the scope it is placed in.
-/

set_option autoImplicit false

namespace CobolSymbols

open Option Symbol SymbolFlags Table ItemKind

variable {s : Symbol} {data : ItemData} {problem : Problem}

/-- The kind of a data item's symbol. -/
def ItemKind.symbolKind : ItemKind → SymbolKind
  | .plain => .plainItem
  | .typeDefinition .. => .typeDefinition
  | .redefines _ => .redefines
  | .renames .. => .renames
  | .index _ => .index

theorem Symbol.kind_of_item (hbody : s.body = .item data) : s.kind = data.kind.symbolKind := by
  unfold Symbol.kind
  rw [hbody]
  cases hkind : data.kind <;> simp [hkind, ItemKind.symbolKind]

theorem ItemKind.isItem_symbolKind (k : ItemKind) : k.symbolKind.isItem = true := by cases k <;> rfl

theorem ItemKind.symbolKind_eq_typeDefinition (k : ItemKind) : k.symbolKind = .typeDefinition ↔ k.isType = true := by
  cases k <;> simp [symbolKind, isType]

/-- A symbol that belongs to a data item, before anything is added to it. -/
theorem Symbol.Fresh.item (hbody : s.body = .item data) (hsuited : s.isSuited = true)
    (htype : s.type = none ∨ s.type = some (.usage (some .index)) ∨ s.type = some .condition)
    (hslot : data.variableSlot = none) (htyped : ∀ restriction items, data.kind = .typeDefinition restriction items →
      items = []) (htraits : ∀ f : SymbolFlag, f.isTrait = true → s.flags.has f = data.kind.declares f) : s.Fresh where
  suited := hsuited
  type := by
    rcases htype with h | h | h
    · exact .inl h
    · exact .inr (.inl h)
    · exact .inr (.inr (.inl h))
  rooted := by
    rw [kind_of_item hbody]
    cases data.kind <;> simp [ItemKind.symbolKind]
  program := by
    intro data' h
    simp [Symbol.program?, hbody] at h
  slot := by
    intro data' h
    simp only [Symbol.item?, hbody, Option.some.injEq] at h
    rw [← h, hslot]
  traits f hf := by
    rw [htraits f hf]
    simp [Symbol.declares, Symbol.item?, hbody]
  typed := by
    unfold Symbol.typedItems Symbol.item?
    rw [hbody]
    split
    · rename_i restriction items hkind
      exact htyped restriction items (Option.some.inj hkind)
    · rfl

theorem Context.circular_push (c : Context) (h : problem.isCircular = false) (severity : Severity)
    (position : Position) : (c.push problem severity position).circular = c.circular := by
  simp [Context.circular, Context.push, h]

theorem Context.repeats_push (c : Context) (h : problem.isRepeat = false) (severity : Severity)
    (position : Position) : (c.push problem severity position).repeats = c.repeats := by
  simp [Context.repeats, Context.push, h]

/-- Problems that are not watched have been reported, and nothing else has changed. -/
structure Context.Told (c c' : Context) : Prop where
  table : c'.table = c.table
  options : c'.options = c.options
  watched : c'.watched = c.watched

theorem Context.Told.refl (c : Context) : c.Told c := ⟨rfl, rfl, rfl⟩

theorem Context.Told.trans {c c' c'' : Context} (h : c.Told c') (h' : c'.Told c'') : c.Told c'' :=
  ⟨h'.table.trans h.table, h'.options.trans h.options, h'.watched.trans h.watched⟩

theorem Context.Told.repeats {c c' : Context} (h : c.Told c') : c'.repeats = c.repeats := by
  rw [repeats_eq, repeats_eq, h.watched]

theorem Context.told_push (c : Context) (h : problem.isWatched = false) (severity : Severity) (position : Position) :
    c.Told (c.push problem severity position) := ⟨rfl, rfl, by simp [Context.watched, Context.push, h]⟩

theorem Context.told_reportAt (c : Context) (level : ReportLevel) (h : problem.isWatched = false) (position : Position) :
    c.Told (c.reportAt level problem position) := by
  unfold Context.reportAt
  split
  · exact c.told_push h _ position
  · exact .refl c

namespace Declarations

variable {base old : Nat} {parent : Option ScopeRef} {d d' : Declarations} {id indexed scope target : SymbolId}
  {typeBody : Option SymbolId} {ref : ScopeRef} {problem : Problem} {entry : DataEntry} {s : Symbol} {data : ItemData}
  {fields : Placement → Declarations → Forest × Declarations} {isType : Bool} {t : Table} {name : String} {tree : Tree}
  {c : Context} {items : List LayoutItem}

/-- Where a data symbol is made is part of the unit: its owner is a symbol of the unit, and the type in whose body it is
made is the one in whose body its owner lies. -/
structure Fits (d : Declarations) (base : Nat) (place : Placement) (owner : SymbolId) : Prop where
  ordered : d.table.Ordered
  owner_eq : d.ownerOf place = some owner
  owner_lt : owner < d.table.size
  base_le : base ≤ owner
  home : d.table.Home owner place.typeBody
  body_le : ∀ type, place.typeBody = some type → base ≤ type

/-- An item that has its symbol but is not yet complete. -/
structure Underway (d : Declarations) (base : Nat) (id : SymbolId) (typeBody : Option SymbolId) : Prop where
  ordered : d.table.Ordered
  lt : id < d.table.size
  base_le : base ≤ id
  kind : (d.table.get id).kind.isItem = true
  typable : (d.table.get id).kind ≠ .renames
  home : d.table.Home id typeBody
  body_le : ∀ type, typeBody = some type → base ≤ type

theorem Underway.moves (h : d.Underway base id typeBody)
    (hmoves : Moves base old parent d d') : d'.Underway base id typeBody where
  ordered := hmoves.ordered h.ordered
  lt := h.lt.trans_le hmoves.extends.size_le
  base_le := h.base_le
  kind := by rw [hmoves.extends.kind h.lt, h.kind]
  typable := by
    rw [hmoves.extends.kind h.lt]
    exact h.typable
  home := hmoves.extends.home h.ordered h.lt h.home
  body_le := h.body_le

/-- The fields of an item are placed in it. -/
theorem Underway.fits (h : d.Underway base id typeBody) : d.Fits base ⟨some (.fields id), typeBody⟩ id :=
  ⟨h.ordered, rfl, h.lt, h.base_le, h.home, h.body_le⟩

theorem Fits.owner_of_parent {place : Placement} {owner : SymbolId} (h : d.Fits base place owner)
    (hparent : place.parent = some ref) : ref.owner = owner := by
  have heq := h.owner_eq
  unfold ownerOf at heq
  rw [hparent] at heq
  exact Option.some.inj heq

theorem Fits.moves {place : Placement} {owner : SymbolId} (h : d.Fits base place owner)
    (hmoves : Moves base old parent d d') : d'.Fits base place owner where
  ordered := hmoves.ordered h.ordered
  owner_eq := by
    have heq := h.owner_eq
    unfold ownerOf at heq ⊢
    rw [hmoves.currentScope]
    exact heq
  owner_lt := h.owner_lt.trans_le hmoves.extends.size_le
  base_le := h.base_le
  home := hmoves.extends.home h.ordered h.owner_lt h.home
  body_le := h.body_le

theorem told_moves (h : d.context.Told c) : Moves base old parent d { d with context := c } :=
  (Move.context d c h.table h.options h.watched).moves

theorem elementaryType_moves (entry : DataEntry) : Moves base old parent d (d.elementaryType entry).2 := by
  unfold elementaryType
  split
  · exact Moves.refl d
  · split
    · exact Moves.refl d
    · exact told_moves (d.context.told_push rfl _ _)

/-- The PICTURE and USAGE clauses give an elementary type. -/
theorem elementaryType_isElementary {type : DataType}
    (h : (d.elementaryType entry).1 = some type) : type.IsElementary := by
  unfold elementaryType at h
  split at h
  · cases husage : entry.usage with
    | none => simp [husage] at h
    | some usage =>
      simp only [husage, map_some, Option.some.injEq] at h
      subst h
      exact trivial
  · split at h
    · simp only [Option.some.injEq] at h
      subst h
      exact trivial
    · cases h

theorem elementaryType_table (entry : DataEntry) : (d.elementaryType entry).2.table = d.table := by
  unfold elementaryType
  split
  · rfl
  · split <;> rfl

theorem setElementary_moves (h : d.Underway base id typeBody) (hold : old ≤ id) (hnone : (d.table.get id).type = none)
    (entry : DataEntry) : Moves base old parent d (d.setElementary id entry typeBody) := by
  have hmoves : Moves base old parent d (d.elementaryType entry).2 := elementaryType_moves entry
  have hnone' : ((d.elementaryType entry).2.table.get id).type = none := by rw [elementaryType_table, hnone]
  have hunder := h.moves hmoves
  refine hmoves.trans ?_
  unfold setElementary
  split
  · rename_i type d' heq
    have htype : (d.elementaryType entry).1 = some type := by rw [heq]
    have hd' : (d.elementaryType entry).2 = d' := by rw [heq]
    rw [hd'] at hunder hnone' ⊢
    exact (Move.setType d' id type hold hunder.kind hnone' (.inr (elementaryType_isElementary htype)) hunder.typable).moves
  · rename_i d' heq
    have hd' : (d.elementaryType entry).2 = d' := by rw [heq]
    rw [hd'] at hunder hnone' ⊢
    split
    · exact (Move.refer d' id _ _ typeBody hold hunder.lt hunder.base_le hunder.kind hnone' hunder.home
        hunder.body_le hunder.typable).moves
    · exact told_moves (d'.context.told_reportAt _ rfl _)

theorem setLeading_moves (hold : old ≤ id) (hlt : id < d.table.size) (entry : DataEntry) :
    Moves base old parent d (d.setLeading id entry) := by
  refine (elementaryType_moves entry).trans ?_
  refine (Move.setLeading _ id (d.elementaryType entry).1 hold (fun type htype => elementaryType_isElementary htype) ?_).moves
  rw [elementaryType_table]
  exact hlt

/-- An item without a type is no table when it becomes elementary. -/
theorem isTable_setElementary (hnone : (d.table.get id).type = none) (entry : DataEntry)
    (typeBody : Option SymbolId) : ((d.setElementary id entry typeBody).table.get id).isTable = false := by
  have hset : ∀ {d : Declarations} {type : DataType}, (d.table.get id).type = none → type.isArray = false →
      ((d.setType id type).table.get id).isTable = false := by
    intro d type hnone htype
    have hbefore : (d.table.get id).isTable = false := congrArg (Option.any DataType.isArray) hnone
    refine Eq.trans (view_modify Symbol.isTable ?_ id) hbefore
    exact htype.trans hbefore.symm
  have hnone' : ((d.elementaryType entry).2.table.get id).type = none := by rw [elementaryType_table, hnone]
  unfold setElementary
  split
  · rename_i type d' heq
    rw [heq] at hnone'
    exact hset hnone' (DataType.not_isArray_of_isElementary (elementaryType_isElementary (congrArg Prod.fst heq)))
  · rename_i d' heq
    rw [heq] at hnone'
    split
    · exact (congrArg (Option.any DataType.isArray) (type_queueTyped _ id typeBody id)).trans (hset hnone' rfl)
    · have htold : d'.context.Told (d'.context.reportAt _ (.untypedItem entry.displayName) entry.position) :=
        d'.context.told_reportAt d'.context.options.untypedItems rfl _
      exact (congrArg (fun t => (t.get id).isTable) htold.table).trans (congrArg (Option.any DataType.isArray) hnone')

theorem isTable_setLeading (id : SymbolId) (entry : DataEntry) :
    ((d.setLeading id entry).table.get id).isTable = (d.table.get id).isTable := by
  have hleading : ∀ leading (type : Option DataType),
      (type.map (DataType.setLeading leading)).any DataType.isArray = type.any DataType.isArray := fun _ type => by
    cases type <;> simp
  rw [← elementaryType_table (d := d) entry]
  refine view_modify Symbol.isTable ?_ id
  exact hleading (d.elementaryType entry).1 _

theorem wrapArray_moves (h : d.Underway base id typeBody)
    (hplain : (d.table.get id).isTable = false) (hold : old ≤ id) (entry : DataEntry) : Moves base old parent d
    (d.wrapArray id entry typeBody) := by
  unfold wrapArray
  split
  · rename_i occurs element hoccurs htype
    have helement : element.isArray = false := by
      unfold Symbol.isTable at hplain
      rw [htype] at hplain
      exact hplain
    split
    · exact Moves.refl d
    · rename_i hmax
      have hmax := UInt32.not_le.mp hmax
      cases hdep : occurs.dependingOn with
      | none => exact (Move.wrap d id element occurs.min occurs.max hold h.kind htype helement hmax).moves
      | some reference =>
        exact (Move.depend d id element occurs.min occurs.max ⟨reference.name, reference.position, none⟩ typeBody hold
          h.lt h.base_le h.kind htype rfl h.home h.body_le helement hmax).moves
  · exact Moves.refl d

theorem joins_item {owner : SymbolId} (hbody : s.body = .item data)
    (howner : s.owner = some owner) (hlt : owner < d.table.size) (hbase : base ≤ owner)
    (htype : data.kind.isType = true → (d.table.get owner).kind.isProgramLike = true) : d.table.Joins base s owner where
  owner_eq := howner
  owner_lt := hlt
  region := .inl hbase
  scope := by
    intro hscope
    rw [kind_of_item hbody, SymbolKind.isScope_of_isItem data.kind.isItem_symbolKind] at hscope
    cases hscope
  type := by
    intro hkind
    rw [kind_of_item hbody] at hkind
    exact htype ((symbolKind_eq_typeDefinition data.kind).mp hkind)

theorem storeVariable_moves (hold : old ≤ id) (hlt : id < d.table.size) (typeBody : Option SymbolId) :
    Moves base old parent d (d.storeVariable id typeBody) := by
  cases typeBody with
  | none =>
    have hdomain : Moves base old parent d (d.addToDomain id) := (Move.addToDomain d id hold hlt).moves
    exact hdomain.trans
      (Move.addVariable (d.addToDomain id) id hold (hlt.trans_le hdomain.extends.size_le)).moves
  | some type => exact Moves.refl d

theorem alloc_enterIn_moves {owner : SymbolId} (hfresh : s.Fresh) (hplain : s.redefined? = none)
    (hjoins : d.table.Joins base s owner) (href : parent = some ref ∨ old ≤ ref.owner) (hold : old ≤ d.table.size)
    (hlt : ref.owner < d.table.size) (howner : (∃ o, ref = .slot o .paragraphs) ∨ ref.owner = owner)
    (htypes : (∃ o, ref = .slot o .types) ↔ s.kind = .typeDefinition) :
    Moves base old parent d ((d.alloc s).2.enterIn d.table.size (some ref)) := by
  have halloc : Moves base old parent d (d.alloc s).2 :=
    (Move.alloc d s owner hfresh hjoins fun _ htarget => absurd (hplain.symm.trans htarget) nofun).moves
  have hget := d.get_made s
  refine halloc.trans (Move.enter _ ref d.table.size href hold ⟨d.lt_size_alloc s, hlt, ?_, ?_⟩).moves
  · rw [hget, hjoins.owner_eq]
    exact howner.imp_right fun h => congrArg some h.symm
  · unfold IsType
    rw [hget]
    exact htypes

theorem fresh_indexSymbol (d : Declarations) (indexed : SymbolId) (name : IndexName) :
    (d.indexSymbol indexed name).Fresh := by
  refine Fresh.item rfl rfl (.inr (.inl rfl)) rfl nofun (Avoids.inter ?_)
  exact avoids_ofList
    [.global, .inTypeBody, .workingStorage, .linkage, .localStorage, .fileSection, .globalStorage] (by decide)

theorem flags_indexSymbol (indexed : SymbolId) (name : IndexName) : (d.indexSymbol indexed name).flags =
    (d.table.get indexed).flags ∩ (.ofList [.global, .inTypeBody] ∪ SymbolFlags.storageOrigin) := rfl

theorem joins_index {owner : SymbolId} (name : IndexName) (hindexed : (d.table.get indexed).owner = some owner)
    (hlt : owner < d.table.size) (hbase : base ≤ owner) : d.table.Joins base (d.indexSymbol indexed name) owner := by
  exact joins_item rfl hindexed hlt hbase nofun

/-- An index is made next to the indexed item. -/
theorem declareIndex_moves (typeBody : Option SymbolId) (name : IndexName) (hordered : d.table.Ordered)
    (hold : old ≤ d.table.size) (hindexed : (d.table.get indexed).owner = some ref.owner) (hbase : base ≤ ref.owner)
    (href : ∀ o, ref ≠ .slot o .types) : Moves base old (some ref) d (d.declareIndex indexed ref typeBody name).2 := by
  have hlt : ref.owner < d.table.size :=
    (hordered indexed ref.owner hindexed).trans (OwnedBy.lt_size hindexed)
  have hmade : Moves base old (some ref) d
      ((d.alloc (d.indexSymbol indexed name)).2.enterIn d.table.size (some ref)) := by
    refine alloc_enterIn_moves (d.fresh_indexSymbol indexed name) rfl (joins_index name hindexed hlt hbase) (.inl rfl) hold
      hlt (.inr rfl) ⟨fun ⟨o, ho⟩ => absurd ho (href o), fun htype => ?_⟩
    rw [kind_of_item rfl] at htype
    cases htype
  refine hmade.trans (storeVariable_moves hold ?_ typeBody)
  have hsize : (d.alloc (d.indexSymbol indexed name)).2.table.size = d.table.size + 1 := Table.size_alloc d.table _
  exact (Nat.lt_succ_self _).trans_eq (hsize.symm.trans (size_enter _ ref _).symm)

theorem declareIndexes_moves (typeBody : Option SymbolId) (hbase : base ≤ ref.owner) (href : ∀ o, ref ≠ .slot o .types)
    (forest : Forest) (d : Declarations) (hordered : d.table.Ordered) (hold : old ≤ d.table.size)
    (hindexed : (d.table.get indexed).owner = some ref.owner) :
    Moves base old (some ref) d (declareIndexes indexed ref typeBody forest d).2 := by
  induction forest generalizing d with
  | nil => exact Moves.refl d
  | cons node children siblings _ ih =>
    unfold declareIndexes
    split
    · rename_i name _
      have hindex := declareIndex_moves typeBody name hordered hold hindexed hbase href
      refine hindex.trans (ih _ (hindex.ordered hordered) (hold.trans hindex.extends.size_le) ?_)
      rw [hindex.extends.owner (OwnedBy.lt_size hindexed), hindexed]
    · exact ih d hordered hold hindexed

/-- What makes the fields of an item takes moves that leave everything alone but the item's scope. -/
def FieldsMove (base : Nat) (id : SymbolId) (typeBody : Option SymbolId)
    (fields : Placement → Declarations → Forest × Declarations) : Prop :=
  ∀ d : Declarations, d.Underway base id typeBody →
    Moves base d.table.size (some (.fields id)) d (fields ⟨some (.fields id), typeBody⟩ d).2

theorem declareContent_moves (h : d.Underway base id typeBody) (hold : old ≤ id) (hnone : (d.table.get id).type = none)
    (entry : DataEntry) (children : Forest) (hfields : FieldsMove base id typeBody fields) :
    Moves base old parent d (d.declareContent id entry typeBody children fields).2 := by
  unfold declareContent
  split
  · have hgroup : Moves base old parent d (d.setType id (.group {} none id)) :=
      (Move.setType d id (.group {} none id) hold h.kind hnone (.inl rfl) h.typable).moves
    have hunder := h.moves hgroup
    have hmade : Moves base old parent (d.setType id (.group {} none id))
        (fields ⟨some (.fields id), typeBody⟩ (d.setType id (.group {} none id))).2 := by
      refine (hfields _ hunder).weaken (hold.trans hunder.lt.le) fun ref href => .inr ?_
      cases href
      exact hold
    have hunder' := hunder.moves hmade
    have hleading : Moves base old parent (fields ⟨some (.fields id), typeBody⟩ (d.setType id (.group {} none id))).2
        ((fields ⟨some (.fields id), typeBody⟩ (d.setType id (.group {} none id))).2.setLeading id entry) :=
      setLeading_moves hold hunder'.lt entry
    refine ((hgroup.trans hmade).trans hleading).trans (wrapArray_moves (hunder'.moves hleading) ?_ hold entry)
    -- The fields leave the group as it is, and so does the type that goes with them.
    have hset : ((d.setType id (.group {} none id)).table.get id).isTable = false :=
      congrArg Symbol.isTable (get_modify_self _ h.lt)
    have hkept := (hfields _ hunder).isTable_eq hunder.lt hunder.lt hunder.kind
    exact (isTable_setLeading id entry).trans (hkept.trans hset)
  · have helem : Moves base old parent d (d.setElementary id entry typeBody) :=
      setElementary_moves h hold hnone entry
    exact helem.trans
      (wrapArray_moves (h.moves helem) (isTable_setElementary hnone entry typeBody) hold entry)

/-- The scope that an item is entered into belongs to its owner, and holds types exactly when the item is one. -/
structure Enterable (d : Declarations) (base : Nat) (id : SymbolId) (isType : Bool) (ref : ScopeRef) : Prop where
  owner_eq : (d.table.get id).owner = some ref.owner
  base_le : base ≤ ref.owner
  types : (∃ o, ref = .slot o .types) ↔ isType = true

/-- An item whose type is known is entered into the scope it is placed in, if there is one. -/
theorem enterParent_moves {place : Placement} (hordered : d.table.Ordered)
    (hlt : id < d.table.size) (hold : old ≤ id) (htype : d.table.IsType id ↔ isType = true)
    (hplace : ∀ ref, place.parent = some ref → d.Enterable base id isType ref) :
    Moves base old place.parent d (d.enterIn id place.parent) := by
  cases hparent : place.parent with
  | none => exact Moves.refl d
  | some ref =>
    have henter := hplace ref hparent
    have howner := henter.owner_eq
    exact (Move.enter d ref id (.inl rfl) hold ⟨hlt, hordered id _ howner, .inr howner, henter.types.trans htype.symm⟩).moves

theorem enterItem_moves {place : Placement} (hordered : d.table.Ordered)
    (hlt : id < d.table.size) (hold : old ≤ id) (htype : d.table.IsType id ↔ isType = true)
    (hplace : ∀ ref, place.parent = some ref → d.Enterable base id isType ref) (children : Forest) :
    Moves base old place.parent d (d.enterItem id isType place children).2 := by
  have hentered := enterParent_moves hordered hlt hold htype hplace
  unfold enterItem
  cases isType with
  | true =>
    refine hentered.trans (Move.registerType _ id hold ?_).moves
    exact (hentered.extends.isType_iff hlt).mpr (htype.mpr rfl)
  | false =>
    have hstored : Moves base old place.parent (d.enterIn id place.parent)
        ((d.enterIn id place.parent).storeVariable id place.typeBody) :=
      storeVariable_moves hold (hlt.trans_le hentered.extends.size_le) place.typeBody
    have hboth := hentered.trans hstored
    simp only [Bool.false_eq_true, if_false]
    split
    · rename_i ref hparent
      have henter := hplace ref hparent
      rw [hparent] at hboth ⊢
      refine hboth.trans (declareIndexes_moves place.typeBody henter.base_le ?_ children _
        (hboth.ordered hordered) ?_ ?_)
      · intro o heq
        have := henter.types.mp ⟨o, heq⟩
        cases this
      · exact hold.trans (hlt.le.trans hboth.extends.size_le)
      · rw [hboth.extends.owner hlt, henter.owner_eq]
    · exact hboth

theorem underway_alloc {place : Placement} {owner : SymbolId} (hfits : d.Fits base place owner)
    (hbody : s.body = .item data) (htypable : s.kind ≠ .renames) (howner : s.owner = some owner)
    (halloc : Moves base old parent d (d.alloc s).2) :
    (d.alloc s).2.Underway base d.table.size (if data.kind.isType then some d.table.size else place.typeBody) := by
  have hget := d.get_made s
  have hbase : base ≤ d.table.size := hfits.base_le.trans hfits.owner_lt.le
  have htype : (d.alloc s).2.table.IsType d.table.size ↔ data.kind.isType = true := by
    unfold IsType
    rw [hget, kind_of_item hbody]
    exact symbolKind_eq_typeDefinition data.kind
  refine ⟨halloc.ordered hfits.ordered, d.lt_size_alloc s, hbase, ?_, ?_, ?_, ?_⟩
  · rw [hget, kind_of_item hbody]
    exact data.kind.isItem_symbolKind
  · rw [hget]
    exact htypable
  · split
    · rename_i hkind
      exact Home.self (htype.mpr hkind)
    · rename_i hkind
      refine Home.of_owner (d.ownedBy_made howner) (fun h => hkind (htype.mp h)) ?_
      exact halloc.extends.home hfits.ordered hfits.owner_lt hfits.home
  · intro type hbodyType
    split at hbodyType
    · cases hbodyType
      exact hbase
    · exact hfits.body_le type hbodyType

/-- An item of a level and kind can be made in a place: types have no items yet, belong to programs and procedures, and
they and only they are entered among the types; what is redefined can be redefined by the level. -/
structure Accepts (d : Declarations) (base : Nat) (place : Placement) (owner : SymbolId) (level : Level)
    (kind : ItemKind) : Prop where
  fits : d.Fits base place owner
  typable : kind.symbolKind ≠ .renames
  items : ∀ restriction items, kind = .typeDefinition restriction items → items = []
  type : kind.isType = true → (d.table.get owner).kind.isProgramLike = true
  slot : ∀ ref, place.parent = some ref → ((∃ o, ref = .slot o .types) ↔ kind.isType = true)
  redefined : ∀ target, kind = .redefines (some target) → d.table.Redefinable (some level) target

/-- An item that is no type definition, placed in a scope that holds no types. -/
theorem Fits.accepts {place : Placement} {owner : SymbolId} (h : d.Fits base place owner)
    (hslot : ∀ o, place.parent ≠ some (.slot o .types)) (level : Level) {kind : ItemKind}
    (hkind : kind.isType = false ∧ kind.symbolKind ≠ .renames)
    (hredefined : ∀ target, kind = .redefines (some target) → d.table.Redefinable (some level) target) :
    d.Accepts base place owner level kind where
  fits := h
  typable := hkind.2
  redefined := hredefined
  items restriction items heq := by
    subst heq
    cases hkind.1
  type htype := by
    rw [hkind.1] at htype
    cases htype
  slot ref hparent := by
    refine ⟨fun ⟨o, ho⟩ => ?_, fun htype => ?_⟩
    · subst ho
      exact absurd hparent (hslot o)
    · rw [hkind.1] at htype
      cases htype

section Accepts

variable {place : Placement} {owner : SymbolId} {kind : ItemKind} {level : Level} {entry : DataEntry}
  {fields : Placement → Declarations → Forest × Declarations}

theorem Accepts.fresh (h : d.Accepts base place owner level kind) (entry : DataEntry) :
    (d.itemSymbol entry kind place).Fresh := by
  refine Fresh.item rfl rfl (.inl rfl) rfl h.items fun f hf => ?_
  have hflags : (d.itemSymbol entry kind place).flags = kindFlags entry kind ∪ d.placeFlags (some entry) place _ := rfl
  rw [hflags, FlagSet.has_union, d.avoids_placeFlags (some entry) place _ f hf, Bool.or_false, has_kindFlags entry kind hf]

theorem Accepts.alloc_moves (h : d.Accepts base place owner entry.level kind) :
    Moves base old parent d (d.alloc (d.itemSymbol entry kind place)).2 := by
  refine (Move.alloc d _ owner (h.fresh entry)
    (joins_item rfl h.fits.owner_eq h.fits.owner_lt h.fits.base_le h.type) fun target htarget => ?_).moves
  refine h.redefined target ?_
  cases kind with
  | redefines found => exact congrArg ItemKind.redefines htarget
  | _ => cases htarget

theorem get_alloc_itemSymbol (entry : DataEntry) (kind : ItemKind) (place : Placement) :
    (d.alloc (d.itemSymbol entry kind place)).2.table.get d.table.size = d.itemSymbol entry kind place :=
  get_alloc_self d.table _

theorem type_alloc_itemSymbol (entry : DataEntry) (kind : ItemKind) (place : Placement) :
    ((d.alloc (d.itemSymbol entry kind place)).2.table.get d.table.size).type = none := by
  rw [get_alloc_itemSymbol]
  rfl

section

variable (h : d.Accepts base place owner entry.level kind)
include h

theorem Accepts.underway :
    (d.alloc (d.itemSymbol entry kind place)).2.Underway base d.table.size
      (if kind.isType then some d.table.size else place.typeBody) := by
  have halloc : Moves base d.table.size none d (d.alloc (d.itemSymbol entry kind place)).2 := h.alloc_moves
  refine underway_alloc h.fits rfl ?_ h.fits.owner_eq halloc
  rw [kind_of_item rfl]
  exact h.typable

section

variable (hext : (d.alloc (d.itemSymbol entry kind place)).2.table.Extends d'.table)
include hext

/-- What is known of a new item stays known while its type is made. -/
theorem Accepts.isType_iff :
    d'.table.IsType d.table.size ↔ kind.isType = true := by
  unfold IsType
  rw [hext.kind (h.underway).lt, get_alloc_itemSymbol, kind_of_item rfl]
  exact symbolKind_eq_typeDefinition kind

theorem Accepts.owner_eq :
    (d'.table.get d.table.size).owner = some owner := by
  rw [hext.owner (h.underway).lt, get_alloc_itemSymbol]
  exact h.fits.owner_eq

theorem Accepts.enterable (ref : ScopeRef)
    (hparent : place.parent = some ref) : d'.Enterable base d.table.size kind.isType ref := by
  have href := h.fits.owner_of_parent hparent
  refine ⟨?_, href ▸ h.fits.base_le, h.slot ref hparent⟩
  rw [h.owner_eq hext, href]

end

/-- What is made after the symbol of an item leaves the symbols that exist alone, except that the item is entered into its
scope. -/
theorem content_moves (children : Forest)
    (hfields : FieldsMove base d.table.size (if kind.isType then some d.table.size else place.typeBody) fields) :
    Moves base d.table.size place.parent (d.alloc (d.itemSymbol entry kind place)).2
      (d.declareItem entry kind place children fields).2.2 := by
  have hunder := h.underway
  have hnone := type_alloc_itemSymbol (d := d) entry kind place
  have hcontent : Moves base d.table.size none (d.alloc (d.itemSymbol entry kind place)).2
      ((d.alloc (d.itemSymbol entry kind place)).2.declareContent d.table.size entry
        (if kind.isType then some d.table.size else place.typeBody) children fields).2 :=
    declareContent_moves hunder le_rfl hnone entry children hfields
  have hunder' := hunder.moves hcontent
  refine (hcontent.weaken le_rfl nofun).trans
    (enterItem_moves hunder'.ordered hunder'.lt le_rfl ?_ ?_ _)
  · exact h.isType_iff hcontent.extends
  · exact h.enterable hcontent.extends

theorem declareItem_moves (children : Forest)
    (hfields : FieldsMove base d.table.size (if kind.isType then some d.table.size else place.typeBody) fields) :
    Moves base d.table.size place.parent d (d.declareItem entry kind place children fields).2.2 :=
  (h.alloc_moves).trans (content_moves h children hfields)

end

theorem declarePlain_moves (hfits : d.Fits base place owner) (hslot : ∀ o, place.parent ≠ some (.slot o .types))
    (hkind : kind.isType = false ∧ kind.symbolKind ≠ .renames)
    (hredefined : ∀ target, kind = .redefines (some target) → d.table.Redefinable (some entry.level) target)
    (children : Forest) (hfields : FieldsMove base d.table.size place.typeBody fields) :
    Moves base d.table.size place.parent d (d.declareItem entry kind place children fields).2.2 := by
  refine declareItem_moves (hfits.accepts hslot _ hkind hredefined) children ?_
  simpa only [hkind.1, Bool.false_eq_true, if_false] using hfields

end Accepts

theorem lt_size_enterPlaced (s : Symbol) (place : Placement) :
    d.table.size < ((d.alloc (d.placed none place s)).2.enterIn d.table.size place.parent).table.size := by
  have hlt := d.lt_size_alloc (d.placed none place s)
  cases place.parent with
  | none => exact hlt
  | some ref => exact hlt.trans_eq (size_enter _ ref _).symm

theorem isType_of_declares {kind : ItemKind} (h : kind.declares = fun _ => false) : kind.isType = false := by
  cases kind with
  | typeDefinition restriction items =>
    have hflag := congrFun h restriction.flag
    simp [ItemKind.declares] at hflag
  | _ => rfl

theorem redefined?_of_declares (hbody : s.body = .item data)
    (hkind : data.kind.declares = fun _ => false) : s.redefined? = none := by
  unfold Symbol.redefined? Symbol.item?
  rw [hbody]
  cases hcase : data.kind with
  | redefines target =>
    rw [hcase] at hkind
    cases congrFun hkind .redefines
  | _ => simp [hcase]

/-- The symbol of a level-66 or level-88 entry, before it is placed. -/
structure Detail (s : Symbol) (data : ItemData) : Prop where
  body : s.body = .item data
  declares : data.kind.declares = fun _ => false
  noIndex : s.kind ≠ .index
  unslotted : data.variableSlot = none
  flags : s.flags = ∅
  type : s.type = none ∨ s.type = some .condition
  suited : s.isSuited = true

section Detail

variable {place : Placement} {owner : SymbolId} (hs : Detail s data)
include hs

theorem Detail.kind_eq : s.kind = data.kind.symbolKind := kind_of_item hs.body

theorem Detail.isType_eq : data.kind.isType = false := isType_of_declares hs.declares

theorem Detail.kind_ne : s.kind ≠ .typeDefinition := by
  rw [hs.kind_eq, Ne, symbolKind_eq_typeDefinition, hs.isType_eq]
  exact Bool.false_ne_true

theorem Detail.fields?_eq : s.fields? = none := by
  unfold Symbol.fields?
  rcases hs.type with h | h <;> rw [h] <;> rfl

theorem fresh_placed : (d.placed none place s).Fresh := by
  refine Fresh.item hs.body hs.suited (hs.type.imp_right .inr) hs.unslotted (fun restriction items heq => ?_) fun f hf => ?_
  · have hplain := hs.isType_eq
    rw [heq] at hplain
    cases hplain
  · have hplaced : (d.placed none place s).flags = s.flags ∪ d.placeFlags none place s.kind := rfl
    rw [hplaced, hs.flags, FlagSet.has_union, FlagSet.has_empty, d.avoids_placeFlags none place s.kind f hf, hs.declares]
    rfl

theorem placeItem_moves (hfits : d.Fits base place owner) (hslot : ∀ o, place.parent ≠ some (.slot o .types)) :
    Moves base d.table.size place.parent d (d.placeItem s place).2 := by
  have hfresh : (d.placed none place s).Fresh := fresh_placed hs
  have hbody : (d.placed none place s).body = .item data := hs.body
  have hplain := redefined?_of_declares hbody hs.declares
  have hkind := hs.isType_eq
  have hjoins : d.table.Joins base (d.placed none place s) owner := by
    refine joins_item hbody hfits.owner_eq hfits.owner_lt hfits.base_le fun h => ?_
    rw [hkind] at h
    cases h
  have hmade : Moves base d.table.size place.parent d
      ((d.alloc (d.placed none place s)).2.enterIn d.table.size place.parent) := by
    cases hparent : place.parent with
    | none =>
      exact (Move.alloc d _ owner hfresh hjoins fun _ htarget => absurd (hplain.symm.trans htarget) nofun).moves
    | some ref =>
      have howner : ref.owner = owner := hfits.owner_of_parent hparent
      refine alloc_enterIn_moves hfresh hplain hjoins (.inl rfl) le_rfl (howner ▸ hfits.owner_lt) (.inr howner) ?_
      refine ⟨fun ⟨o, ho⟩ => absurd (ho ▸ hparent) (hslot o), fun h => ?_⟩
      rw [kind_of_item hbody, symbolKind_eq_typeDefinition, hkind] at h
      cases h
  exact hmade.trans (storeVariable_moves le_rfl (lt_size_enterPlaced s place) place.typeBody)

end Detail

theorem lt_size_placeItem (s : Symbol) (place : Placement) : d.table.size < (d.placeItem s place).2.table.size := by
  have hstored : Moves 0 0 none ((d.alloc (d.placed none place s)).2.enterIn d.table.size place.parent)
      (d.placeItem s place).2 := storeVariable_moves (Nat.zero_le _) (lt_size_enterPlaced s place) place.typeBody
  exact (lt_size_enterPlaced s place).trans_le hstored.extends.size_le

theorem redefinesTarget_told (entry : RedefinesEntry) (ref : Option ScopeRef) :
    c.Told (c.redefinesTarget entry ref).2 := by
  unfold Context.redefinesTarget
  cases ref with
  | none => exact c.told_push rfl _ _
  | some ref =>
    simp only
    split
    · exact .refl c
    · rename_i fault _
      exact c.told_push (by cases fault <;> rfl) _ _

/-- What the search finds can be redefined by the level. -/
theorem redefinable_of_redefined {level : Level}
    (h : t.redefined ref level name = .ok target) : t.Redefinable (some level) target := by
  unfold Table.redefined at h
  split at h
  · cases h
  split at h
  · cases h
  rename_i scope _ candidate others _
  simp only at h
  split at h
  · split at h
    · rename_i hlevel
      cases h
      exact .inr hlevel
    · cases h
  · split at h
    · cases h
    · split at h
      · rename_i hcontains
        cases h
        exact .inl (List.all_eq_true.mp List.all_takeWhile _ (List.contains_iff_mem.mp hcontains))
      · cases h

theorem redefinable_of_redefinesTarget {entry : RedefinesEntry} {ref : Option ScopeRef}
    (h : ItemKind.redefines (d.redefinesTarget entry ref).1 = .redefines (some target)) :
    (d.redefinesTarget entry ref).2.table.Redefinable (some entry.entry.level) target := by
  have htable : (d.redefinesTarget entry ref).2.table = d.table := (redefinesTarget_told entry ref).table
  rw [htable]
  have h := ItemKind.redefines.inj h
  unfold Declarations.redefinesTarget Context.redefinesTarget at h
  cases ref with
  | none => cases h
  | some r =>
    simp only at h
    split at h
    · rename_i hfound
      cases h
      exact redefinable_of_redefined hfound
    · cases h

section Nodes

variable (d : Declarations) (node : Node) (place : Placement) (children : Forest)
  (fields : Placement → Declarations → Forest × Declarations)

/-- What becomes of a node: nothing is made, or an item of an entry with clauses, or a level-66 or level-88 item. -/
inductive NodeMade : Option SymbolId × Forest × Declarations → Prop
  | nothing (h : node.isDefinition = true → (∃ entry, node.kind = .typeDefinition entry) ∧ place.typeBody = none) :
      NodeMade (none, children, d)
  | item (c : Context) (entry : DataEntry) (kind : ItemKind) (htold : d.context.Told c)
      (hdef : node.isDefinition = true) (hentry : node.kind.definition?.bind (·.entry) = some entry)
      (halone : node.kind.standsAlone = false) (htype : place.typeBody.isSome = true ∨ node.kind.isTypeDefinition = false)
      (hkind : kind.isType = false ∧ kind.symbolKind ≠ .renames) (hindex : ∀ id, kind ≠ .index id)
      (hredefined : ∀ target, kind = .redefines (some target) → c.table.Redefinable (some entry.level) target)
      {made : SymbolId × Forest × Declarations}
      (hmade : made = ({ d with context := c } : Declarations).declareItem entry kind place children fields) :
      NodeMade (some made.1, made.2.1, made.2.2)
  | alone (s : Symbol) (data : ItemData) (hs : Detail s data) (hdef : node.isDefinition = true)
      (halone : node.kind.standsAlone = true) (pending : List (SymbolId × RenamesEntry))
      (hpending : ∀ waiting ∈ pending, waiting ∈ (d.placeItem s place).2.pendingRenames ∨ waiting.1 = d.table.size) :
      NodeMade (some (d.placeItem s place).1, children, { (d.placeItem s place).2 with pendingRenames := pending })

theorem nodeMade : NodeMade d node place children fields (d.declareNode node place children fields) := by
  have hdef : node.isDefinition = node.kind.definition?.isSome := rfl
  unfold declareNode
  cases hkind : node.kind with
  | typeDefinition entry =>
    simp only
    split
    · rename_i hbody
      exact .nothing fun _ => ⟨⟨entry, hkind⟩, Option.isNone_iff_eq_none.mp hbody⟩
    · rename_i hbody
      refine .item d.context entry .plain (.refl _) (by rw [hdef, hkind]; rfl) (by rw [hkind]; rfl) (by rw [hkind]; rfl)
        (.inl ?_) ⟨rfl, nofun⟩ nofun nofun rfl
      exact Option.isSome_iff_ne_none.mpr fun hnone => hbody (by rw [hnone]; rfl)
  | data entry | parameter entry direction =>
    exact .item d.context entry .plain (.refl _) (by rw [hdef, hkind]; rfl) (by rw [hkind]; rfl) (by rw [hkind]; rfl)
      (.inr (by rw [hkind]; rfl)) ⟨rfl, nofun⟩ nofun nofun rfl
  | redefines entry =>
    exact .item _ entry.entry (.redefines _) (redefinesTarget_told entry place.parent) (by rw [hdef, hkind]; rfl)
      (by rw [hkind]; rfl) (by rw [hkind]; rfl) (.inr (by rw [hkind]; rfl)) ⟨rfl, nofun⟩ nofun
      (fun _ => redefinable_of_redefinesTarget) rfl
  | renames entry =>
    have hs : Detail (renamesSymbol entry) _ := ⟨rfl, rfl, nofun, rfl, rfl, .inl rfl, rfl⟩
    refine .alone _ _ hs (by rw [hdef, hkind]; rfl) (by rw [hkind]; rfl) _ fun waiting hwaiting => ?_
    exact (List.mem_append.mp hwaiting).imp_right fun h => congrArg Prod.fst (List.mem_singleton.mp h)
  | condition entry =>
    have hs : Detail (conditionSymbol entry) _ := ⟨rfl, rfl, nofun, rfl, rfl, .inr rfl, rfl⟩
    exact .alone _ _ hs (by rw [hdef, hkind]; rfl) (by rw [hkind]; rfl) _ fun _ => .inl
  | _ => exact .nothing fun h => by rw [hdef, hkind] at h; cases h

end Nodes

/-- A node makes moves among new symbols. -/
theorem declareNode_moves {place : Placement} {owner : SymbolId} (hfits : d.Fits base place owner)
    (hslot : ∀ o, place.parent ≠ some (.slot o .types)) (node : Node) (children : Forest)
    (hfields : FieldsMove base d.table.size place.typeBody fields) :
    Moves base d.table.size place.parent d (d.declareNode node place children fields).2.2 := by
  have hnode := d.nodeMade node place children fields
  generalize d.declareNode node place children fields = made at hnode ⊢
  cases hnode with
  | nothing => exact Moves.refl d
  | item c entry kind htold _ _ _ _ hkind _ hredefined hmade =>
    have htarget : Moves base d.table.size place.parent d { d with context := c } := told_moves htold
    have hsize : c.table.size = d.table.size := congrArg Table.size htold.table
    have hitem := declarePlain_moves (hfits.moves htarget) hslot hkind hredefined children (hsize.symm ▸ hfields)
    exact htarget.trans (hmade ▸ hsize ▸ hitem)
  | alone s data hs _ _ pending hpending =>
    refine (placeItem_moves hs hfits hslot).trans (Move.note _ _ _ fun waiting hwaiting => ?_).moves
    refine (hpending waiting hwaiting).imp_right fun heq => ?_
    rw [heq]
    exact ⟨hfits.base_le.trans hfits.owner_lt.le, lt_size_placeItem _ place⟩

/-- Making the symbols of the definitions on top of a forest leaves the symbols that exist alone, except that the
definitions are entered into their scope. -/
theorem fieldsMove_declareFields (forest : Forest) (id : SymbolId) (typeBody : Option SymbolId) :
    FieldsMove base id typeBody fun place d => declareFields forest place d := by
  induction forest generalizing id typeBody with
  | nil => exact fun d _ => Moves.refl d
  | cons node children siblings ihChildren ihSiblings =>
    intro d hunder
    have hnode := declareNode_moves hunder.fits (by simp) node children (ihChildren _ _)
    have hsiblings := ihSiblings id typeBody _ (hunder.moves hnode)
    exact hnode.trans (hsiblings.weaken hnode.extends.size_le fun ref href => .inl href)

/-- The innermost scope is a program or procedure of the unit that lies in no type. -/
structure Scoped (d : Declarations) (base : Nat) (scope : SymbolId) : Prop where
  ordered : d.table.Ordered
  current : d.currentScope = some scope
  lt : scope < d.table.size
  base_le : base ≤ scope
  kind : (d.table.get scope).kind.isProgramLike = true
  outside : d.table.Home scope none

/-- The scope into which the symbols of a record are entered. -/
def topParent (d : Declarations) (tree : Tree) (scope : SymbolId) : Option ScopeRef :=
  match tree.node.kind with
  | .typeDefinition _ => some (.slot scope .types)
  | _ => d.storage.map fun kept => .slot scope (StorageSection.slot kept)

section

variable (h : d.Scoped base scope)
include h

theorem Scoped.moves (hmoves : Moves base old parent d d') : d'.Scoped base scope where
  ordered := hmoves.ordered h.ordered
  current := by rw [hmoves.currentScope, h.current]
  lt := h.lt.trans_le hmoves.extends.size_le
  base_le := h.base_le
  kind := by rw [hmoves.extends.kind h.lt, h.kind]
  outside := hmoves.extends.home h.ordered h.lt h.outside

/-- Items are placed in the scopes of the innermost program or procedure. -/
theorem Scoped.fits {ref : Option ScopeRef}
    (href : ∀ r, ref = some r → ∃ slot, r = .slot scope slot) : d.Fits base ⟨ref, none⟩ scope := by
  refine ⟨h.ordered, ?_, h.lt, h.base_le, h.outside, fun type htype => by cases htype⟩
  cases ref with
  | none => exact h.current
  | some r =>
    obtain ⟨slot, rfl⟩ := href r rfl
    rfl

/-- The types of a program or procedure can be made in it. -/
theorem Scoped.accepts_type (level : Level) (restriction : Restriction) :
    d.Accepts base ⟨some (.slot scope .types), none⟩ scope level (.typeDefinition restriction []) where
  fits := h.fits fun r hr => ⟨.types, (Option.some.inj hr).symm⟩
  typable := nofun
  redefined := nofun
  items restriction items heq := by
    cases heq
    rfl
  type _ := h.kind
  slot ref hparent := by
    cases hparent
    exact ⟨fun _ => rfl, fun _ => ⟨scope, rfl⟩⟩

end

theorem topParent_of_type (h : tree.node.kind = .typeDefinition entry)
    (scope : SymbolId) : d.topParent tree scope = some (.slot scope .types) := by
  unfold topParent
  simp only [h]

theorem topParent_of_item (h : ∀ entry, tree.node.kind ≠ .typeDefinition entry) (scope : SymbolId) :
    d.topParent tree scope = d.storage.map fun kept => .slot scope (StorageSection.slot kept) := by
  unfold topParent
  split
  · rename_i entry hkind
    exact absurd hkind (h entry)
  · rfl

theorem declareTop_of_type (h : tree.node.kind = .typeDefinition entry)
    (scope : SymbolId) : d.declareTop tree scope = d.declareType tree.node entry scope tree.children := by
  unfold declareTop
  simp only [h]

section

variable (h : ∀ entry, tree.node.kind ≠ .typeDefinition entry)
include h

/-- A record that is no type is placed in the storage section being read. -/
theorem declareTop_of_item (scope : SymbolId) :
    d.declareTop tree scope =
      (⟨bindIfMade tree.node (d.declareNode tree.node ⟨d.topParent tree scope, none⟩ tree.children
          fun place d => declareFields tree.children place d).1,
        (d.declareNode tree.node ⟨d.topParent tree scope, none⟩ tree.children
          fun place d => declareFields tree.children place d).2.1⟩,
      (d.declareNode tree.node ⟨d.topParent tree scope, none⟩ tree.children
        fun place d => declareFields tree.children place d).2.2) := by
  rw [topParent_of_item h]
  unfold declareTop
  split
  · rename_i entry hkind
    exact absurd hkind (h entry)
  · rfl

theorem topParent_eq_slot
    (href : d.topParent tree scope = some ref) : ∃ kept : StorageSection, ref = .slot scope kept.slot := by
  rw [topParent_of_item h] at href
  obtain ⟨kept, _, heq⟩ := map_eq_some_iff.mp href
  exact ⟨kept, heq.symm⟩

theorem topParent_ne_types (scope o : SymbolId) : d.topParent tree scope ≠ some (.slot o .types) := by
  intro heq
  obtain ⟨kept, hkept⟩ := topParent_eq_slot h heq
  cases kept <;> simp [StorageSection.slot] at hkept

end

theorem Scoped.fits_linkage (h : d.Scoped base scope) : d.Fits base ⟨some (.slot scope .linkage), none⟩ scope :=
  h.fits fun _ hr => ⟨.linkage, (Option.some.inj hr).symm⟩

/-- A record that is no type fits into the innermost program or procedure. -/
theorem Scoped.fits_top (h : d.Scoped base scope) (hkind : ∀ entry, tree.node.kind ≠ .typeDefinition entry) :
    d.Fits base ⟨d.topParent tree scope, none⟩ scope := by
  refine h.fits fun r hr => ?_
  obtain ⟨kept, heq⟩ := topParent_eq_slot hkind hr
  exact ⟨kept.slot, heq⟩

theorem declareTop_moves (h : d.Scoped base scope) (tree : Tree) :
    Moves base d.table.size (d.topParent tree scope) d (d.declareTop tree scope).2 := by
  by_cases htype : ∃ entry, tree.node.kind = .typeDefinition entry
  · obtain ⟨entry, hkind⟩ := htype
    rw [topParent_of_type hkind, declareTop_of_type hkind]
    exact declareItem_moves (h.accepts_type _ _) tree.children (fieldsMove_declareFields tree.children _ _)
  · have hkind : ∀ entry, tree.node.kind ≠ .typeDefinition entry := fun entry heq => htype ⟨entry, heq⟩
    rw [declareTop_of_item hkind]
    exact declareNode_moves (h.fits_top hkind) (topParent_ne_types hkind scope) tree.node tree.children
      (fieldsMove_declareFields tree.children _ _)

theorem checkForward_told {entry : RenamesEntry} {own : Nat} {found : List (Nat × Reference)} {c c' : Context}
    {good : Bool} (h : c.checkForward entry own found = (good, c')) : c.Told c' := by
  induction found generalizing c with
  | nil =>
    cases h
    exact .refl _
  | cons pair rest ih =>
    obtain ⟨index, reference⟩ := pair
    have hreport : c.Told (c.reportAt c.options.renamesForward (.renamesForward entry.name reference.name)
        reference.position) := c.told_reportAt _ rfl _
    unfold Context.checkForward at h
    split at h
    · exact ih h
    · simp only at h
      split at h
      · cases h
        exact hreport
      · exact hreport.trans (ih h)

theorem renamedItem_watched {reference : Reference} (h : c.renamedItem items name reference = .error problem) :
    problem.isWatched = false := by
  unfold Context.renamedItem at h
  simp only at h
  split at h
  · cases h
    rfl
  · split at h
    · cases h
    · cases h
      rfl
  · cases h
    rfl

theorem renamesRange_watched {entry : RenamesEntry} {range : RenamedRange}
    (h : t.renamesRange items entry range = .error problem) : problem.isWatched = false := by
  unfold Table.renamesRange at h
  simp only at h
  split at h
  · cases h
    rfl
  · split at h
    · cases h
      rfl
    · cases h

/-- Checking a level-66 item reports problems and keeps the range of the item when it is good. -/
theorem validateRenames_cases (c : Context) (id : SymbolId) (entry : RenamesEntry) :
    ∃ reported : Context, reported.table = c.table ∧ reported.options = c.options ∧ reported.watched = c.watched ∧
      (c.validateRenames id entry = reported ∨
        ∃ range, c.validateRenames id entry = reported.modify id (Symbol.mapItem (ItemData.setRange range))) := by
  refine Exists.imp (p := fun reported => c.Told reported ∧ _)
    (fun reported h => ⟨h.1.table, h.1.options, h.1.watched, h.2⟩) ?_
  unfold Context.validateRenames
  simp only
  split
  · exact ⟨_, c.told_push rfl _ _, .inl rfl⟩
  · split
    · exact ⟨c, .refl c, .inl rfl⟩
    · split
      · rename_i hfirst
        exact ⟨_, c.told_push (renamedItem_watched hfirst) _ _, .inl rfl⟩
      · rename_i first hfirst
        split
        · rename_i reference problem hthru
          refine ⟨_, c.told_push ?_ _ _, .inl rfl⟩
          obtain ⟨thru, _, hpair⟩ := map_eq_some_iff.mp hthru
          exact renamedItem_watched (Prod.mk.inj hpair).2
        · split
          · rename_i c' hforward
            exact ⟨c', checkForward_told hforward, .inl rfl⟩
          · rename_i c' hforward
            have htold := checkForward_told hforward
            split
            · rename_i problem hrange
              exact ⟨_, htold.trans (c'.told_push (renamesRange_watched hrange) _ _), .inl rfl⟩
            · rename_i range hrange
              exact ⟨c', htold, .inr ⟨range, rfl⟩⟩

/-- Level-66 entries that wait are checked: problems are reported, and items get their ranges. -/
inductive Checks (d : Declarations) : Declarations → Prop
  | refl : Checks d d
  | report {d' : Declarations} (h : Checks d d') (c : Context) (htold : d'.context.Told c) :
      Checks d { d' with context := c }
  | range {d' : Declarations} (h : Checks d d') (pair : SymbolId × RenamesEntry) (hpair : pair ∈ d.pendingRenames)
      (range : RenamesRange) : Checks d (d'.modify pair.1 (Symbol.mapItem (ItemData.setRange range)))

theorem Checks.validate (h : Checks d d') (pair : SymbolId × RenamesEntry) (hpair : pair ∈ d.pendingRenames) :
    Checks d { d' with context := d'.context.validateRenames pair.1 pair.2 } := by
  obtain ⟨reported, htable, hoptions, hwatched, hresult⟩ := validateRenames_cases d'.context pair.1 pair.2
  have hreported := h.report reported ⟨htable, hoptions, hwatched⟩
  rcases hresult with heq | ⟨range, heq⟩
  · rw [heq]
    exact hreported
  · rw [heq]
    exact hreported.range pair hpair range

theorem checkRenames_checks (d : Declarations) : Checks d d.checkRenames := by
  have hfold : ∀ (pending : List (SymbolId × RenamesEntry)) (c : Context), (∀ pair ∈ pending, pair ∈ d.pendingRenames) →
      Checks d { d with context := c } →
        Checks d { d with context := pending.foldl (fun c pair => Context.validateRenames c pair.1 pair.2) c } := by
    intro pending
    induction pending with
    | nil => exact fun _ _ h => h
    | cons pair rest ih =>
      intro c hpending h
      obtain ⟨hpair, hrest⟩ := List.forall_mem_cons.mp hpending
      exact ih _ hrest (h.validate pair hpair)
  exact hfold d.pendingRenames d.context (fun _ => id) .refl

theorem Checks.moves (h : Checks d d')
    (hpending : ∀ entry ∈ d.pendingRenames, base ≤ entry.1 ∧ entry.1 < d.table.size) : Moves base old parent d d' := by
  induction h with
  | refl => exact Moves.refl d
  | report _ c htold ih => exact ih.trans (told_moves htold)
  | range _ pair hpair range ih =>
    obtain ⟨hbase, hlt⟩ := hpending pair hpair
    exact ih.trans (Move.setRange _ pair.1 range hbase (hlt.trans_le ih.extends.size_le)).moves

theorem clearRenames_moves (d : Declarations) : Moves base old parent d d.clearRenames :=
  (Move.note d d.storage [] nofun).moves

theorem declareRecord_of_some (h : d.currentScope = some scope) (tree : Tree) :
    d.declareRecord tree = ((d.clearRenames.declareTop tree scope).1,
      (d.clearRenames.declareTop tree scope).2.checkRenames.clearRenames) := by
  have hcurrent : d.clearRenames.currentScope = some scope := h
  unfold declareRecord
  simp only [hcurrent]

/-- Making the symbols of a record leaves the symbols that exist alone, except that the record is entered into the scope
of the storage section being read. -/
theorem declareRecord_moves (h : d.Scoped base scope) (tree : Tree) :
    Moves base d.table.size (d.topParent tree scope) d (d.declareRecord tree).2 := by
  have hclear : Moves base d.table.size (d.topParent tree scope) d d.clearRenames := clearRenames_moves d
  have hscoped := h.moves hclear
  have htop := declareTop_moves hscoped tree
  rw [declareRecord_of_some h.current]
  exact ((hclear.trans htop).trans ((checkRenames_checks _).moves (htop.pendingRenames nofun))).trans (clearRenames_moves _)

theorem addFlags_moves (hbase : base ≤ id) (hlt : id < d.table.size) {flags : SymbolFlags}
    (hpassing : flags.Avoids fun f => !f.tellsPassing) : Moves base old parent d (d.addFlags id flags) :=
  (Move.addFlags d id flags (.inl ⟨hbase, hlt⟩) hpassing).moves

/-- A parameter of a procedure is made like any item. -/
theorem parameter_moves (h : d.Scoped base scope) (entry : DataEntry) (children : Forest) :
    Moves base d.table.size (some (.slot scope .linkage)) d
        (d.declareItem entry .plain ⟨some (.slot scope .linkage), none⟩ children
          fun place d => declareFields children place d).2.2 ∧
      d.table.size < (d.declareItem entry .plain ⟨some (.slot scope .linkage), none⟩ children
        fun place d => declareFields children place d).2.2.table.size := by
  have haccepts : d.Accepts base ⟨some (.slot scope .linkage), none⟩ scope entry.level .plain :=
    h.fits_linkage.accepts (by simp) _ ⟨rfl, nofun⟩ nofun
  have hfields : FieldsMove base d.table.size none _ := fieldsMove_declareFields children _ _
  exact ⟨declareItem_moves haccepts children hfields,
    haccepts.underway.lt.trans_le (content_moves haccepts children hfields).extends.size_le⟩

theorem declareParameters_moves (forest : Forest) (signature : Signature) (d : Declarations)
    (h : d.Scoped base scope) (hold : old ≤ d.table.size) :
    Moves base old (some (.slot scope .linkage)) d
      (declareParameters (.slot scope .linkage) forest signature d).2.2 := by
  induction forest generalizing signature d with
  | nil => exact Moves.refl d
  | cons node children siblings _ ih =>
    unfold declareParameters
    split
    · rename_i entry direction _
      obtain ⟨hitem, hlt⟩ := parameter_moves h entry children
      have hitem' := hitem.weaken hold fun ref href => .inl href
      have hbase : base ≤ d.table.size := h.base_le.trans h.lt.le
      have hflagged := hitem'.trans (addFlags_moves hbase hlt (avoids_parameterFlag direction))
      exact hflagged.trans (ih _ _ (h.moves hflagged) (hold.trans hflagged.extends.size_le))
    · exact ih signature d h hold

/-- The parameters of a program are found: what is missing is reported, and items of the linkage section get flags. -/
inductive Resolves (scope : SymbolId) (d : Declarations) : Declarations → Prop
  | refl : Resolves scope d d
  | report {d' : Declarations} (h : Resolves scope d d') (c : Context) (htold : d'.context.Told c) :
      Resolves scope d { d' with context := c }
  | flag {d' : Declarations} (h : Resolves scope d d') (id : SymbolId) (flags : SymbolFlags)
      (hfound : d'.table.Finds (.slot scope .linkage) id) (hpassing : flags.Avoids fun f => !f.tellsPassing) :
      Resolves scope d (d'.addFlags id flags)

theorem Resolves.moves (h : Resolves scope d d') (hbase : base ≤ scope) : Moves base old parent d d' := by
  induction h with
  | refl => exact Moves.refl d
  | report _ c htold ih => exact ih.trans (told_moves htold)
  | flag _ id flags hfound hpassing ih =>
    exact ih.trans (Move.addFlags _ id flags (.inr ⟨scope, hbase, hfound⟩) hpassing).moves

theorem finds_addFlags (h : d.table.Finds ref id) (other : SymbolId)
    (flags : SymbolFlags) : (d.addFlags other flags).table.Finds ref id := by
  obtain ⟨list, name, hlist, hmem⟩ := h
  refine ⟨list, name, ?_, hmem⟩
  rw [← hlist]
  cases ref with
  | slot owner slot => exact view_modify (fun s => s.scope? slot) rfl owner
  | fields owner => exact view_modify Symbol.fields? rfl owner

/-- An item that a parameter names is found in the linkage section. -/
theorem Resolves.parameter (h : Resolves scope d d') (parameter : CallParameter) :
    Resolves scope d (d'.resolveParameter scope parameter).2 ∧ ∀ id, (d'.resolveParameter scope parameter).1 = some id →
      (d'.resolveParameter scope parameter).2.table.Finds (.slot scope .linkage) id := by
  unfold resolveParameter
  simp only
  split
  · exact ⟨h.report _ (d'.context.told_reportAt _ rfl _), nofun⟩
  · rename_i id hfound
    obtain ⟨linkage, hlinkage, hhead⟩ := bind_eq_some_iff.mp hfound
    have hfinds : d'.table.Finds (.slot scope .linkage) id := ⟨linkage, _, hlinkage, List.mem_of_mem_head? hhead⟩
    refine ⟨h.flag id _ hfinds (avoids_passingFlags parameter), fun other hother => ?_⟩
    cases hother
    exact finds_addFlags hfinds id _

theorem Resolves.parameters (parameters : List CallParameter) (h : Resolves scope d d') :
    Resolves scope d (resolveParameters scope parameters d').2 := by
  induction parameters generalizing d' with
  | nil => exact h
  | cons parameter rest ih => exact ih (h.parameter parameter).1

theorem Resolves.returning (h : Resolves scope d d') (reference : Option Reference) :
    Resolves scope d (d'.resolveReturning scope reference).2 := by
  cases reference with
  | none => exact h
  | some reference =>
    have hfound := h.parameter { target := reference }
    unfold resolveReturning
    simp only
    split
    · rename_i heq
      rw [heq] at hfound
      exact hfound.1
    · rename_i id _ heq
      rw [heq] at hfound
      exact hfound.1.flag id _ (hfound.2 id rfl) (avoids_single rfl)

/-- The procedure division of a program gives it its signature; other procedure divisions change nothing. -/
theorem startProcedureDivision_cases (d : Declarations) (header : ProcedureHeader) :
    d.startProcedureDivision header = { d with storage := none } ∨
      ∃ scope found signature, d.currentScope = some scope ∧ (d.table.get scope).kind = .program ∧
        Resolves scope { d with storage := none } found ∧
        d.startProcedureDivision header = found.setSignature scope signature := by
  unfold startProcedureDivision
  simp only
  split
  · exact .inl rfl
  · rename_i scope hscope
    split
    · exact .inl rfl
    · rename_i hkind
      refine .inr ⟨scope, _, _, hscope, ?_, (Resolves.refl.parameters header.parameters).returning header.returning, rfl⟩
      exact Decidable.of_not_not fun hne => hkind (bne_iff_ne.mpr hne)

section

variable (h : d.currentScope = none)
include h

/-- Outside of programs and procedures a record makes no symbols. -/
theorem declareRecord_of_none (tree : Tree) : d.declareRecord tree = (tree, d.clearRenames) := by
  unfold declareRecord
  have hclear : d.clearRenames.currentScope = none := h
  simp only [hclear]

theorem startProcedureDivision_of_none (header : ProcedureHeader) :
    d.startProcedureDivision header = { d with storage := none } := by
  have hnone : ({ d with storage := none } : Declarations).currentScope = none := h
  unfold startProcedureDivision
  simp only [hnone]

theorem startHeading_of_none (heading : SectionHeading) : d.startHeading heading = (none, d) := by
  unfold startHeading
  simp only [h]

theorem startParagraph_of_none (heading : ParagraphHeading) : d.startParagraph heading = (none, d) := by
  unfold startParagraph
  simp only [h]

end

/-- A symbol that is no data item, before anything is added to it. -/
theorem fresh_of_body (htype : s.type = none ∨ s.type = some (.signature {}))
    (hbody : s.body = .heading ∨ (∃ h, s.body = .paragraph h) ∨ s.body = .program {} ∨ s.body = .procedure {})
    (hflags : s.flags.Avoids SymbolFlag.isTrait) : s.Fresh := by
  have hitem : s.item? = none := by rcases hbody with h | ⟨_, h⟩ | h | h <;> simp [Symbol.item?, h]
  constructor
  case suited =>
    rcases htype with htype | htype
    · rw [isSuited, htype]
      rfl
    · rw [isSuited, htype]
      rcases hbody with h | ⟨_, h⟩ | h | h <;> simp [suits, Symbol.kind, h, DataType.isRoomy, DataType.isCondition]
  case type => exact htype.imp_right fun h => .inr (.inr h)
  case rooted => rcases hbody with h | ⟨_, h⟩ | h | h <;> simp [Symbol.kind, h]
  case program =>
    intro data hdata
    rcases hbody with h | ⟨_, h⟩ | h | h <;>
      simp only [Symbol.program?, h, reduceCtorEq, Option.some.injEq] at hdata <;> exact hdata.symm
  case slot => simp [hitem]
  case typed => simp [Symbol.typedItems, hitem]
  case traits =>
    intro f hf
    simp [hflags f hf, Symbol.declares, hitem]

/-- A new program or procedure is entered among those of its owner and can be found by name. -/
theorem alloc_program_moves {owner : SymbolId} {slot : ScopeSlot} (hfresh : s.Fresh)
    (hjoins : d.table.Joins base s owner) (hkind : s.kind.isProgramLike = true) (hslot : slot ≠ .types) :
    Moves base d.table.size (some (.slot owner slot)) d
      (((d.alloc s).2.enterIn d.table.size (some (.slot owner slot))).registerProgram d.table.size) := by
  have hmade : Moves base d.table.size (some (.slot owner slot)) d
      ((d.alloc s).2.enterIn d.table.size (some (.slot owner slot))) := by
    have hplain : s.redefined? = none := eq_none_iff_forall_ne_some.mpr fun _ h => by
      rw [kind_of_redefined? h] at hkind
      cases hkind
    refine alloc_enterIn_moves hfresh hplain hjoins (.inl rfl) le_rfl hjoins.owner_lt (.inr rfl) ⟨?_, ?_⟩
    · rintro ⟨o, ho⟩
      cases ho
      exact absurd rfl hslot
    · intro htype
      rw [htype] at hkind
      cases hkind
  have hlt := d.lt_size_alloc s
  have hentered : (d.alloc s).2.table.Extends
      ((d.alloc s).2.enterIn d.table.size (some (.slot owner slot))).table :=
    Extends.enter (d.alloc s).2.table (.slot owner slot) d.table.size
  have hget := d.get_made s
  refine hmade.trans (Move.registerProgram _ d.table.size le_rfl ?_).moves
  rw [hentered.kind hlt, hget, hkind]

theorem fresh_procedureSymbol (header : DeclaredProcedure) (scope : SymbolId) : (procedureSymbol header scope).Fresh :=
  fresh_of_body (.inl rfl) (.inr (.inr (.inr rfl))) (avoids_single (by cases header.visibility <;> rfl))

theorem fresh_programSymbol (header : ProgramHeader) (owner : SymbolId) {place : SymbolFlag} (hplace : place.isTrait = false) :
    (programSymbol header owner place).Fresh := 
  fresh_of_body (.inr rfl) (.inr (.inr (.inl rfl))) (avoids_single hplace)

section

variable (h : d.Scoped base scope)
include h

/-- A procedure division changes flags and the signature of its program. -/
theorem startProcedureDivision_moves (header : ProcedureHeader) :
    Moves base old parent d (d.startProcedureDivision header) := by
  have hnote : Moves base old parent d { d with storage := none } :=
    (Move.note d none d.pendingRenames fun _ hentry => .inl hentry).moves
  rcases startProcedureDivision_cases d header with heq | ⟨other, found, signature, hother, _, hfound, heq⟩
  · rw [heq]
    exact hnote
  · obtain rfl : scope = other := Option.some.inj (h.current.symm.trans hother)
    have hmoves := hnote.trans (hfound.moves h.base_le)
    rw [heq]
    exact hmoves.trans (Move.setSignature found scope signature h.base_le (h.moves hmoves).kind).moves

theorem startHeading_moves (heading : SectionHeading) :
    Moves base d.table.size (some (.slot scope .sections)) d (d.startHeading heading).2 := by
  have hjoins : d.table.Joins base (headingSymbol heading scope) scope :=
    ⟨rfl, h.lt, .inl h.base_le, nofun, nofun⟩
  have hlt := d.lt_size_alloc (headingSymbol heading scope)
  have hentered := Extends.enter (d.alloc (headingSymbol heading scope)).2.table (.slot scope .sections) d.table.size
  have hget : (d.alloc (headingSymbol heading scope)).2.table.get d.table.size = headingSymbol heading scope :=
    get_alloc_self d.table _
  unfold startHeading
  simp only [h.current]
  refine Moves.trans ?_ (Move.heading ((d.alloc (headingSymbol heading scope)).2.enterIn d.table.size
    (some (.slot scope .sections))) d.table.size ?_ ?_ ?_).moves
  · exact alloc_enterIn_moves (fresh_of_body (.inl rfl) (.inl rfl) avoids_empty) rfl hjoins (.inl rfl) le_rfl h.lt (.inr rfl)
      (by simp [headingSymbol, Symbol.kind])
  · exact h.base_le.trans h.lt.le
  · exact hlt.trans_le hentered.size_le
  · exact (hentered.kind hlt).trans (congrArg Symbol.kind hget)

theorem startParagraph_moves
    (hheading : ∀ id, d.heading = some id → base ≤ id ∧ id < d.table.size) (heading : ParagraphHeading) :
    Moves base d.table.size (some (.slot scope .paragraphs)) d (d.startParagraph heading).2 := by
  have hjoins : d.table.Joins base (d.paragraphSymbol heading scope) (d.heading.getD scope) := by
    refine ⟨rfl, ?_, .inl ?_, nofun, nofun⟩
    · cases hopen : d.heading with
      | none => exact h.lt
      | some id => exact (hheading id hopen).2
    · cases hopen : d.heading with
      | none => exact h.base_le
      | some id => exact (hheading id hopen).1
  unfold startParagraph
  simp only [h.current]
  exact alloc_enterIn_moves (fresh_of_body (.inl rfl) (.inr (.inl ⟨_, rfl⟩)) avoids_empty) rfl hjoins (.inl rfl) le_rfl h.lt
    (.inl ⟨scope, rfl⟩) (by simp [paragraphSymbol, Symbol.kind])

/-- The procedure before it is opened. -/
theorem procedure_moves (header : DeclaredProcedure) :
    Moves base d.table.size (some (.slot scope .procedures)) d
      (((d.alloc (procedureSymbol header scope)).2.enterIn d.table.size
        (some (.slot scope .procedures))).registerProgram d.table.size) := by
  refine alloc_program_moves (fresh_procedureSymbol header scope) ⟨rfl, h.lt, .inl h.base_le, ?_, nofun⟩ rfl
    (by simp)
  intro _
  exact SymbolKind.isScope_of_isProgramLike h.kind

end

/-- The scope into which a nested program is entered. -/
theorem declareNested_moves {program : SymbolId} (hlt : program < d.table.size) (hbase : base ≤ program)
    (hkind : (d.table.get program).kind = .program) (header : ProgramHeader) :
    Moves base d.table.size (some (.slot program .programs)) d (d.declareNested program header).2.2 := by
  have hfresh : (programSymbol header program .nestedProgram).Fresh := fresh_programSymbol header program rfl
  have hjoins : d.table.Joins base (programSymbol header program .nestedProgram) program := by
    refine ⟨rfl, hlt, .inl hbase, ?_, nofun⟩
    intro _
    rw [hkind]
    rfl
  have hsize : (d.alloc (programSymbol header program .nestedProgram)).2.table.size = d.table.size + 1 :=
    Table.size_alloc d.table _
  unfold declareNested
  simp only
  split
  · refine (Move.alloc d _ program hfresh hjoins nofun).moves.trans
      (Move.addDuplicate _ program d.table.size (.inl rfl) hlt ?_ le_rfl).moves
    rw [hsize]
    exact Nat.lt_succ_self _
  · exact alloc_program_moves hfresh hjoins rfl (by simp)

/-- A program that lies in no other one belongs to the root. -/
theorem declareTopLevel_moves (hroot : (d.table.get rootId).kind.isScope = true)
    (hlt : rootId < d.table.size) (header : ProgramHeader) :
    Moves d.table.size d.table.size (some (.slot rootId .programs)) d (d.declareTopLevel header).2.2 := by
  unfold declareTopLevel
  simp only
  have hplace : (if d.programs.isEmpty then SymbolFlag.mainProgram else SymbolFlag.stackedProgram).isTrait = false := by
    split <;> rfl
  generalize (if d.programs.isEmpty then SymbolFlag.mainProgram else SymbolFlag.stackedProgram) = place at hplace
  have hfresh : (programSymbol header rootId place).Fresh := fresh_programSymbol header _ hplace
  have hjoins : d.table.Joins d.table.size (programSymbol header rootId place) rootId :=
    ⟨rfl, hlt, .inr ⟨rfl, rfl⟩, fun _ => hroot, nofun⟩
  split
  · exact (Move.alloc d _ rootId hfresh hjoins nofun).moves.trans
      (Move.listProgram _ _ le_rfl (.inl rfl)).moves
  · have hlisted : Moves d.table.size d.table.size (some (.slot rootId .programs)) d
        { d with programs := d.programs ++ [d.table.size] } := (Move.listProgram d _ le_rfl (.inl rfl)).moves
    have hslot : ScopeSlot.programs ≠ .types := by simp
    exact hlisted.trans
      (alloc_program_moves (d := { d with programs := d.programs ++ [d.table.size] }) hfresh
        hjoins rfl hslot)

end Declarations

end CobolSymbols
