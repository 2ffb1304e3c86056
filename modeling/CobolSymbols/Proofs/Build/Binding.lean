import CobolSymbols.Proofs.Tree.Bindings

/-!
# Making a record into symbols

When a record is complete, its definitions are made into symbols from the outside in. Here is what the tree and the table
are afterwards: the definitions have the symbols that their standing asks for, each group holds its fields in order, every
field is followed by its indexes, and all symbols are new.
-/

set_option autoImplicit false

namespace CobolSymbols

open Forest List Symbol Table Standing

namespace Declarations

section Views

variable {d : Declarations} {id other : SymbolId}

theorem fieldOrder_enterIn {group : SymbolId} {fields : List SymbolId} (h : d.table.fieldOrder group = some fields)
    (id : SymbolId) : (d.enterIn id (some (.fields group))).table.fieldOrder group = some (fields ++ [id]) := by
  obtain ⟨scope, hscope, horder⟩ := Option.map_eq_some_iff.mp h
  have hlt := lt_size_of_get (·.fields? = some scope) hscope nofun
  have htable : (d.enterIn id (some (.fields group))).table = d.table.enter (.fields group) id := rfl
  obtain ⟨type, htype, hfields⟩ := Option.bind_eq_some_iff.mp hscope
  unfold Table.fieldOrder
  rw [htable, enter_fields, get_modify_self _ hlt]
  simp [Symbol.fields?, htype, hfields, Scope.enter, horder]

theorem sameView_storeVariable (item : SymbolId) (typeBody : Option SymbolId) :
    d.table.SameView (d.storeVariable item typeBody).table id := by
  cases typeBody with
  | none =>
    have hdomain : d.table.SameView (d.addToDomain item).table id := itemView_addToDomain item
    exact (itemView_addVariable item).trans hdomain
  | some type => rfl

theorem size_storeVariable (item : SymbolId) (typeBody : Option SymbolId) :
    (d.storeVariable item typeBody).table.size = d.table.size := by
  cases typeBody with
  | none =>
    have hdomain : (d.addToDomain item).table.size = d.table.size := by
      unfold addToDomain
      split
      · exact size_addToDomain _ _ _
      · rfl
    exact (size_addVariable (d.addToDomain item).table item).trans hdomain
  | some type => rfl

end Views

section Indexes

variable {base : Nat} {d : Declarations} {indexed : SymbolId} {ref : ScopeRef} {typeBody : Option SymbolId}
  {node : Node} {name : IndexName}

/-- What making the indexes of an item gives. -/
structure IndexesMade (d : Declarations) (indexed : SymbolId) (ref : ScopeRef) (f : Forest)
    (made : Forest × Declarations) : Prop where
  same : f.SameButIndexes made.1
  size_le : d.table.size ≤ made.2.table.size
  gains : Gains d.table.size made.2.table.size f.symbols made.1.symbols
  names : made.1.indexSymbols.map (fun index => (made.2.table.get index).name) = f.indexNames.map fun name => name.name
  indexes : ∀ index ∈ made.1.indexSymbols, made.2.table.IsItem index ∧
    (made.2.table.get index).owner = some ref.owner ∧ (made.2.table.get index).indexed? = some indexed
  fields : ∀ group fields, ref = .fields group → d.table.fieldOrder group = some fields →
    made.2.table.fieldOrder group = some (fields ++ made.1.indexSymbols)

theorem size_declareIndex (d : Declarations) (indexed : SymbolId) (ref : ScopeRef) (typeBody : Option SymbolId)
    (name : IndexName) : (d.declareIndex indexed ref typeBody name).2.table.size = d.table.size + 1 := by
  have hentered : ((d.alloc (d.indexSymbol indexed name)).2.enterIn d.table.size (some ref)).table.size =
      (d.alloc (d.indexSymbol indexed name)).2.table.size := size_enter _ _ _
  have halloc : (d.alloc (d.indexSymbol indexed name)).2.table.size = d.table.size + 1 := Table.size_alloc _ _
  exact (size_storeVariable _ typeBody).trans (hentered.trans halloc)

theorem itemView_declareIndex (indexed : SymbolId) (typeBody : Option SymbolId) (name : IndexName)
    (href : ref ≠ .fields d.table.size) :
    ((d.declareIndex indexed ref typeBody name).2.table.get d.table.size).itemView =
      (d.indexSymbol indexed name).itemView := by
  have hentered := itemView_enterIn (d := (d.alloc (d.indexSymbol indexed name)).2) d.table.size href
  have halloc : (d.alloc (d.indexSymbol indexed name)).2.table.get d.table.size = d.indexSymbol indexed name :=
    get_alloc_self _ _
  rw [halloc] at hentered
  exact (sameView_storeVariable d.table.size typeBody).trans hentered

theorem fieldOrder_declareIndex (indexed : SymbolId) (typeBody : Option SymbolId) (name : IndexName) {group : SymbolId} {fields : List SymbolId}
    (h : d.table.fieldOrder group = some fields) :
    (d.declareIndex indexed (.fields group) typeBody name).2.table.fieldOrder group =
      some (fields ++ [d.table.size]) := by
  have hlt := lt_size_of_get (·.fields?.map Scope.order = some fields) h nofun
  have halloc : (d.alloc (d.indexSymbol indexed name)).2.table.fieldOrder group = some fields := by
    rw [← h]
    exact congrArg (fun s : Symbol => s.fields?.map (·.order)) (get_alloc_of_lt _ hlt)
  have hstored : ((d.alloc (d.indexSymbol indexed name)).2.enterIn d.table.size (some (.fields group))).table.SameView
      (d.declareIndex indexed (.fields group) typeBody name).2.table group := sameView_storeVariable d.table.size typeBody
  rw [hstored.fieldOrder]
  exact fieldOrder_enterIn halloc d.table.size

theorem declareIndexes_of_index (h : node.kind = .index name) (children siblings : Forest) :
    declareIndexes indexed ref typeBody (.cons node children siblings) d =
      (.cons (node.bindSymbol d.table.size) children
        (declareIndexes indexed ref typeBody siblings (d.declareIndex indexed ref typeBody name).2).1,
      (declareIndexes indexed ref typeBody siblings (d.declareIndex indexed ref typeBody name).2).2) := by
  rw [declareIndexes]
  simp only [h]
  rfl

theorem declareIndexes_of_other (h : node.kind.index? = none) (children siblings : Forest) :
    declareIndexes indexed ref typeBody (.cons node children siblings) d =
      (.cons node children (declareIndexes indexed ref typeBody siblings d).1,
      (declareIndexes indexed ref typeBody siblings d).2) := by
  rw [declareIndexes]
  split
  · rename_i name hkind
    rw [hkind] at h
    cases h
  · rfl

theorem kind_of_index? (h : node.kind.index? = some name) : node.kind = .index name := by
  unfold NodeKind.index? at h
  split at h
  · rename_i hkind
    cases h
    exact hkind
  · cases h

theorem declareIndexes_made (typeBody : Option SymbolId) (hbase : base ≤ ref.owner) (href : ∀ o, ref ≠ .slot o .types)
    (f : Forest) (d : Declarations) (hordered : d.table.Ordered)
    (hindexed : (d.table.get indexed).owner = some ref.owner) :
    IndexesMade d indexed ref f (declareIndexes indexed ref typeBody f d) := by
  induction f generalizing d with
  | nil =>
    refine ⟨.nil, le_rfl, Gains.refl _ _ _, rfl, nofun, fun group fields _ h => ?_⟩
    rw [show (declareIndexes indexed ref typeBody .nil d).1.indexSymbols = [] from rfl, append_nil]
    exact h
  | cons node children siblings _ ih =>
    cases hindex : node.kind.index? with
    | none =>
      have hrest := ih d hordered hindexed
      rw [declareIndexes_of_other hindex]
      have hsymbols : ∀ rest : Forest, (Forest.cons node children rest).indexSymbols = rest.indexSymbols := by
        intro rest
        simp [Forest.indexSymbols, Forest.roots, hindex]
      have hnames : (Forest.cons node children siblings).indexNames = siblings.indexNames := by
        simp [Forest.indexNames, Forest.roots, hindex]
      constructor
      case same => exact .cons node node children siblings _ rfl (fun _ => rfl) hrest.same
      case size_le => exact hrest.size_le
      case gains =>
        rw [symbols_cons, symbols_cons]
        exact hrest.gains.append_left _
      case names =>
        rw [hsymbols, hnames]
        exact hrest.names
      case indexes =>
        rw [hsymbols]
        exact hrest.indexes
      case fields =>
        rw [hsymbols]
        exact hrest.fields
    | some name =>
      have hkind := kind_of_index? hindex
      have hlt : ref.owner < d.table.size :=
        (hordered indexed ref.owner hindexed).trans (OwnedBy.lt_size hindexed)
      have hne : ∀ {id : SymbolId}, d.table.size ≤ id → ref ≠ .fields id := by
        rintro id hid rfl
        exact Nat.lt_irrefl _ (hlt.trans_le hid)
      have hmoves := declareIndex_moves typeBody name hordered le_rfl hindexed hbase href
      have hsize := size_declareIndex d indexed ref typeBody name
      have hview := itemView_declareIndex indexed typeBody name (hne le_rfl)
      have hfields : ∀ group fields, ref = .fields group → d.table.fieldOrder group = some fields →
          (d.declareIndex indexed ref typeBody name).2.table.fieldOrder group = some (fields ++ [d.table.size]) := by
        rintro group fields rfl h
        exact fieldOrder_declareIndex indexed typeBody name h
      rw [declareIndexes_of_index hkind]
      generalize (d.declareIndex indexed ref typeBody name).2 = d' at hmoves hsize hview hfields ⊢
      have hordered' := hmoves.ordered hordered
      have hindexed' : (d'.table.get indexed).owner = some ref.owner := by
        rw [hmoves.extends.owner (OwnedBy.lt_size hindexed), hindexed]
      have hrest := ih d' hordered' hindexed'
      have hlater := declareIndexes_moves typeBody hbase href siblings d' hordered' le_rfl hindexed'
      have hitem : d'.table.IsItem d.table.size := by
        have hkind : (d'.table.get d.table.size).kind = _ := congrArg ItemView.kind hview
        unfold IsItem
        rw [hkind]
        rfl
      -- the other indexes leave the first one as it is
      have hkept : d'.table.SameView (declareIndexes indexed ref typeBody siblings d').2.table d.table.size := by
        refine hlater.itemView ⟨hitem.lt_size, hitem.lt_size, hitem, ?_⟩
        exact fun heq => hne le_rfl (Option.some.inj heq)
      have hsymbols : ∀ rest : Forest, (Forest.cons (node.bindSymbol d.table.size) children rest).indexSymbols =
          d.table.size :: rest.indexSymbols := by
        intro rest
        simp [Forest.indexSymbols, Forest.roots, Node.bindSymbol, Node.symbol?, hindex]
      have hnames : (Forest.cons node children siblings).indexNames = name :: siblings.indexNames := by
        simp [Forest.indexNames, Forest.roots, hindex]
      have hview' := hkept.trans hview
      constructor
      case same => exact .cons node _ children siblings _ rfl (fun hnone => by rw [hindex] at hnone; cases hnone) hrest.same
      case size_le => exact hmoves.extends.size_le.trans hrest.size_le
      case gains =>
        have hgains := hrest.gains.append_left children.symbols
        rw [hsize] at hgains
        refine gains_cons hgains ?_
        exact ((Nat.lt_succ_self _).trans_eq hsize.symm).trans_le hrest.size_le
      case names =>
        rw [hsymbols, hnames, map_cons, map_cons, hrest.names]
        exact congrArg (· :: _) (congrArg ItemView.name hview')
      case indexes =>
        rw [hsymbols]
        intro index hmem
        rcases mem_cons.mp hmem with heq | hmem
        · subst heq
          refine ⟨hkept.item hitem, ?_, congrArg ItemView.indexed hview'⟩
          have howner := congrArg ItemView.owner hview'
          exact howner.trans hindexed
        · exact hrest.indexes index hmem
      case fields =>
        intro group fields heq h
        rw [hsymbols, hrest.fields group _ heq (hfields group fields heq h), append_assoc]
        rfl

end Indexes

section Content

variable {base : Nat} {d : Declarations} {id : SymbolId} {typeBody : Option SymbolId} {inside : Bool}
  {children : Forest} {fields : Placement → Declarations → Forest × Declarations} (entry : DataEntry)

/-- What making the definitions on top of a forest into fields of a group gives. -/
structure Filled (d : Declarations) (group : SymbolId) (inside : Bool) (s : Standing) (f : Forest)
    (made : Forest × Declarations) : Prop where
  settled : made.1.Settled inside s
  realized : made.1.Realized made.2.table
  gains : Gains d.table.size made.2.table.size f.symbols made.1.symbols
  fields : ∀ fields, d.table.fieldOrder group = some fields →
    made.2.table.fieldOrder group = some (fields ++ made.1.fieldSymbols)
  members : ∀ field ∈ made.1.trees, field.node.isDefinition = true → ∀ id, field.node.symbol? = some id →
    made.2.table.Member group field id

/-- A function that makes the definitions on top of a forest into fields. -/
structure FieldsFill (base : Nat) (inside : Bool) (f : Forest)
    (fields : Placement → Declarations → Forest × Declarations) : Prop where
  moves : ∀ id typeBody, FieldsMove base id typeBody fields
  shape : ∀ place d, (fields place d).1.shape = f.shape
  filled : ∀ (d : Declarations) (group : SymbolId) (typeBody : Option SymbolId), d.Underway base group typeBody →
    f.Realized d.table → (∀ id ∈ f.symbols, id < group) →
      Filled d group inside (.ofBody typeBody) f (fields ⟨some (.fields group), typeBody⟩ d)

/-- What making a definition gives, before it is entered into its scope. -/
structure ContentMade (d : Declarations) (id : SymbolId) (inside : Bool) (s : Standing) (children : Forest)
    (made : Forest × Declarations) : Prop where
  holds : made.2.table.Holds id made.1
  settled : made.1.Settled inside s
  realized : made.1.Realized made.2.table
  gains : Gains d.table.size made.2.table.size children.symbols made.1.symbols

theorem sameView_setLeading (other : SymbolId) : d.table.SameView (d.setLeading id entry).table other := by
  have helem : (d.elementaryType entry).2.table = d.table := elementaryType_table entry
  have hmodified : (d.elementaryType entry).2.table.SameView (d.setLeading id entry).table other :=
    itemView_modify fun s => s.itemView_mapType fun type => DataType.fields?_setLeading _ type
  rwa [helem] at hmodified

theorem sameView_wrapArray (other : SymbolId) : d.table.SameView (d.wrapArray id entry typeBody).table other := by
  unfold wrapArray
  split
  · rename_i occurs element hoccurs htype
    have hset : ∀ object, d.table.SameView (d.setType id (.array element occurs.min occurs.max object)).table other := by
      intro object
      have hview : ({ d.table.get id with type := some (.array element occurs.min occurs.max object) } : Symbol).itemView =
          (d.table.get id).itemView := by
        refine itemView_setType _ ?_
        unfold Symbol.fields?
        rw [htype]
        rfl
      exact view_modify Symbol.itemView hview other
    split
    · rfl
    · simp only
      split
      · rw [queueDependent_table]
        exact hset _
      · exact hset _
  · rfl

theorem size_setLeading : (d.setLeading id entry).table.size = d.table.size := by
  have hmodified : (d.setLeading id entry).table.size = (d.elementaryType entry).2.table.size := size_modify _ _ _
  rw [hmodified, elementaryType_table]

theorem size_wrapArray : (d.wrapArray id entry typeBody).table.size = d.table.size := by
  unfold wrapArray
  split
  · split
    · rfl
    · simp only
      split
      · rw [queueDependent_table]
        exact size_modify _ _ _
      · exact size_modify _ _ _
  · rfl

/-- An item without fields holds nothing. -/
theorem fieldList_setElementary (hlt : id < d.table.size) (hnone : (d.table.get id).type = none) (entry : DataEntry) :
    ((d.setElementary id entry typeBody).table.get id).fieldList = [] := by
  have helem : (d.elementaryType entry).2.table = d.table := elementaryType_table entry
  have hset : ∀ (d' : Declarations) (type : DataType), d'.table = d.table → type.fields? = none →
      ((d'.setType id type).table.get id).fieldList = [] := by
    intro d' type htable hfields
    have hlt' : id < d'.table.size := by
      rw [htable]
      exact hlt
    have hget : (d'.setType id type).table.get id = { d'.table.get id with type := some type } :=
      get_modify_self _ hlt'
    rw [hget]
    simp [fieldList, Symbol.fields?, hfields]
  unfold setElementary
  split
  · rename_i type d' heq
    rw [heq] at helem
    have htype : type.IsElementary := elementaryType_isElementary (congrArg Prod.fst heq)
    refine hset d' type helem ?_
    cases type <;> first | rfl | cases htype
  · rename_i d' heq
    rw [heq] at helem
    split
    · rename_i reference hreference
      have hqueued : (d'.setType id (.named ⟨reference.name, reference.position, none⟩)).table.SameView
          ((d'.setType id (.named ⟨reference.name, reference.position, none⟩)).queueTyped id typeBody).table id :=
        itemView_queueTyped id typeBody
      rw [hqueued.fieldList]
      exact hset d' _ helem rfl
    · have htable : ∀ c : Context, c.table = d.table → (c.table.get id).fieldList = [] := by
        intro c hc
        rw [hc]
        simp [fieldList, Symbol.fields?, hnone]
      exact htable _ ((d'.context.told_reportAt _ rfl _).table.trans helem)

theorem declareContent_made (h : d.Underway base id typeBody) (hnone : (d.table.get id).type = none) (entry : DataEntry)
    (hwaiting : children.Waiting inside) (hrealized : children.Realized d.table)
    (hlow : ∀ other ∈ children.symbols, other < id) (hfields : FieldsFill base inside children fields) :
    ContentMade d id inside (.ofBody typeBody) children (d.declareContent id entry typeBody children fields) := by
  -- the symbols below the item are older than it
  have haside : ∀ {d' : Declarations}, Moves base id none d d' → children.Realized d'.table := by
    intro d' hmoves
    refine hrealized.keep fun other hother hitem => ?_
    exact hmoves.itemView ⟨hlow other hother, hitem.lt_size, hitem, nofun⟩
  unfold declareContent
  split
  · have hset : Moves base id none d (d.setType id (.group {} none id)) :=
      (Move.setType d id _ le_rfl h.kind hnone (.inl rfl) h.typable).moves
    have hsize : (d.setType id (.group {} none id)).table.size = d.table.size := size_modify _ _ _
    have hempty : (d.setType id (.group {} none id)).table.fieldOrder id = some [] := by
      have hget : (d.setType id (.group {} none id)).table.get id =
          { d.table.get id with type := some (.group {} none id) } := get_modify_self _ h.lt
      unfold Table.fieldOrder
      rw [hget]
      rfl
    have hfilled := hfields.filled _ id typeBody (h.moves hset) (haside hset) hlow
    have hunder := (h.moves hset).moves (hfields.moves id typeBody _ (h.moves hset))
    generalize fields ⟨some (.fields id), typeBody⟩ (d.setType id (.group {} none id)) = made at hfilled hunder ⊢
    obtain ⟨children', d'⟩ := made
    have hsame : ∀ other, d'.table.SameView ((d'.setLeading id entry).wrapArray id entry typeBody).table other :=
      fun other => (sameView_wrapArray entry other).trans (sameView_setLeading entry other)
    have hsize' : ((d'.setLeading id entry).wrapArray id entry typeBody).table.size = d'.table.size := by
      rw [size_wrapArray, size_setLeading]
    have hgroup : d'.table.Holds id children' := by
      refine ⟨hunder.kind, ?_, hfilled.members⟩
      exact fieldList_of_fieldOrder (hfilled.fields [] hempty)
    exact ⟨hgroup.keep (hsame id) fun other _ _ => hsame other, hfilled.settled,
      hfilled.realized.keep fun other _ _ => hsame other, hsize' ▸ hsize ▸ hfilled.gains⟩
  · rename_i hdef
    have hnone' : children.roots.any Node.isDefinition = false := by simpa using hdef
    have hset : Moves base id none d (d.setElementary id entry typeBody) :=
      setElementary_moves h le_rfl hnone entry
    have hsame : ∀ other, (d.setElementary id entry typeBody).table.SameView
        ((d.setElementary id entry typeBody).wrapArray id entry typeBody).table other := fun other =>
      sameView_wrapArray entry other
    have helem : (d.setElementary id entry typeBody).table.Holds id children := by
      refine ⟨(h.moves hset).kind, ?_, ?_⟩
      · rw [fieldList_setElementary h.lt hnone, hwaiting.fieldSymbols_eq]
      · intro field hfield hdef other hother
        rw [hwaiting.symbol?_eq hfield hdef] at hother
        cases hother
    exact ⟨helem.keep (hsame id) fun other _ _ => hsame other, hwaiting.settled_of_none hnone' _,
      (haside hset).keep fun other _ _ => hsame other, Gains.refl _ _ _⟩

end Content

section Items

variable {base : Nat} {d : Declarations} {id : SymbolId} {place : Placement} {inside : Bool} {below : Standing}
  {children : Forest}

/-- What entering a definition into a group gives: it is followed by its indexes. -/
structure Joined (d : Declarations) (group id : SymbolId) (children : Forest) (made : Forest × Declarations) :
    Prop where
  names : made.1.indexSymbols.map (fun index => (made.2.table.get index).name) =
    children.indexNames.map fun name => name.name
  indexes : ∀ index ∈ made.1.indexSymbols, made.2.table.IsItem index ∧
    (made.2.table.get index).owner = some group ∧ (made.2.table.get index).indexed? = some id
  fields : ∀ fields, d.table.fieldOrder group = some fields →
    made.2.table.fieldOrder group = some (fields ++ id :: made.1.indexSymbols)

/-- Entering a symbol and storing it changes nothing about other groups. -/
theorem sameView_enterIn_storeVariable {other : SymbolId} (hother : place.parent ≠ some (.fields other)) :
    d.table.SameView ((d.enterIn id place.parent).storeVariable id place.typeBody).table other := by
  have hentered : d.table.SameView (d.enterIn id place.parent).table other := by
    cases hparent : place.parent with
    | none => rfl
    | some ref => exact itemView_enterIn id fun heq => hother (by rw [hparent, heq])
  exact (sameView_storeVariable id place.typeBody).trans hentered

theorem size_enterIn_storeVariable :
    ((d.enterIn id place.parent).storeVariable id place.typeBody).table.size = d.table.size := by
  rw [size_storeVariable]
  cases place.parent with
  | none => rfl
  | some ref => exact size_enter _ _ _

/-- Entering a definition that has been made keeps what it holds, and gives it its indexes. -/
theorem enterItem_made {isType : Bool} (hordered : d.table.Ordered) (htype : d.table.IsType id ↔ isType = true)
    (hplace : ∀ ref, place.parent = some ref → d.Enterable base id isType ref)
    (hmade : ContentMade d id inside below children (children, d))
    (hother : ∀ other ∈ id :: children.symbols, place.parent ≠ some (.fields other)) :
    ContentMade d id inside below children (d.enterItem id isType place children) ∧
      (isType = false → ∀ group, place.parent = some (.fields group) →
        Joined d group id children (d.enterItem id isType place children)) := by
  have hid := hother id mem_cons_self
  have hchildren : ∀ other ∈ children.symbols, place.parent ≠ some (.fields other) := fun other hmem =>
    hother other (mem_cons_of_mem _ hmem)
  cases isType with
  | true =>
    refine ⟨?_, nofun⟩
    have hsame : ∀ other, place.parent ≠ some (.fields other) →
        d.table.SameView ((d.enterIn id place.parent).registerType id).table other := by
      intro other hne
      cases hparent : place.parent with
      | none => rfl
      | some ref => exact itemView_enterIn id fun heq => hne (by rw [hparent, heq])
    exact ⟨hmade.holds.keep (hsame id hid) fun other hmem _ => hsame other (hchildren other hmem), hmade.settled,
      hmade.realized.keep fun other hmem _ => hsame other (hchildren other hmem), Gains.refl _ _ _⟩
  | false =>
    have hsame : ∀ other, place.parent ≠ some (.fields other) →
        d.table.SameView ((d.enterIn id place.parent).storeVariable id place.typeBody).table other := fun other hne =>
      sameView_enterIn_storeVariable hne
    have hsize : ((d.enterIn id place.parent).storeVariable id place.typeBody).table.size = d.table.size :=
      size_enterIn_storeVariable
    have hholds := hmade.holds.keep (hsame id hid) fun other hmem _ => hsame other (hchildren other hmem)
    have hrealized := hmade.realized.keep fun other hmem _ => hsame other (hchildren other hmem)
    cases hparent : place.parent with
    | none =>
      have heq : d.enterItem id false place children =
          (children, (d.enterIn id place.parent).storeVariable id place.typeBody) := by
        unfold enterItem
        simp [hparent]
      rw [heq]
      exact ⟨⟨hholds, hmade.settled, hrealized, Gains.refl _ _ _⟩, fun _ group hgroup => by cases hgroup⟩
    | some ref =>
      have heq : d.enterItem id false place children = declareIndexes id ref place.typeBody children
          ((d.enterIn id place.parent).storeVariable id place.typeBody) := by
        unfold enterItem
        simp [hparent]
      have henterable := hplace ref hparent
      have hentered := enterParent_moves hordered hmade.holds.item.lt_size le_rfl htype hplace
      have hmoves := hentered.trans (storeVariable_moves le_rfl
        (hmade.holds.item.lt_size.trans_le hentered.extends.size_le) place.typeBody)
      have hordered' := hmoves.ordered hordered
      have howner : (((d.enterIn id place.parent).storeVariable id place.typeBody).table.get id).owner =
          some ref.owner := by rw [hmoves.extends.owner hmade.holds.item.lt_size, henterable.owner_eq]
      have href : ∀ o, ref ≠ .slot o .types := fun o ho => by
        have htype := henterable.types.mp ⟨o, ho⟩
        cases htype
      have horder : ∀ group fields, ref = .fields group → d.table.fieldOrder group = some fields →
          ((d.enterIn id place.parent).storeVariable id place.typeBody).table.fieldOrder group =
            some (fields ++ [id]) := by
        rintro group fields rfl h
        have hstored : (d.enterIn id place.parent).table.SameView
            ((d.enterIn id place.parent).storeVariable id place.typeBody).table group :=
          sameView_storeVariable id place.typeBody
        rw [hstored.fieldOrder, hparent]
        exact fieldOrder_enterIn h id
      rw [heq]
      rw [hparent] at hother
      generalize (d.enterIn id place.parent).storeVariable id place.typeBody = d'
        at hholds hrealized hsize hordered' howner horder ⊢
      have hindexes : IndexesMade d' id ref children _ :=
        declareIndexes_made place.typeBody henterable.base_le href children d' hordered' howner
      have hlater := declareIndexes_moves place.typeBody henterable.base_le href children d' hordered' le_rfl howner
      have hkept : ∀ other ∈ id :: children.symbols, d'.table.IsItem other →
          d'.table.SameView (declareIndexes id ref place.typeBody children d').2.table other := fun other hmem hitem =>
        hlater.itemView ⟨hitem.lt_size, hitem.lt_size, hitem, hother other hmem⟩
      have hkept' := fun (other : SymbolId) (hmem : other ∈ children.symbols) => hkept other (mem_cons_of_mem _ hmem)
      refine ⟨⟨?_, ?_, ?_, ?_⟩, fun _ group hgroup => ⟨hindexes.names, ?_, ?_⟩⟩
      · exact hindexes.same.holds (hholds.keep (hkept id mem_cons_self hholds.item) hkept')
      · exact hindexes.same.settled hmade.settled
      · exact hindexes.same.realized (hrealized.keep hkept')
      · rw [← hsize]
        exact hindexes.gains
      · cases hgroup
        exact hindexes.indexes
      · intro fields hfields
        cases hgroup
        rw [hindexes.fields group _ rfl (horder group fields rfl hfields), append_assoc]
        rfl

/-- What making the symbol of a definition gives. -/
structure ItemMade (d : Declarations) (place : Placement) (inside : Bool) (below : Standing) (children : Forest)
    (made : SymbolId × Forest × Declarations) : Prop where
  id_eq : made.1 = d.table.size
  owner : (made.2.2.table.get d.table.size).owner = d.ownerOf place
  holds : made.2.2.table.Holds d.table.size made.2.1
  settled : made.2.1.Settled inside below
  realized : made.2.1.Realized made.2.2.table
  gains : Gains (d.table.size + 1) made.2.2.table.size children.symbols made.2.1.symbols
  joined : ∀ group, place.parent = some (.fields group) →
    Joined d group d.table.size children (made.2.1, made.2.2)

theorem declareItem_eq (d : Declarations) (entry : DataEntry) (kind : ItemKind) (place : Placement) (children : Forest)
    (fields : Placement → Declarations → Forest × Declarations) :
    d.declareItem entry kind place children fields =
      (d.table.size,
        ((d.alloc (d.itemSymbol entry kind place)).2.declareContent d.table.size entry
          (if kind.isType then some d.table.size else place.typeBody) children fields).2.enterItem d.table.size kind.isType
          place
          ((d.alloc (d.itemSymbol entry kind place)).2.declareContent d.table.size entry
            (if kind.isType then some d.table.size else place.typeBody) children fields).1) := rfl

theorem declareItem_made {owner : SymbolId} {kind : ItemKind} {entry : DataEntry}
    (h : d.Accepts base place owner entry.level kind)
    (hgroup : ∀ group, place.parent = some (.fields group) → d.table.IsItem group)
    (hwaiting : children.Waiting inside) (hrealized : children.Realized d.table)
    (hsmall : ∀ other ∈ children.symbols, other < d.table.size ∧ place.parent ≠ some (.fields other))
    {fields : Placement → Declarations → Forest × Declarations} (hfields : FieldsFill base inside children fields) :
    ItemMade d place inside (.ofBody (if kind.isType then some d.table.size else place.typeBody)) children
      (d.declareItem entry kind place children fields) := by
  have halloc : Moves base d.table.size none d (d.alloc (d.itemSymbol entry kind place)).2 := h.alloc_moves
  have hsize : (d.alloc (d.itemSymbol entry kind place)).2.table.size = d.table.size + 1 := Table.size_alloc d.table _
  have hunder := h.underway
  have hnone := type_alloc_itemSymbol (d := d) entry kind place
  have hrealized' := hrealized.keep fun other hother hitem => halloc.itemView ⟨(hsmall other hother).1, hitem.lt_size, hitem, nofun⟩
  have hcontent := declareContent_made hunder hnone entry hwaiting hrealized' (fun other hother => (hsmall other hother).1)
    hfields
  have hmoves : Moves base d.table.size none (d.alloc (d.itemSymbol entry kind place)).2 _ :=
    declareContent_moves hunder le_rfl hnone entry children (hfields.moves _ _)
  have hshape := declareContent_view (d.alloc (d.itemSymbol entry kind place)).2 Forest.shape hfields.shape d.table.size
    entry (if kind.isType then some d.table.size else place.typeBody)
  have hisType := h.isType_iff hmoves.extends
  have henterable := h.enterable hmoves.extends
  have hordered := (hunder.moves hmoves).ordered
  have hboth := halloc.trans hmoves
  rw [declareItem_eq]
  generalize (d.alloc (d.itemSymbol entry kind place)).2.declareContent d.table.size entry
    (if kind.isType then some d.table.size else place.typeBody) children fields = made
    at hcontent hmoves hshape hisType henterable hordered hboth ⊢
  obtain ⟨children', d'⟩ := made
  have hother : ∀ other ∈ d.table.size :: children'.symbols, place.parent ≠ some (.fields other) := by
    intro other hmem hparent
    have howner : other = owner := h.fits.owner_of_parent hparent
    have hlt : other < d.table.size := howner ▸ h.fits.owner_lt
    rcases mem_cons.mp hmem with heq | hmem
    · exact hlt.ne heq
    · rcases hcontent.gains.mem hmem with hold | hnew
      · exact (hsmall other hold).2 hparent
      · rw [hsize] at hnew
        exact ((Nat.le_succ _).trans hnew.1).not_gt hlt
  obtain ⟨hentered, hjoined⟩ := enterItem_made hordered hisType henterable
    ⟨hcontent.holds, hcontent.settled, hcontent.realized, Gains.refl _ _ _⟩ hother
  have hmoves' := enterItem_moves hordered hcontent.holds.item.lt_size le_rfl hisType henterable children'
  constructor
  case id_eq => rfl
  case owner => exact (h.owner_eq (hmoves.extends.trans hmoves'.extends)).trans h.fits.owner_eq.symm
  case holds => exact hentered.holds
  case settled => exact hentered.settled
  case realized => exact hentered.realized
  case gains =>
    have hgains := hcontent.gains.trans hentered.gains hmoves.extends.size_le hmoves'.extends.size_le
    rw [hsize] at hgains
    exact hgains
  case joined =>
    intro group hparent
    have htype : kind.isType = false := by
      cases htype : kind.isType with
      | false => rfl
      | true =>
        obtain ⟨o, ho⟩ := (h.slot _ hparent).mpr htype
        cases ho
    have hfound := hjoined htype group hparent
    have hkept : d.table.SameView d'.table group := by
      have hitem := hgroup group hparent
      exact hboth.itemView ⟨hitem.lt_size, hitem.lt_size, hitem, nofun⟩
    refine ⟨?_, hfound.indexes, fun fields hfields => ?_⟩
    · rw [← indexNames_congr hshape]
      exact hfound.names
    · exact hfound.fields fields (by rw [hkept.fieldOrder, hfields])

/-- A level-66 or level-88 entry has no fields and no indexes, whatever stands below it. -/
theorem placeItem_made {owner : SymbolId} (hfits : d.Fits base place owner) {s : Symbol} {data : ItemData}
    (hs : Detail s data)
    (hgroup : ∀ group, place.parent = some (.fields group) → d.table.IsItem group) (hwaiting : children.Waiting inside)
    (hnames : children.indexNames = []) (hrealized : children.Realized d.table)
    (hsmall : ∀ other ∈ children.symbols, place.parent ≠ some (.fields other)) :
    ItemMade d place inside .unseen children ((d.placeItem s place).1, children, (d.placeItem s place).2) := by
  have hget : (d.alloc (d.placed none place s)).2.table.get d.table.size = d.placed none place s :=
    get_alloc_self d.table _
  have hid : place.parent ≠ some (.fields d.table.size) := by
    intro hparent
    have howner : d.table.size = owner := hfits.owner_of_parent hparent
    exact hfits.owner_lt.ne howner.symm
  have hplaced : ∀ other, place.parent ≠ some (.fields other) →
      (d.alloc (d.placed none place s)).2.table.SameView (d.placeItem s place).2.table other := fun other hne =>
    sameView_enterIn_storeVariable hne
  have halloc : ∀ other, other < d.table.size →
      d.table.SameView (d.alloc (d.placed none place s)).2.table other := fun other hlt =>
    congrArg Symbol.itemView (get_alloc_of_lt _ hlt)
  have hsymbols : children.indexSymbols = [] := indexSymbols_eq_nil hnames
  constructor
  case id_eq => rfl
  case owner => rw [(hplaced _ hid).owner, hget]; rfl
  case holds =>
    have hkind : (d.placed none place s).kind = data.kind.symbolKind := hs.kind_eq
    have hitem : (d.alloc (d.placed none place s)).2.table.IsItem d.table.size := by
      unfold IsItem
      rw [hget, hkind, ItemKind.isItem_symbolKind]
    refine ⟨(hplaced _ hid).item hitem, ?_, ?_⟩
    · have hfields : (d.placed none place s).fields? = none := hs.fields?_eq
      rw [(hplaced _ hid).fieldList, hget, hwaiting.fieldSymbols_eq, fieldList, hfields]
      rfl
    · intro field hfield hdef other hother
      rw [hwaiting.symbol?_eq hfield hdef] at hother
      cases hother
  case settled => exact hwaiting.settled_unseen
  case realized =>
    refine hrealized.keep fun other hother hitem => ?_
    exact (hplaced other (hsmall other hother)).trans (halloc other hitem.lt_size)
  case gains => exact Gains.refl _ _ _
  case joined =>
    intro group hparent
    have hlt := (hgroup group hparent).lt_size
    refine ⟨?_, ?_, ?_⟩
    · rw [hsymbols, hnames]
      rfl
    · rw [hsymbols]
      exact fun _ hindex => absurd hindex not_mem_nil
    · intro fields hfields
      have hentered : ((d.alloc (d.placed none place s)).2.enterIn d.table.size place.parent).table.fieldOrder group =
          some (fields ++ [d.table.size]) := by
        rw [hparent]
        exact fieldOrder_enterIn (by rw [(halloc group hlt).fieldOrder, hfields]) d.table.size
      have hstored : ((d.alloc (d.placed none place s)).2.enterIn d.table.size place.parent).table.SameView
          (d.placeItem s place).2.table group := sameView_storeVariable d.table.size place.typeBody
      rw [hsymbols, hstored.fieldOrder, hentered]

/-- Only the table and the owner count. -/
theorem ItemMade.of_table {d₁ d₂ d₃ : Declarations} {f : Forest}
    (h : ItemMade d₁ place inside below children (id, f, d₂)) (howner : d₁.ownerOf place = d.ownerOf place)
    (htable : d₁.table = d.table) (htable' : d₂.table = d₃.table) : ItemMade d place inside below children (id, f, d₃) where
  id_eq := htable ▸ h.id_eq
  owner := htable ▸ htable' ▸ howner ▸ h.owner
  holds := htable ▸ htable' ▸ h.holds
  settled := h.settled
  realized := htable' ▸ h.realized
  gains := htable ▸ htable' ▸ h.gains
  joined group hparent := by
    obtain ⟨hnames, hindexes, hfields⟩ := h.joined group hparent
    exact ⟨htable' ▸ hnames, htable ▸ htable' ▸ hindexes, htable ▸ htable' ▸ hfields⟩

/-- What becomes of a node: nothing is made, or its symbol with what lies below it. -/
theorem declareNode_made {owner : SymbolId} {node : Node} {fields : Placement → Declarations → Forest × Declarations}
    (hfits : d.Fits base place owner) (hslot : ∀ o, place.parent ≠ some (.slot o .types))
    (hgroup : ∀ group, place.parent = some (.fields group) → d.table.IsItem group)
    (hwaiting : node.isDefinition = true → children.Waiting inside) (hrealized : children.Realized d.table)
    (hindexed : children.indexNames = node.kind.indexNames)
    (hsmall : ∀ other ∈ children.symbols, other < d.table.size ∧ place.parent ≠ some (.fields other))
    (hfields : node.isDefinition = true → FieldsFill base inside children fields) :
    (d.declareNode node place children fields = (none, children, d) ∧
        (node.isDefinition = true → (∃ entry, node.kind = .typeDefinition entry) ∧ place.typeBody = none)) ∨
      ∃ made : SymbolId × Forest × Declarations,
        d.declareNode node place children fields = (some made.1, made.2.1, made.2.2) ∧ node.isDefinition = true ∧
          (place.typeBody.isSome = true ∨ node.kind.isTypeDefinition = false) ∧
          ItemMade d place inside ((ofBody place.typeBody).below node.kind) children made := by
  have hcases := d.nodeMade node place children fields
  generalize d.declareNode node place children fields = result at hcases ⊢
  cases hcases with
  | nothing hnothing => exact .inl ⟨rfl, hnothing⟩
  | @item c entry kind htold hdef _ halone htype hkind _ hredefined made hmade =>
    have hmoves : Moves base d.table.size none d { d with context := c } := told_moves htold
    have htable : ({ d with context := c } : Declarations).table = d.table := htold.table
    have hitem := declareItem_made ((hfits.moves hmoves).accepts hslot _ hkind hredefined) (htable.symm ▸ hgroup)
      (hwaiting hdef) (htable.symm ▸ hrealized) (htable.symm ▸ hsmall) (hfields hdef)
    rw [hkind.1, if_neg Bool.false_ne_true, ← ofBody_below halone htype, ← hmade] at hitem
    exact .inr ⟨made, rfl, hdef, htype, hitem.of_table rfl htable rfl⟩
  | alone s data hs hdef halone pending _ =>
    obtain ⟨hplain, hnames⟩ := NodeKind.plain_of_standsAlone halone
    have hitem := placeItem_made hfits hs hgroup (hwaiting hdef) (hindexed.trans hnames) hrealized
      fun other hother => (hsmall other hother).2
    rw [← below_standsAlone halone (s := ofBody place.typeBody)] at hitem
    exact .inr ⟨(_, children, _), rfl, hdef, .inr hplain, hitem.of_table rfl rfl rfl⟩

/-- A definition gets the symbol that has been made for it. -/
theorem ItemMade.bound {node : Node} {s : Standing} {made : SymbolId × Forest × Declarations}
    (h : ItemMade d place inside (s.below node.kind) children made) (hdef : node.isDefinition = true)
    (hbinds : s.binds node.kind = true) : (Forest.cons (node.bindSymbol made.1) made.2.1 .nil).Settled inside s ∧
      (Forest.cons (node.bindSymbol made.1) made.2.1 .nil).Realized made.2.2.table ∧
      Gains d.table.size made.2.2.table.size (Forest.cons node children .nil).symbols
        (Forest.cons (node.bindSymbol made.1) made.2.1 .nil).symbols := by
  obtain ⟨id, children', d'⟩ := made
  have hid : id = d.table.size := h.id_eq
  subst hid
  have hdef' : (node.bindSymbol d.table.size).isDefinition = true := hdef
  refine ⟨⟨?_, trivial⟩, ⟨fun _ id hid => ?_, h.realized, trivial⟩, gains_cons ?_ h.holds.item.lt_size⟩
  · rw [if_pos hdef']
    exact ⟨fun _ => hbinds.symm, h.settled⟩
  · cases hid
    exact h.holds
  · simpa using h.gains

end Items

section Fields

variable {base : Nat} {d : Declarations} {group : SymbolId} {typeBody : Option SymbolId} {inside : Bool} {s : Standing}
  {d' d'' : Declarations} {f : Forest}

theorem Filled.unmade {node : Node} {children : Forest} (hsymbol : node.isDefinition = true → node.symbol? = none)
    (hsettled : (Forest.cons node children .nil).Settled inside s) (hrealized : children.Realized d.table) :
    Filled d group inside s (.cons node children .nil) (.cons node children .nil, d) := by
  constructor
  case settled => exact hsettled
  case realized =>
    refine ⟨fun hdef id hid => ?_, hrealized, trivial⟩
    rw [hsymbol hdef] at hid
    cases hid
  case gains => exact Gains.refl _ _ _
  case fields =>
    intro fields hfields
    have hnone : (Forest.cons node children .nil).fieldSymbols = [] := by
      by_cases hdef : node.isDefinition = true
      · simp [Forest.fieldSymbols, hsymbol hdef]
      · simp [Forest.fieldSymbols, hdef]
    rw [hnone, append_nil, hfields]
  case members =>
    intro field hfield hdef id hid
    cases mem_singleton.mp hfield
    rw [hsymbol hdef] at hid
    cases hid

theorem ItemMade.filled {node : Node} {children : Forest} {made : SymbolId × Forest × Declarations}
    (h : ItemMade d ⟨some (.fields group), typeBody⟩ inside (s.below node.kind) children made)
    (hdef : node.isDefinition = true) (hbinds : s.binds node.kind = true)
    (hindexed : children.indexNames = node.kind.indexNames) :
    Filled d group inside s (.cons node children .nil) (.cons (node.bindSymbol made.1) made.2.1 .nil, made.2.2) := by
  obtain ⟨hsettled, hrealized, hgains⟩ := h.bound hdef hbinds
  obtain ⟨id, children', d'⟩ := made
  have hid : id = d.table.size := h.id_eq
  subst hid
  have hjoined := h.joined group rfl
  refine ⟨hsettled, hrealized, hgains, fun fields hfields => ?_, fun field hfield _ id hid => ?_⟩
  · rw [hjoined.fields fields hfields]
    simp [Forest.fieldSymbols, hdef]
  · cases mem_singleton.mp hfield
    cases hid
    refine ⟨h.holds.item, h.owner, ?_, hjoined.indexes⟩
    exact hjoined.names.trans (by rw [hindexed]; rfl)

/-- Definitions are made one after the other. -/
theorem Filled.cons {node node' : Node} {children children' siblings siblings' : Forest}
    (h : Filled d group inside s (.cons node children .nil) (.cons node' children' .nil, d'))
    (h' : Filled d' group inside s siblings (siblings', d'')) (hsize : d.table.size ≤ d'.table.size)
    (hsize' : d'.table.size ≤ d''.table.size)
    (hkept : ∀ id ∈ (Forest.cons node' children' .nil).symbols, d'.table.IsItem id → d'.table.SameView d''.table id) :
    Filled d group inside s (.cons node children siblings) (.cons node' children' siblings', d'') := by
  constructor
  case settled => exact ⟨h.settled.1, h'.settled⟩
  case realized =>
    have hrealized := h.realized.keep hkept
    exact ⟨hrealized.1, hrealized.2.1, h'.realized⟩
  case gains =>
    rw [symbols_cons_nil, symbols_cons_nil node']
    exact h.gains.append h'.gains hsize hsize'
  case fields =>
    intro fields hfields
    rw [h'.fields _ (h.fields fields hfields), append_assoc]
    simp [Forest.fieldSymbols]
  case members =>
    intro field hfield hdef id hid
    rcases mem_cons.mp hfield with heq | hfield
    · subst heq
      have hmem : ⟨node', children'⟩ ∈ (Forest.cons node' children' .nil).trees := mem_cons_self
      have hmember := h.members _ hmem hdef id hid
      refine hmember.keep (hkept id (mem_symbols_of_tree hmem (by simp [hid])) hmember.item) fun index hindex => ?_
      exact hkept index (mem_symbols_of_tree hmem (mem_append_right _ (indexSymbols_subset hindex)))
    · exact h'.members field hfield hdef id hid

section Node

variable {node : Node} {children : Forest} {fields : Placement → Declarations → Forest × Declarations}

theorem fields_ne (hsymbols : ∀ id ∈ children.symbols, id < group) {id : SymbolId} (hid : id ∈ children.symbols) :
    some (ScopeRef.fields group) ≠ some (.fields id) := by
  intro heq
  cases heq
  exact Nat.lt_irrefl _ (hsymbols group hid)

/-- A node that declares no data is left as it is. -/
theorem declareNode_of_other (h : node.isDefinition = false) (place : Placement) :
    d.declareNode node place children fields = (none, children, d) := by
  unfold declareNode
  cases hkind : node.kind <;> simp [Node.isDefinition, Node.definition?, NodeKind.definition?, hkind] at h ⊢

theorem declareNode_filled (h : d.Underway base group typeBody) (hsymbols : ∀ id ∈ children.symbols, id < group)
    (hwaiting : (Forest.cons node children .nil).Waiting inside) (hrealized : children.Realized d.table)
    (hindexed : children.indexNames = node.kind.indexNames)
    (hmake : node.isDefinition = true → FieldsFill base inside children fields) :
    Filled d group inside (.ofBody typeBody) (.cons node children .nil)
      (.cons (bindIfMade node (d.declareNode node ⟨some (.fields group), typeBody⟩ children fields).1)
        (d.declareNode node ⟨some (.fields group), typeBody⟩ children fields).2.1 .nil,
      (d.declareNode node ⟨some (.fields group), typeBody⟩ children fields).2.2) := by
  obtain ⟨hnode, -⟩ := hwaiting
  have hbelow : node.isDefinition = true → children.Waiting inside := by
    intro hdef
    rw [if_pos hdef] at hnode
    exact hnode.2
  rcases declareNode_made h.fits (by simp) (fun group' hgroup => by cases hgroup; exact h.kind) hbelow hrealized hindexed
    (fun id hid => ⟨(hsymbols id hid).trans h.lt, fields_ne hsymbols hid⟩) hmake with
    ⟨heq, hnothing⟩ | ⟨made, heq, hdef, htype, hmade⟩
  · rw [heq]
    by_cases hdef : node.isDefinition = true
    · -- a type in an ordinary record is not made, and neither is anything below it
      obtain ⟨⟨entry, hkind⟩, rfl⟩ := hnothing hdef
      rw [if_pos hdef] at hnode
      refine Filled.unmade (fun _ => hnode.1) ⟨?_, trivial⟩ hrealized
      rw [if_pos hdef, hkind, hnode.1]
      exact ⟨fun _ => rfl, hnode.2.settled_unseen⟩
    · rw [if_neg hdef] at hnode
      refine Filled.unmade (fun h => absurd h hdef) ⟨?_, trivial⟩ hrealized
      rw [if_neg hdef]
      exact hnode.2
  · rw [heq]
    exact hmade.filled hdef (ofBody_binds htype) hindexed

end Node

theorem Filled.nil : Filled d group inside s .nil (.nil, d) := by
  constructor
  case settled => trivial
  case realized => trivial
  case gains => exact Gains.refl _ _ _
  case fields =>
    intro fields hfields
    rw [hfields, Forest.fieldSymbols, append_nil]
  case members => exact fun field hfield => by cases hfield

theorem declareFields_cons (node : Node) (children siblings : Forest) (place : Placement) (d : Declarations) :
    declareFields (.cons node children siblings) place d =
      (.cons (bindIfMade node (d.declareNode node place children fun place d => declareFields children place d).1)
        (d.declareNode node place children fun place d => declareFields children place d).2.1
        (declareFields siblings place
          (d.declareNode node place children fun place d => declareFields children place d).2.2).1,
      (declareFields siblings place
        (d.declareNode node place children fun place d => declareFields children place d).2.2).2) := rfl

/-- Making the definitions on top of a forest into fields of a group. -/
theorem declareFields_fill (f : Forest) (hwaiting : f.Waiting inside) (hindexed : f.Indexed) :
    FieldsFill base inside f fun place d => declareFields f place d := by
  induction f with
  | nil => exact ⟨fieldsMove_declareFields .nil, fun place d => declareFields_shape .nil place d, fun d group typeBody _ _ _ => Filled.nil⟩
  | cons node children siblings ihChildren ihSiblings =>
    refine ⟨fieldsMove_declareFields _, fun place d => declareFields_shape _ place d, fun d group typeBody h hrealized hsymbols => ?_⟩
    obtain ⟨hnode, hwaitingSiblings⟩ := hwaiting
    obtain ⟨hnames, hindexedChildren, hindexedSiblings⟩ := hindexed
    obtain ⟨-, hrealizedChildren, hrealizedSiblings⟩ := hrealized
    rw [symbols_cons] at hsymbols
    have hfill : node.isDefinition = true → FieldsFill base inside children fun place d => declareFields children place d := by
      intro hdef
      rw [if_pos hdef] at hnode
      exact ihChildren hnode.2 hindexedChildren
    have hhead := declareNode_filled h (fun id hid => hsymbols id (by simp [hid])) ⟨hnode, trivial⟩ hrealizedChildren hnames
      hfill
    have hheadMoves := declareNode_moves h.fits (by simp) node children (fieldsMove_declareFields children _ _)
    rw [declareFields_cons]
    generalize d.declareNode node ⟨some (.fields group), typeBody⟩ children (fun place d => declareFields children place d)
      = made at hhead hheadMoves ⊢
    obtain ⟨made, children', d'⟩ := made
    have hunder := h.moves hheadMoves
    -- what the siblings name is older than the group
    have hrealized' : siblings.Realized d'.table := hrealizedSiblings.keep fun id hid hitem =>
      hheadMoves.itemView ⟨hitem.lt_size, hitem.lt_size, hitem, fields_ne (fun id hid => hsymbols id (by simp [hid])) hid⟩
    have hrest := (ihSiblings hwaitingSiblings hindexedSiblings).filled d' group typeBody hunder hrealized'
      fun id hid => hsymbols id (by simp [hid])
    have hrestMoves := fieldsMove_declareFields siblings group typeBody d' hunder
    refine hhead.cons hrest hheadMoves.extends.size_le hrestMoves.extends.size_le fun id hid hitem => ?_
    refine hrestMoves.itemView ⟨hitem.lt_size, hitem.lt_size, hitem, ?_⟩
    rintro heq
    cases heq
    rcases hhead.gains.mem hid with hold | hnew
    · rw [symbols_cons] at hold
      exact Nat.lt_irrefl _ (hsymbols group (mem_append_left _ (by simpa using hold)))
    · exact hnew.1.not_gt h.lt

end Fields

end Declarations

end CobolSymbols
