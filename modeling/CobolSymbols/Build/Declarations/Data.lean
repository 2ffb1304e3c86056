import CobolSymbols.Build.Declarations.Basic
import CobolSymbols.Build.Redefines
import CobolSymbols.Build.Renames
import CobolSymbols.Tree.Basic

/-!
# Data

A definition is made into a symbol together with the definitions below it, so a group is made after all of its fields
are known: first the symbol of the group, then its fields, then the group's own place in its scope, then its indexes.
Items in the body of a type take no storage of their own.
-/

set_option autoImplicit false

namespace CobolSymbols

structure Placement where
  parent : Option ScopeRef
  typeBody : Option SymbolId

/-- The item with one more item of its body that refers to a type, when it is a type definition. -/
def ItemData.addTypedItem (id : SymbolId) (data : ItemData) : ItemData :=
  match data.kind with
  | .typeDefinition restriction items => { data with kind := .typeDefinition restriction (items ++ [id]) }
  | _ => data

namespace Declarations

/-- Queue an item that refers to a type: with the type whose body it lies in, or for the end of the unit. -/
def queueTyped (d : Declarations) (id : SymbolId) : Option SymbolId → Declarations
  | none => { d with typedItems := d.typedItems ++ [id] }
  | some type => d.modify type (Symbol.mapItem (ItemData.addTypedItem id))

/-- Queue a table with a DEPENDING ON object: by the type whose body it lies in, or by itself. -/
def queueDependent (d : Declarations) (id : SymbolId) : Option SymbolId → Declarations
  | none => { d with dependentTables := d.dependentTables ++ [id] }
  | some type =>
    if d.dependentTypes.contains type then d else { d with dependentTypes := d.dependentTypes ++ [type] }

def addToDomain (d : Declarations) (id : SymbolId) : Declarations :=
  match d.currentScope with
  | some scope => d.mapTable fun t => t.addToDomain scope id
  | none => d

/-- Make a symbol an item of the current program and give it a slot among all variables, unless it lies in the body of
a type. -/
def storeVariable (d : Declarations) (id : SymbolId) : (typeBody : Option SymbolId) → Declarations
  | none => (d.addToDomain id).mapTable fun t => (t.addVariable id).2
  | some _ => d

def clauseFlags (entry : DataEntry) : SymbolFlags :=
  ((((((FlagSet.insertIf ∅ entry.blankWhenZero .blankWhenZero).insertIf entry.justified .justified).insertIf
    entry.synchronized .synchronized).insertIf entry.signSeparate .signSeparate).insertIf entry.isExternal
    .external).insertIf entry.groupUsageNational .groupUsageNational).insertIf entry.value.isSome .hasValue

def kindFlags (entry : DataEntry) : ItemKind → SymbolFlags
  | .redefines _ => .single .redefines
  | .typeDefinition restriction _ =>
    let visible := (entry.typeClause.bind (·.visibility)).toList.map Visibility.flag
    (FlagSet.ofList (restriction.flag :: visible)).insertIf entry.isGlobal .global
  | _ => ∅

/-- The owner of a data symbol: the owner of its scope, or else the current program or procedure. -/
def ownerOf (d : Declarations) (place : Placement) : Option SymbolId :=
  match place.parent with
  | some parent => some parent.owner
  | none => d.currentScope

/-- The storage section whose flag a data symbol carries; types and what lies in their bodies carry none. -/
def originOf (d : Declarations) (place : Placement) (kind : SymbolKind) : Option StorageSection :=
  if place.typeBody.isNone && kind != .typeDefinition then d.storage else none

/-- The flags of a data symbol that come from its clauses and from where it stands. Items outside of types carry the
flag of their storage section. A GLOBAL clause counts for the fields below it too, except in GLOBAL-STORAGE, where it
says nothing new. -/
def placeFlags (d : Declarations) (entry : Option DataEntry) (place : Placement) (kind : SymbolKind) : SymbolFlags :=
  let ownerSymbol := (d.ownerOf place).map d.table.get
  let ownerFlags := (ownerSymbol.map (·.flags)).getD ∅
  let inherits := ownerSymbol.any fun s => !s.isScope
  let storage := d.originOf place kind
  let origin : SymbolFlags := FlagSet.ofList (storage.toList.map StorageSection.flag)
  let flags : SymbolFlags :=
    match entry with
    | none => if inherits then origin ∪ (ownerFlags ∩ SymbolFlags.visibility) else origin
    | some entry =>
      let mayBeGlobal := storage.any (· != .globalStorage)
      let global := origin.insertIf ((entry.isGlobal || ownerFlags.has .global) && mayBeGlobal) .global
      let seen := if inherits then global ∪ (ownerFlags ∩ .ofList [.exported, .hidden]) else global
      seen ∪ clauseFlags entry
  flags.insertIf place.typeBody.isSome .inTypeBody

/-- A data symbol with its owner and the flags that come from where it stands. -/
def placed (d : Declarations) (entry : Option DataEntry) (place : Placement) (s : Symbol) : Symbol :=
  { s with owner := d.ownerOf place, flags := s.flags ∪ d.placeFlags entry place s.kind }

def setType (d : Declarations) (id : SymbolId) (type : DataType) : Declarations :=
  d.modify id fun s => { s with type := some type }

/-- The type that the PICTURE and USAGE clauses of an entry give; a malformed picture is reported. -/
def elementaryType (d : Declarations) (entry : DataEntry) : Option DataType × Declarations :=
  match entry.picture with
  | none => (entry.usage.map fun usage => .usage (some usage), d)
  | some text =>
    match Picture.parse text with
    | .ok picture =>
      (some (.picture ⟨picture, some (entry.usage.getD .display), entry.signSeparate⟩), d)
    | .error reason => (none, d.report (.invalidPicture entry.displayName text reason) entry.position)

def setElementary (d : Declarations) (id : SymbolId) (entry : DataEntry) (typeBody : Option SymbolId) :
    Declarations :=
  match d.elementaryType entry with
  | (some type, d) => d.setType id type
  | (none, d) =>
    match entry.userType with
    | some reference => (d.setType id (.named ⟨reference.name, reference.position, none⟩)).queueTyped id typeBody
    | none =>
      let level := d.context.options.untypedItems
      { d with context := d.context.reportAt level (.untypedItem entry.displayName) entry.position }

def setLeading (d : Declarations) (id : SymbolId) (entry : DataEntry) : Declarations :=
  let (leading, d) := d.elementaryType entry
  d.modify id fun s => { s with type := s.type.map (DataType.setLeading leading) }

def wrapArray (d : Declarations) (id : SymbolId) (entry : DataEntry) (typeBody : Option SymbolId) : Declarations :=
  match entry.occurs, (d.table.get id).type with
  | some occurs, some element =>
    if occurs.max ≤ 1 then d
    else
      let object := occurs.dependingOn.map fun r => (⟨r.name, r.position, none⟩ : DependingOn)
      let d := d.setType id (.array element occurs.min occurs.max object)
      if object.isSome then d.queueDependent id typeBody else d
  | _, _ => d

/-- The symbol of an index, with the flags of the indexed item that tell where it stands. -/
def indexSymbol (d : Declarations) (indexed : SymbolId) (name : IndexName) : Symbol :=
  let s := d.table.get indexed
  { name := name.name
    flags := s.flags ∩ (.ofList [.global, .inTypeBody] ∪ SymbolFlags.storageOrigin)
    owner := s.owner
    type := some (.usage (some .index))
    position := name.position
    body := .item { level := s.level?.getD 0, kind := .index indexed } }

def declareIndex (d : Declarations) (indexed : SymbolId) (parent : ScopeRef) (typeBody : Option SymbolId)
    (name : IndexName) : SymbolId × Declarations :=
  let (id, d) := d.alloc (d.indexSymbol indexed name)
  (id, (d.enterIn id (some parent)).storeVariable id typeBody)

def declareIndexes (indexed : SymbolId) (parent : ScopeRef) (typeBody : Option SymbolId) :
    Forest → Declarations → Forest × Declarations
  | .nil, d => (.nil, d)
  | .cons node children siblings, d =>
    match node.kind with
    | .index name =>
      let (id, d) := d.declareIndex indexed parent typeBody name
      let (siblings, d) := declareIndexes indexed parent typeBody siblings d
      (.cons (node.bindSymbol id) children siblings, d)
    | _ =>
      let (siblings, d) := declareIndexes indexed parent typeBody siblings d
      (.cons node children siblings, d)

def itemSymbol (d : Declarations) (entry : DataEntry) (kind : ItemKind) (place : Placement) : Symbol :=
  d.placed (some entry) place
    { name := entry.displayName
      flags := kindFlags entry kind
      position := entry.position
      body := .item { level := entry.level, value := entry.value.map .initial, kind } }

/-- Give an item its type. `fields` makes the symbols of the definitions among its children, in the item's own scope. -/
def declareContent (d : Declarations) (id : SymbolId) (entry : DataEntry) (typeBody : Option SymbolId)
    (children : Forest) (fields : Placement → Declarations → Forest × Declarations) : Forest × Declarations :=
  if children.roots.any Node.isDefinition then
    let (children, d) := fields ⟨some (.fields id), typeBody⟩ (d.setType id (.group {} none id))
    (children, (d.setLeading id entry).wrapArray id entry typeBody)
  else (children, (d.setElementary id entry typeBody).wrapArray id entry typeBody)

/-- Enter an item whose type is known into its scope, followed by its indexes; types have none. -/
def enterItem (d : Declarations) (id : SymbolId) (isType : Bool) (place : Placement) (children : Forest) :
    Forest × Declarations :=
  let d := d.enterIn id place.parent
  if isType then (children, d.registerType id)
  else
    let d := d.storeVariable id place.typeBody
    match place.parent with
    | some parent => declareIndexes id parent place.typeBody children d
    | none => (children, d)

/-- Make the symbol of an entry with clauses. `fields` makes the symbols of the definitions among its children. -/
def declareItem (d : Declarations) (entry : DataEntry) (kind : ItemKind) (place : Placement) (children : Forest)
    (fields : Placement → Declarations → Forest × Declarations) : SymbolId × Forest × Declarations :=
  let (id, d) := d.alloc (d.itemSymbol entry kind place)
  let typeBody := if kind.isType then some id else place.typeBody
  let (children, d) := d.declareContent id entry typeBody children fields
  (id, d.enterItem id kind.isType place children)

def placeItem (d : Declarations) (s : Symbol) (place : Placement) : SymbolId × Declarations :=
  let (id, d) := d.alloc (d.placed none place s)
  (id, (d.enterIn id place.parent).storeVariable id place.typeBody)

def renamesSymbol (entry : RenamesEntry) : Symbol :=
  { name := entry.name
    position := entry.position
    body := .item
      { level := renamesLevel, kind := .renames entry.first.name (entry.thru.map (·.name)) none } }

/-- Make the symbol of a level-66 entry and queue the entry until its record is complete. -/
def declareRenames (d : Declarations) (entry : RenamesEntry) (place : Placement) : SymbolId × Declarations :=
  let (id, d) := d.placeItem (renamesSymbol entry) place
  (id, { d with pendingRenames := d.pendingRenames ++ [(id, entry)] })

def conditionSymbol (entry : ConditionEntry) : Symbol :=
  { name := entry.name
    type := some .condition
    position := entry.position
    body := .item { level := conditionLevel, value := some (.conditions entry.values), kind := .plain } }

def declareCondition (d : Declarations) (entry : ConditionEntry) (place : Placement) : SymbolId × Declarations :=
  d.placeItem (conditionSymbol entry) place

/-- The item that an entry redefines; a fault is reported where the item is named. -/
def redefinesTarget (d : Declarations) (entry : RedefinesEntry) (parent : Option ScopeRef) :
    Option SymbolId × Declarations :=
  let (target, context) := d.context.redefinesTarget entry parent
  (target, { d with context })

/-- Make the symbol of a definition. A type definition outside of types makes none here, and neither does a node that
declares no data. -/
def declareNode (d : Declarations) (node : Node) (place : Placement) (children : Forest)
    (fields : Placement → Declarations → Forest × Declarations) : Option SymbolId × Forest × Declarations :=
  match node.kind with
  | .typeDefinition entry =>
    if place.typeBody.isNone then (none, children, d)
    else
      let (id, children, d) := d.declareItem entry .plain place children fields
      (some id, children, d)
  | .data entry | .parameter entry _ =>
    let (id, children, d) := d.declareItem entry .plain place children fields
    (some id, children, d)
  | .redefines entry =>
    let (target, d) := d.redefinesTarget entry place.parent
    let (id, children, d) := d.declareItem entry.entry (.redefines target) place children fields
    (some id, children, d)
  | .renames entry =>
    let (id, d) := d.declareRenames entry place
    (some id, children, d)
  | .condition entry =>
    let (id, d) := d.declareCondition entry place
    (some id, children, d)
  | _ => (none, children, d)

def bindIfMade (node : Node) : Option SymbolId → Node
  | some id => node.bindSymbol id
  | none => node

/-- Make the symbols of the definitions on top of a forest, with those below them. -/
def declareFields : Forest → Placement → Declarations → Forest × Declarations
  | .nil, _, d => (.nil, d)
  | .cons node children siblings, place, d =>
    let (made, children, d) := d.declareNode node place children (fun place d => declareFields children place d)
    let (siblings, d) := declareFields siblings place d
    (.cons (bindIfMade node made) children siblings, d)

def declareType (d : Declarations) (node : Node) (entry : DataEntry) (scope : SymbolId) (children : Forest) :
    Tree × Declarations :=
  let restriction := (entry.typeClause.getD {}).restriction
  let (id, children, d) := d.declareItem entry (.typeDefinition restriction []) ⟨some (.slot scope .types), none⟩
    children (fun place d => declareFields children place d)
  (⟨node.bindSymbol id, children⟩, d)

/-- Make the symbols of a definition that lies in no other one into the scope of the storage section being read. -/
def declareTop (d : Declarations) (tree : Tree) (scope : SymbolId) : Tree × Declarations :=
  match tree.node.kind with
  | .typeDefinition entry => d.declareType tree.node entry scope tree.children
  | _ =>
    let parent := d.storage.map fun kept => ScopeRef.slot scope (StorageSection.slot kept)
    let (made, children, d) := d.declareNode tree.node ⟨parent, none⟩ tree.children
      (fun place d => declareFields tree.children place d)
    (⟨bindIfMade tree.node made, children⟩, d)

def clearRenames (d : Declarations) : Declarations := { d with pendingRenames := [] }

def checkRenames (d : Declarations) : Declarations :=
  { d with context := d.pendingRenames.foldl (fun c (id, entry) => Context.validateRenames c id entry) d.context }

/-- Make the symbols of a definition that lies in no other one, and check its level-66 entries. -/
def declareRecord (d : Declarations) (tree : Tree) : Tree × Declarations :=
  let d := d.clearRenames
  match d.currentScope with
  | none => (tree, d)
  | some scope =>
    let (tree, d) := d.declareTop tree scope
    (tree, d.checkRenames.clearRenames)

end Declarations

end CobolSymbols
