import CobolSymbols.Build.Context
import CobolSymbols.Table.Lookup
import CobolSymbols.Table.Size

/-!
# RENAMES entries

A level-66 entry gives a name to a stretch of the record before it. Once the record is complete its items are laid out
in declaration order, each with its depth and its offset: a redefining item starts where its target starts, and items
that take no storage start where the next one will. The renamed items are found in this layout by name. They have to be
declared before the entry, in order, and outside of tables.
-/

set_option autoImplicit false

namespace CobolSymbols

structure LayoutItem where
  id : SymbolId
  depth : Nat
  offset : Nat
  size : Option Nat
  inTable : Bool
deriving DecidableEq, Repr

/-- The sum of an offset and a size, at most the greatest 32-bit number. -/
def advance (offset size : Nat) : Nat := min (offset + size) Text.wordMax

namespace Table

def isTable (t : Table) (id : SymbolId) : Bool := (t.get id).type.any DataType.isArray

/-- Where a field starts, and whether the next one starts after it; indexes have no place. -/
def placeOf (t : Table) (laidOut : List LayoutItem) (cursor : Nat) (id : SymbolId) : Option (Nat × Bool) :=
  match (t.get id).item? with
  | none => none
  | some data =>
    match data.kind with
    | .index _ => none
    | .renames .. => some (cursor, false)
    | .redefines target =>
      let place := target.bind fun target => laidOut.find? fun item => item.id == target
      some ((place.map (·.offset)).getD cursor, false)
    | .plain | .typeDefinition .. => some (cursor, data.level != conditionLevel)

/-- The layout after the fields of a group are added, to a depth of `steps` more levels. -/
def layoutFields (t : Table) : (steps depth start : Nat) → (inTable : Bool) → SymbolId → List LayoutItem →
    List LayoutItem
  | 0, _, _, _, _, laidOut => laidOut
  | steps + 1, depth, start, inTable, group, laidOut =>
    let add := fun (state : Nat × List LayoutItem) (field : SymbolId) =>
      let (cursor, laidOut) := state
      match t.placeOf laidOut cursor field with
      | none => (cursor, laidOut)
      | some (offset, advances) =>
        let size := if advances || (t.get field).kind == .redefines then t.sizeOf field else some 0
        let inside := inTable || t.isTable field
        let laidOut := laidOut ++ [⟨field, depth, offset, size, inside⟩]
        let laidOut := t.layoutFields steps (depth + 1) offset inside field laidOut
        (if advances then advance cursor (size.getD 0) else cursor, laidOut)
    ((t.fields group).foldl add (start, laidOut)).2

/-- The items of a record in declaration order, the record itself first. -/
def layout (t : Table) (record : SymbolId) : List LayoutItem :=
  t.layoutFields t.size 1 0 (t.isTable record) record [⟨record, 0, 0, t.sizeOf record, t.isTable record⟩]

end Table

/-- The items of a layout that follow its item number `index` and are subordinate to it. -/
def LayoutItem.subordinates (items : List LayoutItem) (index : Nat) : List LayoutItem :=
  match items.drop index with
  | [] => []
  | item :: rest => rest.takeWhile fun other => item.depth < other.depth

def isRenamable (level : Level) : Bool :=
  level != 1 && level != renamesLevel && level != independentLevel && level != conditionLevel

def Context.renamedItem (c : Context) (items : List LayoutItem) (name : String) (reference : Reference) :
    Except Problem Nat :=
  let named := fun (item : LayoutItem) => c.table.name item.id == reference.name
  match (items.zipIdx.filter fun (item, _) => named item) with
  | [] => .error (.unknownRenamed name reference.name)
  | [(item, index)] =>
    let s := c.table.get item.id
    let level := s.level?.getD 0
    if s.kind != .renames && isRenamable level then .ok index
    else .error (.invalidRenamesLevel name reference.name level)
  | _ => .error (.ambiguousRenamed name reference.name)

structure RenamedRange where
  first : Nat
  thru : Option Nat

/-- Report renamed items that stand after the entry; the result tells whether the entry is still good. -/
def Context.checkForward (c : Context) (entry : RenamesEntry) (own : Nat) :
    List (Nat × Reference) → Bool × Context
  | [] => (true, c)
  | (index, reference) :: rest =>
    if index ≤ own then c.checkForward entry own rest
    else
      let level := c.options.renamesForward
      let c := c.reportAt level (.renamesForward entry.name reference.name) reference.position
      if level = .error then (false, c) else c.checkForward entry own rest

/-- The bytes of the layout that a range stands for, or what is wrong with it. -/
def Table.renamesRange (t : Table) (items : List LayoutItem) (entry : RenamesEntry) (range : RenamedRange) :
    Except Problem RenamesRange :=
  let last := range.thru.getD range.first
  if last < range.first then
    .error (.renamesOrder entry.name entry.first.name ((entry.thru.map (·.name)).getD ""))
  else
    let stop := last + (LayoutItem.subordinates items last).length
    let renamed := (items.take (stop + 1)).drop range.first
    match renamed.find? (·.inTable) with
    | some item => .error (.renamesSpansOccurs entry.name (t.name item.id))
    | none =>
      let idAt := fun (index : Nat) => (items[index]?.map (·.id)).getD 0
      let offset := (items[range.first]?.map (·.offset)).getD 0
      let length :=
        if renamed.all fun item => item.size.isSome then
          (items[last]?.bind fun item => checkedSize (item.offset + item.size.getD 0)).map (· - offset)
        else none
      .ok { first := idAt range.first, thru := range.thru.map idAt, offset, length }

def ItemData.setRange (range : RenamesRange) (data : ItemData) : ItemData :=
  match data.kind with
  | .renames first thru _ => { data with kind := .renames first thru (some range) }
  | _ => data

/-- Check a level-66 item against the record it follows and keep its range. -/
def Context.validateRenames (c : Context) (id : SymbolId) (entry : RenamesEntry) : Context :=
  let record := c.table.topLevelItem id
  if record = id || (c.table.get record).fields?.isNone then
    c.report (.renamesNotGroup entry.name) entry.position
  else
    let items := c.table.layout record
    match items.findIdx? fun item => item.id == id with
    | none => c
    | some own =>
      match c.renamedItem items entry.name entry.first with
      | .error problem => c.report problem entry.first.position
      | .ok first =>
        let thru := entry.thru.map fun reference => (reference, c.renamedItem items entry.name reference)
        match thru with
        | some (reference, .error problem) => c.report problem reference.position
        | _ =>
          let last := thru.bind fun (reference, found) => found.toOption.map (·, reference)
          match c.checkForward entry own ((first, entry.first) :: last.toList) with
          | (false, c) => c
          | (true, c) =>
            match c.table.renamesRange items entry ⟨first, last.map (·.1)⟩ with
            | .error problem => c.report problem entry.position
            | .ok range => c.modify id (Symbol.mapItem (ItemData.setRange range))

end CobolSymbols
