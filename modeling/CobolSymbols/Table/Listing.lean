import CobolSymbols.Table.Basic

/-!
# Listings

A program is listed in the form of a program: its types and data items by section, its signature, its procedures with
their parameters, and the programs nested in it. Indexes are not listed.
-/

set_option autoImplicit false

namespace CobolSymbols

def DataType.listing : DataType → String
  | .usage none => ""
  | .usage (some format) => " USAGE " ++ format.keyword
  | .picture clause =>
    " PIC " ++ clause.picture.text ++
      if clause.usage = some .display then "" else " USAGE " ++ UsageFormat.keyword clause.usage
  | .group _ leading _ =>
    match leading with
    | some type => type.listing
    | none => ""
  | .array element min max dependingOn =>
    element.listing ++
      (if min = max then " OCCURS " ++ max.toNat.repr
        else " OCCURS " ++ min.toNat.repr ++ " TO " ++ max.toNat.repr) ++
      (match dependingOn with
        | some object => " DEPENDING ON " ++ object.name
        | none => "")
  | .named reference => " TYPE " ++ reference.name
  | .condition => ""
  | .signature _ => ""

namespace Table

def kindListing (t : Table) : ItemKind → String
  | .typeDefinition .weak _ => " TYPEDEF"
  | .typeDefinition .strict _ => " TYPEDEF STRICT"
  | .typeDefinition .strong _ => " TYPEDEF STRONG"
  | .redefines (some target) => " REDEFINES " ++ t.name target
  | .renames first thru _ =>
    " RENAMES " ++ first ++
      match thru with
      | some last => " THRU " ++ last
      | none => ""
  | .plain | .redefines none | .index _ => ""

def itemListing (t : Table) : (steps depth : Nat) → SymbolId → String
  | 0, _, _ => ""
  | steps + 1, depth, id =>
    let s := t.get id
    match s.item? with
    | none => ""
    | some data =>
      if s.kind == .index then ""
      else
        String.ofList (List.replicate (2 * depth) ' ') ++ Text.twoDigits data.level.toNat ++ " " ++ s.name ++
          t.kindListing data.kind ++ ((s.type.map DataType.listing).getD "") ++
          (if s.flags.has .global then " GLOBAL" else "") ++ ".\n" ++
          String.join ((t.fields id).map (t.itemListing steps (depth + 1)))

/-- The signature of a program or procedure as it stands in its header. -/
def signatureListing (t : Table) (id : SymbolId) : String :=
  match (t.get id).type with
  | some (.signature s) =>
    (if s.parameters.isEmpty then "" else " USING" ++ String.join (s.parameters.map fun p => " " ++ t.name p)) ++
      match s.returning with
      | some item => " RETURNING " ++ t.name item
      | none => ""
  | _ => ""

def scopeListing (t : Table) (depth : Nat) (scope : Scope SymbolId) : String :=
  String.join (scope.order.map (t.itemListing t.size depth))

/-- The listing of a program's data division, empty when it declares nothing. -/
def dataListing (t : Table) (scopes : Scopes) : String :=
  let sections := (Labelled.all : List StorageSection).filter fun s => !(scopes.get s.slot).isEmpty
  if scopes.types.isEmpty && sections.isEmpty then ""
  else
    "DATA DIVISION.\n" ++ t.scopeListing 0 scopes.types ++
      String.join (sections.map fun s => s.keyword ++ ".\n" ++ t.scopeListing 0 (scopes.get s.slot))

def procedureListing (t : Table) (id : SymbolId) : String :=
  "DECLARE " ++ t.name id ++ t.signatureListing id ++ ".\n" ++
    (match (t.get id).program? with
      | some data => t.scopeListing 1 data.scopes.linkage
      | none => "") ++
    "END-DECLARE.\n"

/-- The listing of a program with the programs nested in it to a depth of `steps`. -/
def programListing (t : Table) : (steps : Nat) → SymbolId → String
  | 0, _ => ""
  | steps + 1, id =>
    "IDENTIFICATION DIVISION.\nPROGRAM-ID. " ++ t.name id ++ ".\n" ++
      match (t.get id).program? with
      | none => ""
      | some data =>
        t.dataListing data.scopes ++ "PROCEDURE DIVISION" ++ t.signatureListing id ++ ".\n" ++
          String.join (data.scopes.procedures.order.map t.procedureListing) ++
          String.join (data.scopes.programs.order.map (t.programListing steps)) ++
          "END PROGRAM " ++ t.name id ++ ".\n"

def listing (t : Table) (id : SymbolId) : String := t.programListing t.size id

end Table

end CobolSymbols
