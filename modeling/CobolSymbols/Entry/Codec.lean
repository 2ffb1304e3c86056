import CobolSymbols.Entry.Procedure
import CobolSymbols.Json.Record

/-!
# Entries and headers in JSON

Each entry and header has a written form `toJson` and a reader `ofJson?`, which accepts that form and the shorter ones
that leave out what has a default.
-/

set_option autoImplicit false

namespace CobolSymbols

open Json

namespace Position

def toJson (p : Position) : Json := .object [("line", ofWord p.line), ("column", ofWord p.column)]

def ofJson? (j : Json) : Option Position := do
  let r ← record? ["line", "column"] j
  let line ← r.required "line" word?
  let column ← r.required "column" word?
  return { line, column }

end Position

namespace Reference

def toJson (r : Reference) : Json := .object [("name", .string r.name), ("position", r.position.toJson)]

def ofJson? (j : Json) : Option Reference := do
  let r ← record? ["name", "position"] j
  let name ← r.required "name" text?
  let position ← r.required "position" Position.ofJson?
  return { name, position }

end Reference

namespace IndexName

def toJson (i : IndexName) : Json := .object [("name", .string i.name), ("position", i.position.toJson)]

def ofJson? (j : Json) : Option IndexName := do
  let r ← record? ["name", "position"] j
  let name ← r.required "name" text?
  let position ← r.required "position" Position.ofJson?
  return { name, position }

end IndexName

namespace Occurs

def toJson (o : Occurs) : Json :=
  .object [("min", ofWord o.min), ("max", ofWord o.max), ("depending_on", ofOption Reference.toJson o.dependingOn),
    ("indexes", ofList IndexName.toJson o.indexes)]

def ofJson? (j : Json) : Option Occurs := do
  let r ← record? ["min", "max", "depending_on", "indexes"] j
  let min ← r.required "min" word?
  let max ← r.required "max" word?
  let dependingOn ← r.optional "depending_on" Reference.ofJson?
  let indexes ← r.withDefault "indexes" [] (list? IndexName.ofJson?)
  return { min, max, dependingOn, indexes }

end Occurs

namespace Literal

def toJson : Literal → Json
  | .alphanumeric text => .object [("Alphanumeric", .string text)]
  | .numeric text => .object [("Numeric", .string text)]
  | .figurative constant => .object [("Figurative", ofLabelled constant)]

def ofJson? (j : Json) : Option Literal :=
  match variant? j with
  | some ("Alphanumeric", some value) => (text? value).map .alphanumeric
  | some ("Numeric", some value) => (text? value).map .numeric
  | some ("Figurative", some value) => (labelled? value).map .figurative
  | _ => none

end Literal

namespace ConditionValue

def toJson (c : ConditionValue) : Json := .object [("value", c.value.toJson), ("thru", ofOption Literal.toJson c.thru)]

def ofJson? (j : Json) : Option ConditionValue := do
  let r ← record? ["value", "thru"] j
  let value ← r.required "value" Literal.ofJson?
  let thru ← r.optional "thru" Literal.ofJson?
  return { value, thru }

end ConditionValue

namespace TypedefClause

def toJson (c : TypedefClause) : Json :=
  .object [("restriction", ofLabelled c.restriction), ("visibility", ofOption ofLabelled c.visibility)]

def ofJson? (j : Json) : Option TypedefClause := do
  let r ← record? ["restriction", "visibility"] j
  let restriction ← r.required "restriction" labelled?
  let visibility ← r.optional "visibility" labelled?
  return { restriction, visibility }

end TypedefClause

namespace DataEntry

def fieldNames : List String :=
  ["level", "name", "position", "picture", "usage", "sign_separate", "occurs", "is_global", "is_external",
    "blank_when_zero", "justified", "synchronized", "group_usage_national", "value", "user_type", "typedef"]

def toJson (e : DataEntry) : Json :=
  .object [("level", .natural e.level.toNat), ("name", ofOption .string e.name), ("position", e.position.toJson),
    ("picture", ofOption .string e.picture), ("usage", ofOption ofLabelled e.usage),
    ("sign_separate", .bool e.signSeparate), ("occurs", ofOption Occurs.toJson e.occurs),
    ("is_global", .bool e.isGlobal), ("is_external", .bool e.isExternal), ("blank_when_zero", .bool e.blankWhenZero),
    ("justified", .bool e.justified), ("synchronized", .bool e.synchronized),
    ("group_usage_national", .bool e.groupUsageNational), ("value", ofOption Literal.toJson e.value),
    ("user_type", ofOption Reference.toJson e.userType), ("typedef", ofOption TypedefClause.toJson e.typeClause)]

/-- The data entry that a value writes; every field has a default. -/
def ofJson? (j : Json) : Option DataEntry := do
  let r ← record? fieldNames j
  let level ← r.withDefault "level" 0 byte?
  let name ← r.optionalWithDefault "name" text?
  let position ← r.withDefault "position" {} Position.ofJson?
  let picture ← r.optionalWithDefault "picture" text?
  let usage ← r.optionalWithDefault "usage" labelled?
  let signSeparate ← r.withDefault "sign_separate" false bool?
  let occurs ← r.optionalWithDefault "occurs" Occurs.ofJson?
  let isGlobal ← r.withDefault "is_global" false bool?
  let isExternal ← r.withDefault "is_external" false bool?
  let blankWhenZero ← r.withDefault "blank_when_zero" false bool?
  let justified ← r.withDefault "justified" false bool?
  let synchronized ← r.withDefault "synchronized" false bool?
  let groupUsageNational ← r.withDefault "group_usage_national" false bool?
  let value ← r.optionalWithDefault "value" Literal.ofJson?
  let userType ← r.optionalWithDefault "user_type" Reference.ofJson?
  let typeClause ← r.optionalWithDefault "typedef" TypedefClause.ofJson?
  return ⟨level, name, position, picture, usage, signSeparate, occurs, isGlobal, isExternal, blankWhenZero, justified,
    synchronized, groupUsageNational, value, userType, typeClause⟩

end DataEntry

namespace RedefinesEntry

def toJson (e : RedefinesEntry) : Json := .object [("entry", e.entry.toJson), ("redefines", e.redefines.toJson)]

def ofJson? (j : Json) : Option RedefinesEntry := do
  let r ← record? ["entry", "redefines"] j
  let entry ← r.required "entry" DataEntry.ofJson?
  let redefines ← r.required "redefines" Reference.ofJson?
  return { entry, redefines }

end RedefinesEntry

namespace RenamesEntry

def toJson (e : RenamesEntry) : Json :=
  .object [("name", .string e.name), ("position", e.position.toJson), ("from", e.first.toJson),
    ("thru", ofOption Reference.toJson e.thru)]

def ofJson? (j : Json) : Option RenamesEntry := do
  let r ← record? ["name", "position", "from", "thru"] j
  let name ← r.required "name" text?
  let position ← r.required "position" Position.ofJson?
  let first ← r.required "from" Reference.ofJson?
  let thru ← r.optional "thru" Reference.ofJson?
  return { name, position, first, thru }

end RenamesEntry

namespace ConditionEntry

def toJson (e : ConditionEntry) : Json :=
  .object [("name", .string e.name), ("position", e.position.toJson), ("values", ofList ConditionValue.toJson e.values)]

def ofJson? (j : Json) : Option ConditionEntry := do
  let r ← record? ["name", "position", "values"] j
  let name ← r.required "name" text?
  let position ← r.required "position" Position.ofJson?
  let values ← r.required "values" (list? ConditionValue.ofJson?)
  return { name, position, values }

end ConditionEntry

namespace FileEntry

def toJson (e : FileEntry) : Json :=
  .object [("name", .string e.name), ("position", e.position.toJson), ("is_global", .bool e.isGlobal),
    ("is_external", .bool e.isExternal)]

def ofJson? (j : Json) : Option FileEntry := do
  let r ← record? ["name", "position", "is_global", "is_external"] j
  let name ← r.required "name" text?
  let position ← r.required "position" Position.ofJson?
  let isGlobal ← r.withDefault "is_global" false bool?
  let isExternal ← r.withDefault "is_external" false bool?
  return { name, position, isGlobal, isExternal }

end FileEntry

namespace CallParameter

def toJson (p : CallParameter) : Json :=
  .object [("target", p.target.toJson), ("sharing", ofOption ofLabelled p.sharing),
    ("direction", ofOption ofLabelled p.direction)]

def ofJson? (j : Json) : Option CallParameter := do
  let r ← record? ["target", "sharing", "direction"] j
  let target ← r.required "target" Reference.ofJson?
  let sharing ← r.optional "sharing" labelled?
  let direction ← r.optional "direction" labelled?
  return { target, sharing, direction }

end CallParameter

namespace ProcedureHeader

def toJson (h : ProcedureHeader) : Json :=
  .object [("position", h.position.toJson), ("using", ofList CallParameter.toJson h.parameters),
    ("returning", ofOption Reference.toJson h.returning)]

def ofJson? (j : Json) : Option ProcedureHeader := do
  let r ← record? ["position", "using", "returning"] j
  let position ← r.required "position" Position.ofJson?
  let parameters ← r.withDefault "using" [] (list? CallParameter.ofJson?)
  let returning ← r.optional "returning" Reference.ofJson?
  return { position, parameters, returning }

end ProcedureHeader

namespace DeclaredProcedure

def toJson (p : DeclaredProcedure) : Json :=
  .object [("name", .string p.name), ("position", p.position.toJson), ("visibility", ofLabelled p.visibility),
    ("kind", ofLabelled p.kind), ("input", ofList DataEntry.toJson p.input),
    ("output", ofList DataEntry.toJson p.output), ("inout", ofList DataEntry.toJson p.inout),
    ("returning", ofOption DataEntry.toJson p.returning)]

/-- The header of a declared procedure that a value writes; every field has a default. -/
def ofJson? (j : Json) : Option DeclaredProcedure := do
  let r ← record? ["name", "position", "visibility", "kind", "input", "output", "inout", "returning"] j
  let name ← r.withDefault "name" "" text?
  let position ← r.withDefault "position" {} Position.ofJson?
  let visibility ← r.withDefault "visibility" .hidden labelled?
  let kind ← r.withDefault "kind" .procedure labelled?
  let input ← r.withDefault "input" [] (list? DataEntry.ofJson?)
  let output ← r.withDefault "output" [] (list? DataEntry.ofJson?)
  let inout ← r.withDefault "inout" [] (list? DataEntry.ofJson?)
  let returning ← r.optionalWithDefault "returning" DataEntry.ofJson?
  return { name, position, visibility, kind, input, output, inout, returning }

end DeclaredProcedure

namespace SectionHeading

def toJson (h : SectionHeading) : Json := .object [("name", .string h.name), ("position", h.position.toJson)]

def ofJson? (j : Json) : Option SectionHeading := do
  let r ← record? ["name", "position"] j
  let name ← r.required "name" text?
  let position ← r.required "position" Position.ofJson?
  return { name, position }

end SectionHeading

namespace ParagraphHeading

def toJson (h : ParagraphHeading) : Json := .object [("name", .string h.name), ("position", h.position.toJson)]

def ofJson? (j : Json) : Option ParagraphHeading := do
  let r ← record? ["name", "position"] j
  let name ← r.required "name" text?
  let position ← r.required "position" Position.ofJson?
  return { name, position }

end ParagraphHeading

namespace Statement

def toJson (s : Statement) : Json := .object [("kind", ofLabelled s.kind), ("position", s.position.toJson)]

def ofJson? (j : Json) : Option Statement := do
  let r ← record? ["kind", "position"] j
  let kind ← r.required "kind" labelled?
  let position ← r.required "position" Position.ofJson?
  return { kind, position }

end Statement

end CobolSymbols
