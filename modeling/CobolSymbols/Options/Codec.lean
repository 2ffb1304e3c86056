import CobolSymbols.Json.Record
import CobolSymbols.Options.Basic
import CobolSymbols.Settings.Reader

/-!
# Options in JSON and in settings text

Every option has a default, and unknown names are passed over.
-/

set_option autoImplicit false

namespace CobolSymbols

open Json

namespace CheckOptions

def toJson (c : CheckOptions) : Json :=
  .object [("renames-forward-references", ofLabelled c.renamesForward),
    ("untyped-placeholders", ofLabelled c.untypedItems), ("unresolved-using", ofLabelled c.unresolvedParameters),
    ("unresolved-depending-on", ofLabelled c.unresolvedDependingOn)]

def ofJson? (j : Json) : Option CheckOptions := do
  let r ← record? ["renames-forward-references", "untyped-placeholders", "unresolved-using",
    "unresolved-depending-on"] j
  let renamesForward ← r.withDefault "renames-forward-references" .error labelled?
  let untypedItems ← r.withDefault "untyped-placeholders" .allow labelled?
  let unresolvedParameters ← r.withDefault "unresolved-using" .warning labelled?
  let unresolvedDependingOn ← r.withDefault "unresolved-depending-on" .warning labelled?
  return ⟨renamesForward, untypedItems, unresolvedParameters, unresolvedDependingOn⟩

end CheckOptions

namespace Options

def toJson (o : Options) : Json :=
  .object [("semantic", o.checks.toJson), ("trace", .object [("log-unit-summary", .bool o.logSummary)])]

def logSummary? (j : Json) : Option Bool := do
  let r ← record? ["log-unit-summary"] j
  r.withDefault "log-unit-summary" true bool?

def ofJson? (j : Json) : Option Options := do
  let r ← record? ["semantic", "trace"] j
  let checks ← r.withDefault "semantic" {} CheckOptions.ofJson?
  let logSummary ← r.withDefault "trace" true logSummary?
  return { checks, logSummary }

end Options

inductive OptionsError where
  | malformedText
  | malformedFile
  | unreadableFile
deriving DecidableEq, Repr

def OptionsError.message : OptionsError → String
  | .malformedText => "Failed to parse compiler options"
  | .malformedFile => "Failed to parse options file"
  | .unreadableFile => "Failed to read options file"

def Options.ofText (text : String) : Except OptionsError Options :=
  match (Settings.parse? text).bind Options.ofJson? with
  | some options => .ok options
  | none => .error .malformedText

/-- The options written by a settings file, given its contents if they can be read. -/
def Options.ofFile (contents : Option String) : Except OptionsError Options :=
  match contents with
  | none => .error .unreadableFile
  | some text =>
    match (Settings.parse? text).bind Options.ofJson? with
    | some options => .ok options
    | none => .error .malformedFile

end CobolSymbols
