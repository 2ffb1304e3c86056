import CobolSymbols.Diagnostic.Severity
import CobolSymbols.Entry.Data
import CobolSymbols.Picture.Error
import CobolSymbols.Text.Numeral

/-!
# Diagnostics

A problem is something wrong with a unit; building goes on after it. Each kind of problem has a code and a message. A
diagnostic is a problem with its severity and its place.
-/

set_option autoImplicit false

namespace CobolSymbols

inductive Problem where
  | duplicateProgram (name : String)
  | unresolvedType (name : String)
  | ambiguousType (name : String) (candidates : Nat)
  /-- Types contain each other; the first name of the cycle is repeated at its end. -/
  | circularType (cycle : List String)
  | unresolvedRedefines (name target : String)
  | redefinesNotPreceding (name target : String)
  | ambiguousRedefines (name target : String)
  | redefinesNotAllowed (name : String)
  | unknownRenamed (name target : String)
  | ambiguousRenamed (name target : String)
  | invalidRenamesLevel (name target : String) (level : Level)
  | renamesOrder (name first thru : String)
  | renamesSpansOccurs (name item : String)
  | renamesNotGroup (name : String)
  | renamesForward (name target : String)
  | invalidPicture (name picture : String) (reason : PictureError)
  | unresolvedParameter (name : String)
  | unresolvedDependingOn (name object : String)
  | untypedItem (name : String)
deriving DecidableEq, Repr

namespace Problem

def code : Problem → String
  | .duplicateProgram .. => "semantic::duplicate_program"
  | .unresolvedType .. => "semantic::unresolved_type"
  | .ambiguousType .. => "semantic::ambiguous_type"
  | .circularType .. => "semantic::circular_type_reference"
  | .unresolvedRedefines .. => "semantic::unresolved_redefines_target"
  | .redefinesNotPreceding .. => "semantic::redefines_not_immediately_preceding"
  | .ambiguousRedefines .. => "semantic::ambiguous_redefines_target"
  | .redefinesNotAllowed .. => "semantic::redefines_not_allowed_here"
  | .unknownRenamed .. => "semantic::unknown_renamed_symbol"
  | .ambiguousRenamed .. => "semantic::ambiguous_renamed_symbol"
  | .invalidRenamesLevel .. => "semantic::invalid_renames_level"
  | .renamesOrder .. => "semantic::renames_order_violation"
  | .renamesSpansOccurs .. => "semantic::renames_spans_occurs"
  | .renamesNotGroup .. => "semantic::renames_not_a_group"
  | .renamesForward .. => "semantic::renames_forward_reference"
  | .invalidPicture .. => "semantic::invalid_picture"
  | .unresolvedParameter .. => "semantic::unresolved_using_parameter"
  | .unresolvedDependingOn .. => "semantic::unresolved_depending_on"
  | .untypedItem .. => "semantic::untyped_data_item"

def message : Problem → String
  | .duplicateProgram name => "program '" ++ name ++ "' is already declared at this nesting level"
  | .unresolvedType name => "TYPE '" ++ name ++ "' is not referenced"
  | .ambiguousType name candidates =>
    "ambiguous reference to TYPE '" ++ name ++ "' (" ++ candidates.repr ++ " candidates)"
  | .circularType cycle => "type circular reference detected: " ++ " -> ".intercalate cycle
  | .unresolvedRedefines name target => "REDEFINES target '" ++ target ++ "' of '" ++ name ++ "' is not declared"
  | .redefinesNotPreceding name target =>
    "'" ++ target ++ "' is not the item immediately preceding '" ++ name ++ "' at the same level"
  | .ambiguousRedefines name target => "REDEFINES target '" ++ target ++ "' of '" ++ name ++ "' is ambiguous"
  | .redefinesNotAllowed name => "REDEFINES is not allowed for '" ++ name ++ "' here"
  | .unknownRenamed name target =>
    "'" ++ target ++ "' renamed by '" ++ name ++ "' is not declared in the enclosing record"
  | .ambiguousRenamed name target => "'" ++ target ++ "' renamed by '" ++ name ++ "' is ambiguous"
  | .invalidRenamesLevel name target level =>
    "'" ++ target ++ "' is a level " ++ Text.twoDigits level.toNat ++ " item and cannot be renamed by '" ++ name ++ "'"
  | .renamesOrder name first thru => "'" ++ thru ++ "' must not precede '" ++ first ++ "' in RENAMES '" ++ name ++ "'"
  | .renamesSpansOccurs name item => "RENAMES '" ++ name ++ "' spans OCCURS item '" ++ item ++ "'"
  | .renamesNotGroup name => "RENAMES '" ++ name ++ "' must follow a level 01 group"
  | .renamesForward name target => "'" ++ target ++ "' is declared after RENAMES '" ++ name ++ "'"
  | .invalidPicture name picture _ => "invalid PICTURE '" ++ picture ++ "' for '" ++ name ++ "'"
  | .unresolvedParameter name => "'" ++ name ++ "' is not declared in the LINKAGE SECTION"
  | .unresolvedDependingOn name object =>
    "DEPENDING ON object '" ++ object ++ "' of '" ++ name ++ "' cannot be resolved"
  | .untypedItem name => "'" ++ name ++ "' has no type"

/-- What lies behind the problem: the fault of a malformed picture. -/
def cause? : Problem → Option String
  | .invalidPicture _ _ reason => some reason.message
  | _ => none

def help? : Problem → Option String
  | .unresolvedType .. => some "declare the TYPEDEF or make it visible"
  | .renamesForward .. => some "move the level 66 entry after the last item it renames"
  | _ => none

end Problem

structure Diagnostic where
  problem : Problem
  severity : Severity
  location : Location
deriving DecidableEq, Repr

namespace Diagnostic

def code (d : Diagnostic) : String := d.problem.code

/-- The diagnostic on one line: place, severity, code and message. -/
def text (d : Diagnostic) : String :=
  d.location.text ++ ": " ++ d.severity.text ++ "[" ++ d.code ++ "]: " ++ d.problem.message

def hasErrors (ds : List Diagnostic) : Bool := ds.any fun d => d.severity == .error

def countCode (ds : List Diagnostic) (code : String) : Nat := ds.countP fun d => d.code == code

def worst? (ds : List Diagnostic) : Option Severity :=
  ds.foldl (fun worst d => some (match worst with
    | none => d.severity
    | some s => s.max d.severity)) none

end Diagnostic

end CobolSymbols
