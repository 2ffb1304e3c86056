import CobolSymbols.Entry.Data

/-!
# Headers of the procedure division

Procedure division headers, declared procedures with their parameters, sections, paragraphs and statements.
-/

set_option autoImplicit false

namespace CobolSymbols

inductive Sharing where
  | byReference
  | byContent
  | byValue
deriving DecidableEq, Repr, Inhabited

instance : Labelled Sharing where
  all := [.byReference, .byContent, .byValue]
  label
    | .byReference => "ByReference"
    | .byContent => "ByContent"
    | .byValue => "ByValue"

inductive Direction where
  | input
  | output
  | inout
deriving DecidableEq, Repr

instance : Labelled Direction where
  all := [.input, .output, .inout]
  label
    | .input => "Input"
    | .output => "Output"
    | .inout => "InOut"

structure CallParameter where
  target : Reference
  sharing : Option Sharing := none
  direction : Option Direction := none
deriving DecidableEq, Repr

structure ProcedureHeader where
  position : Position := {}
  parameters : List CallParameter := []
  returning : Option Reference := none
deriving DecidableEq, Repr, Inhabited

inductive ProcedureKind where
  | function
  | procedure
deriving DecidableEq, Repr, Inhabited

instance : Labelled ProcedureKind where
  all := [.function, .procedure]
  label
    | .function => "Function"
    | .procedure => "Procedure"

structure DeclaredProcedure where
  name : String := ""
  position : Position := {}
  visibility : Visibility := .hidden
  kind : ProcedureKind := .procedure
  input : List DataEntry := []
  output : List DataEntry := []
  inout : List DataEntry := []
  returning : Option DataEntry := none
deriving DecidableEq, Repr, Inhabited

/-- The parameters in declaration order with their directions; the RETURNING item comes last and has none. -/
def DeclaredProcedure.parameters (p : DeclaredProcedure) : List (Option Direction × DataEntry) :=
  p.input.map (some .input, ·) ++ p.output.map (some .output, ·) ++ p.inout.map (some .inout, ·) ++
    p.returning.toList.map (none, ·)

structure SectionHeading where
  name : String
  position : Position
deriving DecidableEq, Repr

structure ParagraphHeading where
  name : String
  position : Position
deriving DecidableEq, Repr

inductive StatementKind where
  | move
  | perform
  | call
  | display
  | compute
  | conditional
  | evaluate
  | goback
  | stop
  | proceed
  | set
  | add
  | subtract
  | clear
  | leave
  | other
deriving DecidableEq, Repr

instance : Labelled StatementKind where
  all := [.move, .perform, .call, .display, .compute, .conditional, .evaluate, .goback, .stop, .proceed, .set, .add,
    .subtract, .clear, .leave, .other]
  label
    | .move => "Move"
    | .perform => "Perform"
    | .call => "Call"
    | .display => "Display"
    | .compute => "Compute"
    | .conditional => "If"
    | .evaluate => "Evaluate"
    | .goback => "Goback"
    | .stop => "Stop"
    | .proceed => "Continue"
    | .set => "Set"
    | .add => "Add"
    | .subtract => "Subtract"
    | .clear => "Initialize"
    | .leave => "Exit"
    | .other => "Other"

structure Statement where
  kind : StatementKind
  position : Position
deriving DecidableEq, Repr

end CobolSymbols
