import CobolSymbols.Text.Label

/-!
# Severities and report levels

A diagnostic is reported with a severity. For an optional check the severity is set by a report level, and a check that
is allowed reports nothing.
-/

set_option autoImplicit false

namespace CobolSymbols

inductive Severity where
  | info
  | warning
  | error
deriving DecidableEq, Repr

namespace Severity

instance : Labelled Severity where
  all := [.info, .warning, .error]
  label
    | .info => "Info"
    | .warning => "Warning"
    | .error => "Error"

def text : Severity → String
  | .info => "info"
  | .warning => "warning"
  | .error => "error"

/-- The place of the severity in the order from mild to serious. -/
def rank : Severity → Nat
  | .info => 0
  | .warning => 1
  | .error => 2

def max (a b : Severity) : Severity := if a.rank ≤ b.rank then b else a

end Severity

inductive ReportLevel where
  | error
  | warning
  | allow
deriving DecidableEq, Repr, Inhabited

namespace ReportLevel

instance : Labelled ReportLevel where
  all := [.error, .warning, .allow]
  label
    | .error => "error"
    | .warning => "warning"
    | .allow => "allow"

/-- The severity to report with, none when the check is silent. -/
def severity? : ReportLevel → Option Severity
  | .error => some .error
  | .warning => some .warning
  | .allow => none

end ReportLevel

end CobolSymbols
