import CobolSymbols.Diagnostic.Severity

/-!
# Options of a session
-/

set_option autoImplicit false

namespace CobolSymbols

structure CheckOptions where
  renamesForward : ReportLevel := .error
  untypedItems : ReportLevel := .allow
  unresolvedParameters : ReportLevel := .warning
  unresolvedDependingOn : ReportLevel := .warning
deriving DecidableEq, Repr, Inhabited

structure Options where
  checks : CheckOptions := {}
  logSummary : Bool := true
deriving DecidableEq, Repr, Inhabited

end CobolSymbols
