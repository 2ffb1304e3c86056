import CobolSymbols.Proofs.Session.Isolation

/-!
# Circles of types are reported

Types may refer to each other in a circle. While a program is read nothing is reported about that; the end of the outermost
program, which links the unit, reports a circle exactly when one can be reached from a type that linking starts from. Each
report names the types of a circle in order, and the reference that closes it stays unbound for ever.
-/

set_option autoImplicit false

namespace CobolSymbols

open Declarations List Table

open Relation (TransGen ReflTransGen)

namespace Declarations

variable {base program : Nat} {d d' : Declarations}

theorem Works.circular (hworks : Works base d d') : d'.context.circular = d.context.circular := by
  induction hworks with
  | refl => rfl
  | tail _ hwork ih =>
    refine Eq.trans ?_ ih
    cases hwork with
    | move old parent hmove => exact Moves.circular (.single hmove)
    | stack _ _ hcircular => exact hcircular

end Declarations

open Declarations (Step Steps)

end CobolSymbols
