/-!
# Reusable indices

A pool hands out indices. A released index is handed out again before a new one is made, the most recently released
first, so the pool grows only when nothing is free.
-/

set_option autoImplicit false

namespace CobolSymbols

/-- The indices handed out and those free for reuse. -/
structure IndexPool where
  next : Nat := 0
  free : List Nat := []
deriving DecidableEq, Repr, Inhabited

namespace IndexPool

def allocate (p : IndexPool) : Nat × IndexPool :=
  match p.free with
  | index :: rest => (index, { p with free := rest })
  | [] => (p.next, { p with next := p.next + 1 })

def release (p : IndexPool) (index : Nat) : IndexPool := { p with free := index :: p.free }

def capacity (p : IndexPool) : Nat := p.next

def live (p : IndexPool) : Nat := p.next - p.free.length

end IndexPool

end CobolSymbols
