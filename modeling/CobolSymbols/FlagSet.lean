import CobolSymbols.Text.Label

/-!
# Sets of flags

A set of flags is kept as a number, one bit for each flag. `FlagSet.has` is the view through which sets are read:
union and intersection are the Boolean operations on it.
-/

set_option autoImplicit false

namespace CobolSymbols

/-- An enumeration whose words are flags, each with a bit of its own. -/
class Flag (F : Type) extends Labelled F where
  position : F → Nat

structure FlagSet (F : Type) where
  /-- The number whose binary digits tell which flags are present. -/
  bits : Nat := 0
deriving DecidableEq, Repr

namespace FlagSet

variable {F : Type}

instance : EmptyCollection (FlagSet F) := ⟨⟨0⟩⟩

instance : Inhabited (FlagSet F) := ⟨∅⟩

instance : Union (FlagSet F) := ⟨fun s t => ⟨s.bits ||| t.bits⟩⟩

instance : Inter (FlagSet F) := ⟨fun s t => ⟨s.bits &&& t.bits⟩⟩

def meets (s t : FlagSet F) : Bool := (s ∩ t).bits != 0

variable [Flag F]

-- Powers are those of the numerals, whatever algebra of numbers is in scope.
attribute [local instance (high)] instPowNat

def single (f : F) : FlagSet F := ⟨2 ^ Flag.position f⟩

def has (s : FlagSet F) (f : F) : Bool := s.bits.testBit (Flag.position f)

def ofList (flags : List F) : FlagSet F := flags.foldr (fun f s => single f ∪ s) ∅

def insert (s : FlagSet F) (f : F) : FlagSet F := s ∪ single f

/-- The set with the flag added when the condition holds. -/
def insertIf (s : FlagSet F) (condition : Bool) (f : F) : FlagSet F := if condition then s.insert f else s

def members (s : FlagSet F) : List F := (Labelled.all : List F).filter s.has

end FlagSet

end CobolSymbols
