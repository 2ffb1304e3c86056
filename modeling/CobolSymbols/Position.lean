/-!
# Positions in source files

Lines and columns are 32-bit numbers. The position `0:0` marks what no source line declares. Positions are ordered by
line, then by column.
-/

set_option autoImplicit false

namespace CobolSymbols

abbrev FileId := UInt32

structure Position where
  line : UInt32 := 0
  column : UInt32 := 0
deriving DecidableEq, Repr, Inhabited

namespace Position

def synthetic : Position := {}

def isSynthetic (p : Position) : Bool := p.line == 0

def order (p q : Position) : Ordering :=
  (compare p.line.toNat q.line.toNat).then (compare p.column.toNat q.column.toNat)

def text (p : Position) : String := p.line.toNat.repr ++ ":" ++ p.column.toNat.repr

end Position

structure Location where
  file : FileId
  position : Position
deriving DecidableEq, Repr

def Location.text (l : Location) : String := "#" ++ l.file.toNat.repr ++ ":" ++ l.position.text

end CobolSymbols
