import CobolSymbols.Entry.Clause
import CobolSymbols.Usage

/-!
# Entries of the data division

A data entry starts with a level number. Levels 66, 77 and 88 have meanings of their own: a level-66 entry renames
items of a record, a level-77 entry stands alone, and a level-88 entry names values of the item before it.
-/

set_option autoImplicit false

namespace CobolSymbols

abbrev Level := UInt8

def renamesLevel : Level := 66

/-- The level of an item that belongs to no record. -/
def independentLevel : Level := 77

def conditionLevel : Level := 88

structure DataEntry where
  level : Level := 0
  name : Option String := none
  position : Position := {}
  picture : Option String := none
  usage : Option Usage := none
  signSeparate : Bool := false
  occurs : Option Occurs := none
  isGlobal : Bool := false
  isExternal : Bool := false
  blankWhenZero : Bool := false
  justified : Bool := false
  synchronized : Bool := false
  groupUsageNational : Bool := false
  value : Option Literal := none
  userType : Option Reference := none
  typeClause : Option TypedefClause := none
deriving DecidableEq, Repr, Inhabited

namespace DataEntry

def named (level : Level) (name : String) (position : Position) : DataEntry := { level, name := some name, position }

def filler (level : Level) (position : Position) : DataEntry := { level, position }

def withPicture (e : DataEntry) (picture : String) : DataEntry := { e with picture := some picture }

def withUsage (e : DataEntry) (usage : Usage) : DataEntry := { e with usage := some usage }

/-- The entry with an OCCURS clause that has no phrases, in place of the one it had. -/
def withOccurs (e : DataEntry) (min max : UInt32) : DataEntry := { e with occurs := some { min, max } }

/-- The entry with a DEPENDING ON phrase; an entry without OCCURS gets one of up to `max` elements. -/
def dependingOn (e : DataEntry) (max : UInt32) (object : Reference) : DataEntry :=
  let occurs := e.occurs.getD { min := 1, max }
  { e with occurs := some { occurs with dependingOn := some object } }

/-- The entry with one more index; an entry without OCCURS gets one of a single element. -/
def indexedBy (e : DataEntry) (name : String) (position : Position) : DataEntry :=
  let occurs := e.occurs.getD { min := 1, max := 1 }
  { e with occurs := some { occurs with indexes := occurs.indexes ++ [⟨name, position⟩] } }

def asGlobal (e : DataEntry) : DataEntry := { e with isGlobal := true }

def asExternal (e : DataEntry) : DataEntry := { e with isExternal := true }

def withValue (e : DataEntry) (value : Literal) : DataEntry := { e with value := some value }

def ofType (e : DataEntry) (reference : Reference) : DataEntry := { e with userType := some reference }

def asTypeDefinition (e : DataEntry) (clause : TypedefClause) : DataEntry := { e with typeClause := some clause }

def isTypeDefinition (e : DataEntry) : Bool := e.typeClause.isSome

def maxOccurs (e : DataEntry) : UInt32 := (e.occurs.map Occurs.max).getD 1

def displayName (e : DataEntry) : String := e.name.getD "FILLER"

def indexNames (e : DataEntry) : List IndexName := (e.occurs.map Occurs.indexes).getD []

end DataEntry

structure RedefinesEntry where
  entry : DataEntry
  redefines : Reference
deriving DecidableEq, Repr

structure RenamesEntry where
  name : String
  position : Position
  first : Reference
  thru : Option Reference := none
deriving DecidableEq, Repr

structure ConditionEntry where
  name : String
  position : Position
  values : List ConditionValue
deriving DecidableEq, Repr

structure FileEntry where
  name : String
  position : Position
  isGlobal : Bool := false
  isExternal : Bool := false
deriving DecidableEq, Repr

end CobolSymbols
