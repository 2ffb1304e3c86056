import CobolSymbols.Json.Basic
import CobolSymbols.Text.Label

/-!
# Records, words and variants in JSON

A record is written as an object of its fields, or as an array of them in declaration order. In an object a field may
stand anywhere, unknown members are passed over, and a field given twice makes the object no record. In an array only
trailing fields that have a default may be left out. An optional field is absent when it is null.

A word of an enumeration is written as its label. A variant that carries a value is written as an object with one
member, named for the variant.
-/

set_option autoImplicit false

namespace CobolSymbols.Json

def repeats : List String → Bool
  | [] => false
  | name :: rest => rest.contains name || repeats rest

structure Record where
  /-- Whether the fields were listed in order, without names. -/
  positional : Bool
  fields : List (String × Json)

/-- The record with the named fields that a value writes. -/
def record? (names : List String) : Json → Option Record
  | .object members =>
    if repeats ((members.map (·.1)).filter names.contains) then none else some ⟨false, members⟩
  | .array elements =>
    if elements.length ≤ names.length then some ⟨true, names.zip elements⟩ else none
  | _ => none

namespace Record

variable {α : Type}

def field? (r : Record) (name : String) : Option Json := List.lookup name r.fields

def required (r : Record) (name : String) (read : Json → Option α) : Option α := (r.field? name).bind read

def withDefault (r : Record) (name : String) (value : α) (read : Json → Option α) : Option α :=
  match r.field? name with
  | none => some value
  | some j => read j

def nullable (read : Json → Option α) : Json → Option (Option α)
  | .null => some none
  | j => (read j).map some

/-- A field that may be absent by name or null; a list of fields has to reach it. -/
def optional (r : Record) (name : String) (read : Json → Option α) : Option (Option α) :=
  match r.field? name with
  | none => if r.positional then none else some none
  | some j => nullable read j

def optionalWithDefault (r : Record) (name : String) (read : Json → Option α) : Option (Option α) :=
  r.withDefault name none (nullable read)

end Record

def text? : Json → Option String
  | .string text => some text
  | _ => none

def bool? : Json → Option Bool
  | .bool value => some value
  | _ => none

def byte? : Json → Option UInt8
  | .natural value => if value < 256 then some (UInt8.ofNat value) else none
  | _ => none

def word? : Json → Option UInt32
  | .natural value => if value < 4294967296 then some (UInt32.ofNat value) else none
  | _ => none

/-- The results of reading each value of a list, if all of them can be read. -/
def readAll {α : Type} (read : Json → Option α) : List Json → Option (List α)
  | [] => some []
  | j :: rest => do
    let value ← read j
    let values ← readAll read rest
    return value :: values

def list? {α : Type} (read : Json → Option α) : Json → Option (List α)
  | .array elements => readAll read elements
  | _ => none

/-- The label of a variant with the value it carries, none for a bare label. -/
def variant? : Json → Option (String × Option Json)
  | .string label => some (label, none)
  | .object [(label, value)] => some (label, some value)
  | _ => none

/-- A word of an enumeration: its label, or an object with the label as its only name and null as its value. -/
def labelled? {α : Type} [Labelled α] (j : Json) : Option α :=
  match variant? j with
  | some (label, none) | some (label, some .null) => Labelled.ofLabel? label
  | _ => none

def ofLabelled {α : Type} [Labelled α] (value : α) : Json := .string (Labelled.label value)

def ofOption {α : Type} (write : α → Json) : Option α → Json
  | none => .null
  | some value => write value

def ofList {α : Type} (write : α → Json) (values : List α) : Json := .array (values.map write)

def ofWord (value : UInt32) : Json := .natural value.toNat

end CobolSymbols.Json
