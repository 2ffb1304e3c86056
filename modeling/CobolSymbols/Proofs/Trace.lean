import Mathlib
import CobolSymbols.Event.Codec
import CobolSymbols.Session

/-!
# Traces give back what was recorded

Each reader of JSON reads back what its writer writes, and no writer but that of an absent value writes null. So a
field is read back by itself: what is required, what may be absent and what has a default alike. From the fields it
follows for entries and headers, from these for events, and from events for whole traces.
-/

set_option autoImplicit false

namespace CobolSymbols

/-- An enumeration whose words have labels of their own. -/
class Labelled.Lawful (α : Type) [Labelled α] : Prop where
  /-- A word is read back from its label. -/
  ofLabel?_label : ∀ word : α, Labelled.ofLabel? (Labelled.label word) = some word

instance : Labelled.Lawful Sharing := ⟨fun word => by cases word <;> rfl⟩
instance : Labelled.Lawful Direction := ⟨fun word => by cases word <;> rfl⟩
instance : Labelled.Lawful ProcedureKind := ⟨fun word => by cases word <;> rfl⟩
instance : Labelled.Lawful StatementKind := ⟨fun word => by cases word <;> rfl⟩
instance : Labelled.Lawful FigurativeConstant := ⟨fun word => by cases word <;> rfl⟩
instance : Labelled.Lawful Restriction := ⟨fun word => by cases word <;> rfl⟩
instance : Labelled.Lawful Visibility := ⟨fun word => by cases word <;> rfl⟩
instance : Labelled.Lawful StorageSection := ⟨fun word => by cases word <;> rfl⟩
instance : Labelled.Lawful Usage := ⟨fun word => by cases word <;> rfl⟩

namespace Json

/-- A reader reads back what a writer writes, and the writer does not write null. -/
structure ReadsBack {α : Type} (read : Json → Option α) (write : α → Json) : Prop where
  read_write : ∀ value, read (write value) = some value
  ne_null : ∀ value, write value ≠ .null

theorem readsBack_text : ReadsBack text? .string := ⟨fun _ => rfl, nofun⟩

theorem readsBack_bool : ReadsBack bool? .bool := ⟨fun _ => rfl, nofun⟩

theorem readsBack_byte : ReadsBack byte? fun value => .natural value.toNat where
  read_write value := by simp [byte?, value.toNat_lt]
  ne_null := nofun

theorem readsBack_word : ReadsBack word? ofWord where
  read_write value := by simp [word?, ofWord, value.toNat_lt]
  ne_null := nofun

theorem readsBack_labelled {α : Type} [Labelled α] [Labelled.Lawful α] : ReadsBack (α := α) labelled? ofLabelled where
  read_write := Labelled.Lawful.ofLabel?_label
  ne_null := nofun

section Fields

variable {α : Type} {read : Json → Option α} {write : α → Json}

theorem ReadsBack.readAll (h : ReadsBack read write) (values : List α) :
    Json.readAll read (values.map write) = some values := by
  induction values with
  | nil => rfl
  | cons value rest ih => simp [Json.readAll, h.read_write, ih]

theorem ReadsBack.list (h : ReadsBack read write) : ReadsBack (list? read) (ofList write) := ⟨h.readAll, nofun⟩

theorem ReadsBack.nullable (h : ReadsBack read write) (value : Option α) :
    Record.nullable read (ofOption write value) = some value := by
  cases value with
  | none => rfl
  | some value =>
    have hne := h.ne_null value
    have hread := h.read_write value
    unfold ofOption
    cases hvalue : write value <;> simp_all [Record.nullable]

variable {β : Type} {r : Record} {name : String} {value default : α} {found : Option α} {result : Option β}

theorem ReadsBack.required {next : α → Option β} (h : ReadsBack read write)
    (hfield : r.field? name = some (write value)) (hnext : next value = result) :
    (r.required name read).bind next = result := by
  rw [Record.required, hfield, Option.bind_some, h.read_write]
  exact hnext

theorem ReadsBack.withDefault {next : α → Option β} (h : ReadsBack read write)
    (hfield : r.field? name = some (write value)) (hnext : next value = result) :
    (r.withDefault name default read).bind next = result := by
  rw [Record.withDefault, hfield]
  exact (congrArg (Option.bind · next) (h.read_write value)).trans hnext

theorem ReadsBack.optional {next : Option α → Option β} (h : ReadsBack read write)
    (hfield : r.field? name = some (ofOption write found)) (hnext : next found = result) :
    (r.optional name read).bind next = result := by
  rw [Record.optional, hfield]
  exact (congrArg (Option.bind · next) (h.nullable found)).trans hnext

theorem ReadsBack.optionalWithDefault {next : Option α → Option β} (h : ReadsBack read write)
    (hfield : r.field? name = some (ofOption write found)) (hnext : next found = result) :
    (r.optionalWithDefault name read).bind next = result := by
  rw [Record.optionalWithDefault, Record.withDefault, hfield]
  exact (congrArg (Option.bind · next) (h.nullable found)).trans hnext

theorem ReadsBack.carried (h : ReadsBack read write) (make : α → β) (value : α) :
    (read (write value)).map make = some (make value) := congrArg (Option.map make) (h.read_write value)

end Fields

/-- A record is read back when no field stands twice in what is written and its fields are read back. -/
theorem ReadsBack.record {α : Type} {names : List String} {members : α → List (String × Json)} {next : Record → Option α}
    (h : ∀ value, repeats (((members value).map (·.1)).filter names.contains) = false)
    (hnext : ∀ value, next ⟨false, members value⟩ = some value) :
    ReadsBack (fun json => (record? names json).bind next) fun value => .object (members value) where
  read_write value := by simpa [record?, h] using hnext value
  ne_null := nofun

end Json

open Json

theorem Position.readsBack : ReadsBack ofJson? toJson := by
  refine .record (fun _ => by rfl) fun _ => ?_
  refine readsBack_word.required (by rfl) ?_
  exact readsBack_word.required (by rfl) rfl

theorem Reference.readsBack : ReadsBack ofJson? toJson := by
  refine .record (fun _ => by rfl) fun _ => ?_
  refine readsBack_text.required (by rfl) ?_
  exact Position.readsBack.required (by rfl) rfl

theorem IndexName.readsBack : ReadsBack ofJson? toJson := by
  refine .record (fun _ => by rfl) fun _ => ?_
  refine readsBack_text.required (by rfl) ?_
  exact Position.readsBack.required (by rfl) rfl

theorem Occurs.readsBack : ReadsBack ofJson? toJson := by
  refine .record (fun _ => by rfl) fun _ => ?_
  refine readsBack_word.required (by rfl) ?_
  refine readsBack_word.required (by rfl) ?_
  refine Reference.readsBack.optional (by rfl) ?_
  exact IndexName.readsBack.list.withDefault (by rfl) rfl

theorem Literal.readsBack : ReadsBack ofJson? toJson where
  read_write literal := by
    cases literal with
    | alphanumeric text => rfl
    | numeric text => rfl
    | figurative constant => exact readsBack_labelled.carried figurative constant
  ne_null literal := by cases literal <;> simp [toJson]

theorem ConditionValue.readsBack : ReadsBack ofJson? toJson := by
  refine .record (fun _ => by rfl) fun _ => ?_
  refine Literal.readsBack.required (by rfl) ?_
  exact Literal.readsBack.optional (by rfl) rfl

theorem TypedefClause.readsBack : ReadsBack ofJson? toJson := by
  refine .record (fun _ => by rfl) fun _ => ?_
  refine readsBack_labelled.required (by rfl) ?_
  exact readsBack_labelled.optional (by rfl) rfl

theorem DataEntry.readsBack : ReadsBack ofJson? toJson := by
  refine .record (fun _ => by rfl) fun _ => ?_
  refine readsBack_byte.withDefault (by rfl) ?_
  refine readsBack_text.optionalWithDefault (by rfl) ?_
  refine Position.readsBack.withDefault (by rfl) ?_
  refine readsBack_text.optionalWithDefault (by rfl) ?_
  refine readsBack_labelled.optionalWithDefault (by rfl) ?_
  refine readsBack_bool.withDefault (by rfl) ?_
  refine Occurs.readsBack.optionalWithDefault (by rfl) ?_
  refine readsBack_bool.withDefault (by rfl) ?_
  refine readsBack_bool.withDefault (by rfl) ?_
  refine readsBack_bool.withDefault (by rfl) ?_
  refine readsBack_bool.withDefault (by rfl) ?_
  refine readsBack_bool.withDefault (by rfl) ?_
  refine readsBack_bool.withDefault (by rfl) ?_
  refine Literal.readsBack.optionalWithDefault (by rfl) ?_
  refine Reference.readsBack.optionalWithDefault (by rfl) ?_
  exact TypedefClause.readsBack.optionalWithDefault (by rfl) rfl

theorem RedefinesEntry.readsBack : ReadsBack ofJson? toJson := by
  refine .record (fun _ => by rfl) fun _ => ?_
  refine DataEntry.readsBack.required (by rfl) ?_
  exact Reference.readsBack.required (by rfl) rfl

theorem RenamesEntry.readsBack : ReadsBack ofJson? toJson := by
  refine .record (fun _ => by rfl) fun _ => ?_
  refine readsBack_text.required (by rfl) ?_
  refine Position.readsBack.required (by rfl) ?_
  refine Reference.readsBack.required (by rfl) ?_
  exact Reference.readsBack.optional (by rfl) rfl

theorem ConditionEntry.readsBack : ReadsBack ofJson? toJson := by
  refine .record (fun _ => by rfl) fun _ => ?_
  refine readsBack_text.required (by rfl) ?_
  refine Position.readsBack.required (by rfl) ?_
  exact ConditionValue.readsBack.list.required (by rfl) rfl

theorem FileEntry.readsBack : ReadsBack ofJson? toJson := by
  refine .record (fun _ => by rfl) fun _ => ?_
  refine readsBack_text.required (by rfl) ?_
  refine Position.readsBack.required (by rfl) ?_
  refine readsBack_bool.withDefault (by rfl) ?_
  exact readsBack_bool.withDefault (by rfl) rfl

theorem CallParameter.readsBack : ReadsBack ofJson? toJson := by
  refine .record (fun _ => by rfl) fun _ => ?_
  refine Reference.readsBack.required (by rfl) ?_
  refine readsBack_labelled.optional (by rfl) ?_
  exact readsBack_labelled.optional (by rfl) rfl

theorem ProcedureHeader.readsBack : ReadsBack ofJson? toJson := by
  refine .record (fun _ => by rfl) fun _ => ?_
  refine Position.readsBack.required (by rfl) ?_
  refine CallParameter.readsBack.list.withDefault (by rfl) ?_
  exact Reference.readsBack.optional (by rfl) rfl

theorem DeclaredProcedure.readsBack : ReadsBack ofJson? toJson := by
  refine .record (fun _ => by rfl) fun _ => ?_
  refine readsBack_text.withDefault (by rfl) ?_
  refine Position.readsBack.withDefault (by rfl) ?_
  refine readsBack_labelled.withDefault (by rfl) ?_
  refine readsBack_labelled.withDefault (by rfl) ?_
  refine DataEntry.readsBack.list.withDefault (by rfl) ?_
  refine DataEntry.readsBack.list.withDefault (by rfl) ?_
  refine DataEntry.readsBack.list.withDefault (by rfl) ?_
  exact DataEntry.readsBack.optionalWithDefault (by rfl) rfl

theorem SectionHeading.readsBack : ReadsBack ofJson? toJson := by
  refine .record (fun _ => by rfl) fun _ => ?_
  refine readsBack_text.required (by rfl) ?_
  exact Position.readsBack.required (by rfl) rfl

theorem ParagraphHeading.readsBack : ReadsBack ofJson? toJson := by
  refine .record (fun _ => by rfl) fun _ => ?_
  refine readsBack_text.required (by rfl) ?_
  exact Position.readsBack.required (by rfl) rfl

theorem Statement.readsBack : ReadsBack ofJson? toJson := by
  refine .record (fun _ => by rfl) fun _ => ?_
  refine readsBack_labelled.required (by rfl) ?_
  exact Position.readsBack.required (by rfl) rfl

theorem ProgramHeader.readsBack : ReadsBack ofJson? toJson := by
  refine .record (fun _ => by rfl) fun _ => ?_
  refine readsBack_text.required (by rfl) ?_
  refine Position.readsBack.required (by rfl) ?_
  refine readsBack_bool.withDefault (by rfl) ?_
  exact readsBack_bool.withDefault (by rfl) rfl

theorem ProgramEnd.readsBack : ReadsBack ofJson? toJson := by
  refine .record (fun _ => by rfl) fun _ => ?_
  refine readsBack_text.optional (by rfl) ?_
  exact Position.readsBack.required (by rfl) rfl

theorem StorageHeader.readsBack : ReadsBack ofJson? toJson := by
  refine .record (fun _ => by rfl) fun _ => ?_
  exact Position.readsBack.required (by rfl) rfl

/-- Events are read back by their names; an event that carries nothing is its name. -/
theorem Event.readsBack : ReadsBack ofJson? toJson where
  read_write event := by
    cases event with
    | startProgram header => exact ProgramHeader.readsBack.carried startProgram header
    | endProgram marker => exact congrArg (Option.map endProgram) (ProgramEnd.readsBack.nullable marker)
    | startDataDivision position => exact Position.readsBack.carried startDataDivision position
    | startStorage storage header =>
      refine Eq.trans (congrArg (Option.bind · _) (readsBack_labelled.read_write storage)) ?_
      exact congrArg (Option.bind · _) (StorageHeader.readsBack.read_write header)
    | endStorage storage => exact readsBack_labelled.carried endStorage storage
    | startFile entry => exact FileEntry.readsBack.carried startFile entry
    | dataEntry entry => exact DataEntry.readsBack.carried dataEntry entry
    | redefinesEntry entry => exact RedefinesEntry.readsBack.carried redefinesEntry entry
    | renamesEntry entry => exact RenamesEntry.readsBack.carried renamesEntry entry
    | conditionEntry entry => exact ConditionEntry.readsBack.carried conditionEntry entry
    | typedefEntry entry => exact DataEntry.readsBack.carried typedefEntry entry
    | startProcedureDivision header =>
      exact ProcedureHeader.readsBack.carried startProcedureDivision header
    | startDeclaratives position => exact Position.readsBack.carried startDeclaratives position
    | startProcedure header => exact DeclaredProcedure.readsBack.carried startProcedure header
    | startSection heading => exact SectionHeading.readsBack.carried startSection heading
    | startParagraph heading => exact ParagraphHeading.readsBack.carried startParagraph heading
    | statement body => exact Statement.readsBack.carried statement body
    | endDataDivision | endFile | endProcedureDivision | endDeclaratives | endProcedure | endSection
    | endParagraph => rfl
  ne_null event := by cases event <;> simp [toJson]

/-- The written form of a list of events is read as that list. So a text that holds this value is the trace of the
events, and building a unit from the trace in a session gives what building it from the events gives. -/
theorem recorded_events_replayed (events : List Event) :
    list? Event.ofJson? (traceJson events) = some events ∧
      ∀ text, Json.parse? text = some (traceJson events) →
        readTrace (some text) = .ok events ∧
          ∀ (s : Session) (file : FileId),
            (readTrace (some text)).map (s.compile file) = .ok (s.compile file events) := by
  have hread : list? Event.ofJson? (traceJson events) = some events := Event.readsBack.list.read_write events
  refine ⟨hread, fun text htext => ?_⟩
  have htrace : readTrace (some text) = .ok events := by simp [readTrace, htext, hread]
  refine ⟨htrace, fun s file => ?_⟩
  rw [htrace]
  rfl

/-- A procedure section that holds nothing. -/
def emptySection : List Event := [.startSection ⟨"S", ⟨1, 8⟩⟩, .endSection]

/-- The text of its trace. -/
def emptySectionTrace : String :=
  "[\x7b\"StartSection\":\x7b\"name\":\"S\",\"position\":\x7b\"line\":1,\"column\":8\x7d\x7d\x7d,\"EndSection\"]"

theorem empty_section_replayed :
    Json.parse? emptySectionTrace = some (traceJson emptySection) ∧
      readTrace (some emptySectionTrace) = .ok emptySection := by
  have hparse : Json.parse? emptySectionTrace = some (traceJson emptySection) := by cbv
  exact ⟨hparse, ((recorded_events_replayed emptySection).2 _ hparse).1⟩

end CobolSymbols
