import StagedLoad.Duration.Reader
import StagedLoad.Schedule
import StagedLoad.Threshold.Rule
import StagedLoad.Yaml.Value

/-!
# Load profiles as they are written

What a load profile says, before names are looked up and files are read.

## Main definitions

* `DurationFault` — why a value is no duration.
* `ProfileDraft` and the drafts in it — what can be written.
* `ProfileDraft.ofYaml` — reading it.
-/

namespace StagedLoad

open Yaml (Decode Place)

/-! ### Durations -/

/-- Why a value is no duration. -/
inductive DurationFault
  /-- It is an integer below zero. -/
  | negative
  /-- It is a double below zero, or not finite. -/
  | notSeconds
  /-- It cannot be read as a duration. -/
  | unreadable (fault : Duration.Fault)
  deriving DecidableEq, Repr

/-- The wording of a fault. -/
def DurationFault.message : DurationFault → String
  | negative => "duration cannot be negative"
  | notSeconds => "duration must be a non-negative, finite number"
  | unreadable fault => fault.message

/-- A whole number of seconds. -/
def Duration.ofInteger (n : Int) : Except DurationFault Duration :=
  if n < 0 then .error .negative else .ok (seconds n.toNat)

/-- A number of seconds. -/
def Duration.ofDouble (x : Float) : Except DurationFault Duration :=
  if !Binary64.isFinite x || x < 0 then .error .notSeconds
  else match ofSeconds? x with
    | some d => .ok d
    | none => .error (.unreadable (.crash .tooManySeconds))

/-- The duration that a value is written for, if it is of a type that may be one. -/
def Duration.ofValue? : Yaml.Value → Option (Except DurationFault Duration)
  | .integer n => some (ofInteger n)
  | .double x => some (ofDouble x)
  | .string s => some ((parse s).mapError .unreadable)
  | _ => none

/-- Readings that may come upon something that is no duration. -/
abbrev DraftReader (α : Type) := Place → Decode DurationFault α

/-- Reads a duration: a number of seconds, or a text. -/
def Duration.read : DraftReader Duration := fun p => do
  match (← p.enter).node with
  | .scalar tag style s =>
    match (Yaml.Value.ofScalar? tag style s).bind ofValue? with
    | some (.ok d) => return d
    | some (.error f) => throw (.refused f)
    | none => Yaml.malformed
  | _ => Yaml.malformed

/-! ### Stages -/

/-- Reads a natural number of 64 bits. -/
def readWord : DraftReader UInt64 := fun p =>
  return UInt64.ofNat (← p.natural Yaml.Value.greatestWord)

/-- Reads a stage. -/
def Stage.read : DraftReader Stage :=
  Place.record ["duration", "target"] ⟨Duration.zero, 0⟩ fun
    | "duration" => some fun p s => return { s with duration := ← Duration.read p }
    | "target" => some fun p s => return { s with target := ← readWord p }
    | _ => none

/-! ### Thresholds -/

namespace Threshold.Declaration

open Yaml (Value)

/-- The index or the name of a field of a declaration. -/
def fieldName? : Value → Option String
  | .string s => some s
  | .integer 0 => some "threshold"
  | .integer 1 => some "abortOnFail"
  | _ => none

/-- The fields of a declaration, each at most once. -/
def ofEntries? : List (Value × Value) → Option (Option String × Option Bool)
  | [] => some (none, none)
  | (k, v) :: rest =>
    match fieldName? k, v, ofEntries? rest with
    | some "threshold", .string s, some (none, abort) => some (some s, abort)
    | some "abortOnFail", .bool b, some (expression, none) => some (expression, some b)
    | _, _, _ => none

/-- A declaration with its fields, or only the first of them, in order or by name. -/
def ofFields? : Value → Option Declaration
  | .sequence [.string s] => some ⟨s, false⟩
  | .sequence [.string s, .bool b] => some ⟨s, b⟩
  | .mapping es =>
    match ofEntries? es with
    | some (some s, abort) => some ⟨s, abort.getD false⟩
    | _ => none
  | _ => none

/-- A declaration: an expression alone, or its fields. -/
def ofValue? : Value → Option Declaration
  | .string s => some ⟨s, false⟩
  | v => ofFields? v

/-- The declarations on one metric: one of them, or a list. -/
def listOfValue? (v : Value) : Option (List Declaration) :=
  match ofValue? v, v with
  | some d, _ => some [d]
  | none, .sequence vs => vs.mapM ofValue?
  | none, _ => none

/-- Reads the declarations on one metric. -/
def readList : DraftReader (List Declaration) := fun p => do
  let v ← p.value
  Yaml.expect (if v.hasOwnTag then none else listOfValue? v)

end Threshold.Declaration

/-! ### Requests -/

/-- A file in a form. -/
structure FileDraft where
  /-- The field. -/
  field : String := "file"
  /-- Where the file is. -/
  path : String := ""
  /-- The name under which it is sent, if not its own. -/
  filename : Option String := none
  /-- The type of its content, if not the one that its name suggests. -/
  contentType : Option String := none
  deriving Inhabited

/-- Reads a file in a form. -/
def FileDraft.read : DraftReader FileDraft :=
  Place.record ["path"] {} fun
    | "field" => some fun p f => return { f with field := ← p.text }
    | "path" => some fun p f => return { f with path := ← p.text }
    | "filename" => some fun p f => return { f with filename := ← p.optional Place.text }
    | "contentType" => some fun p f => return { f with contentType := ← p.optional Place.text }
    | _ => none

/-- A form. -/
structure FormDraft where
  /-- The fields by name. -/
  fields : Table String String := Table.empty
  /-- A file. -/
  file : Option FileDraft := none
  /-- More files. -/
  files : List FileDraft := []
  deriving Inhabited

/-- All files of a form. -/
def FormDraft.allFiles (f : FormDraft) : List FileDraft := f.file.toList ++ f.files

/-- Reads a form. -/
def FormDraft.read : DraftReader FormDraft :=
  Place.record [] {} fun
    | "fields" => some fun p f => return { f with fields := ← p.table Place.text }
    | "file" => some fun p f => return { f with file := ← p.optional FileDraft.read }
    | "files" => some fun p f => return { f with files := ← p.list FileDraft.read }
    | _ => none

/-- A check. -/
structure CheckDraft where
  /-- Its name. -/
  name : String := ""
  /-- The status that is expected. -/
  status : Option Nat := none
  /-- The path of the value that is expected. -/
  jsonPath : Option String := none
  /-- The value that is expected. -/
  equals : Option Yaml.Value := none
  deriving Inhabited

/-- The greatest number of 16 bits. -/
def greatestStatus : Nat := 65535

/-- Reads a value of any type without repeated keys. -/
def readValue : DraftReader Yaml.Value := fun p => do
  let v ← p.value
  if v.hasRepeatedKey then Yaml.malformed
  return v

/-- Reads a check. -/
def CheckDraft.read : DraftReader CheckDraft :=
  Place.record ["name"] {} fun
    | "name" => some fun p c => return { c with name := ← p.text }
    | "status" => some fun p c =>
      return { c with status := ← p.optional (Place.natural greatestStatus) }
    | "jsonPath" => some fun p c => return { c with jsonPath := ← p.optional Place.text }
    | "equals" => some fun p c => return { c with equals := ← p.optional readValue }
    | _ => none

/-- A request. -/
structure RequestDraft where
  /-- Its name. -/
  name : String := ""
  /-- Its method. -/
  method : String := "GET"
  /-- Where it goes. -/
  path : String := ""
  /-- Its headers by name. -/
  headers : Table String String := Table.empty
  /-- A text that it carries. -/
  body : Option String := none
  /-- The type of that text. -/
  contentType : Option String := none
  /-- A form that it carries. -/
  form : Option FormDraft := none
  /-- What is expected of the response. -/
  checks : List CheckDraft := []
  deriving Inhabited

/-- Reads a request. -/
def RequestDraft.read : DraftReader RequestDraft :=
  Place.record ["name", "path"] {} fun
    | "name" => some fun p r => return { r with name := ← p.text }
    | "method" => some fun p r => return { r with method := ← p.text }
    | "path" => some fun p r => return { r with path := ← p.text }
    | "headers" => some fun p r => return { r with headers := ← p.table Place.text }
    | "body" => some fun p r => return { r with body := ← p.optional Place.text }
    | "contentType" => some fun p r => return { r with contentType := ← p.optional Place.text }
    | "multipart" => some fun p r => return { r with form := ← p.optional FormDraft.read }
    | "checks" => some fun p r => return { r with checks := ← p.list CheckDraft.read }
    | _ => none

/-! ### Profiles -/

/-- A load profile. -/
structure ProfileDraft where
  /-- The URL that the requests go to. -/
  baseUrl : Option String := none
  /-- How many virtual users there are at the start. -/
  startUsers : UInt64 := 0
  /-- The stages. -/
  stages : List Stage := []
  /-- The thresholds by metric. -/
  thresholds : Table String (List Threshold.Declaration) := Table.empty
  /-- How often the number of users is brought in line. -/
  pollInterval : Option Duration := none
  /-- How long users pause. -/
  thinkTime : Option Duration := none
  /-- How often progress is reported. -/
  progressInterval : Option Duration := none
  /-- How often thresholds are judged. -/
  evaluationInterval : Option Duration := none
  /-- The percentiles that are reported. -/
  percentiles : Option (List Float) := none
  /-- How percentiles are computed. -/
  percentileMode : Option String := none
  /-- Whether rules without anything to judge count as failed. -/
  failOnUndetermined : Bool := false
  /-- How long a request may take. -/
  requestTimeout : Option Duration := none
  /-- How long it may take to connect. -/
  connectTimeout : Option Duration := none
  /-- The requests. -/
  requests : List RequestDraft := []

namespace ProfileDraft

/-- The fields of a profile. -/
def fields : Place.Fields DurationFault ProfileDraft
  | "baseUrl" => some fun p d => return { d with baseUrl := ← p.optional Place.text }
  | "startVUs" => some fun p d => return { d with startUsers := ← readWord p }
  | "stages" => some fun p d => return { d with stages := ← p.list Stage.read }
  | "thresholds" => some fun p d =>
    return { d with thresholds := ← p.table Threshold.Declaration.readList }
  | "pollInterval" => some fun p d => return { d with pollInterval := ← p.optional Duration.read }
  | "thinkTime" => some fun p d => return { d with thinkTime := ← p.optional Duration.read }
  | "progressInterval" => some fun p d =>
    return { d with progressInterval := ← p.optional Duration.read }
  | "evaluationInterval" => some fun p d =>
    return { d with evaluationInterval := ← p.optional Duration.read }
  | "percentiles" => some fun p d =>
    return { d with percentiles := ← p.optional (Place.list Place.double) }
  | "percentileMode" => some fun p d =>
    return { d with percentileMode := ← p.optional Place.text }
  | "failOnUndetermined" => some fun p d => return { d with failOnUndetermined := ← p.truth }
  | "requestTimeout" => some fun p d =>
    return { d with requestTimeout := ← p.optional Duration.read }
  | "connectTimeout" => some fun p d =>
    return { d with connectTimeout := ← p.optional Duration.read }
  | "requests" => some fun p d => return { d with requests := ← p.list RequestDraft.read }
  | _ => none

/-- Reads a profile. -/
def read : DraftReader ProfileDraft := Place.record ["stages"] {} fields

/-- The profile that a text is written for. -/
def ofYaml (text : String) : Except (Yaml.Fault DurationFault) ProfileDraft :=
  Yaml.decode read text

end ProfileDraft

end StagedLoad
