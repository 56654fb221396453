import StagedLoad.Config
import StagedLoad.Http.Workload
import StagedLoad.Profile.Draft
import StagedLoad.Text.Blank

/-!
# Load profiles

A load profile is a configuration of a run together with the requests of each iteration.
It comes from a draft whose names are known and whose files can be read.

## Main definitions

* `Profile` — the profiles.
* `ProfileFault` — why a draft becomes none.
* `Profile.ofDraft`, `Profile.ofText` — from a draft, and from a text.
* `Profile.workload?` — the workload of a profile.
-/

namespace StagedLoad

/-- A load profile. -/
structure Profile where
  /-- The configuration of the run. -/
  run : RunConfig
  /-- The URL that the requests go to. -/
  baseUrl : Option String
  /-- How long a request may take. -/
  requestTimeout : Option Duration
  /-- How long it may take to connect. -/
  connectTimeout : Option Duration
  /-- The requests. -/
  requests : List RequestSpec
  deriving Inhabited

/-! ### Faults -/

/-- Why a draft becomes no check. -/
inductive CheckFault
  /-- There is a path, but nothing that is expected there. -/
  | nothingExpected
  /-- There is not exactly one thing that is expected. -/
  | unclear
  /-- The expected value is none of JSON. -/
  | unsupported (fault : Yaml.Value.KeyFault)
  deriving DecidableEq, Repr

/-- The wording of a fault of the check with a name. -/
def CheckFault.message (name : String) (f : CheckFault) : String :=
  "check `" ++ name ++ "`: " ++ match f with
  | nothingExpected => "`jsonPath` requires `equals`"
  | unclear => "expected either `status` or `jsonPath` + `equals`"
  | unsupported fault => "unsupported `equals` value: " ++ fault.message

/-- Why a draft becomes no request. -/
inductive RequestFault
  /-- The method is none. -/
  | method (text : String)
  /-- There is a text and a form. -/
  | twoBodies
  /-- A file cannot be read. -/
  | file (fault : TransportFault)
  /-- A check is at fault. -/
  | check (name : String) (fault : CheckFault)
  deriving DecidableEq, Repr

/-- The wording of a fault of the request with a name. -/
def RequestFault.message (name : String) (f : RequestFault) : String :=
  "request `" ++ name ++ "`: " ++ match f with
  | method text => "invalid method `" ++ text ++ "`: invalid HTTP method"
  | twoBodies => "`body` and `multipart` are exclusive"
  | file fault => fault.trace
  | check name fault => fault.message name

/-- Why a text becomes no profile. -/
inductive ProfileFault
  /-- It is not YAML, or says something else than a profile. -/
  | malformed
  /-- Something in it is no duration. -/
  | duration (fault : DurationFault)
  /-- Something in it is no percentile. -/
  | percentile (fault : Percentile.Invalid)
  /-- Its percentiles are computed in no known way. -/
  | percentileMode (text : String)
  /-- A request is at fault. -/
  | request (name : String) (fault : RequestFault)
  deriving DecidableEq, Repr

/-- The wording of a fault. -/
def ProfileFault.message : ProfileFault → String
  | malformed => "failed to parse YAML"
  | duration fault => "failed to parse YAML: " ++ fault.message
  | percentile fault => "invalid `percentiles`: " ++ fault.message
  | percentileMode text =>
    "invalid `percentileMode` `" ++ text ++ "` (expected exact or approximate)"
  | request name fault => fault.message name

/-! ### From drafts -/

/-- The check of a draft. -/
def CheckDraft.toCheck (d : CheckDraft) : Except CheckFault ResponseCheck :=
  match d.status, d.jsonPath, d.equals with
  | some code, none, none => .ok ⟨d.name, .status code⟩
  | none, some path, some value =>
    match value.json? with
    | .ok j => .ok ⟨d.name, .json path j⟩
    | .error f => .error (.unsupported f)
  | none, some _, none => .error .nothingExpected
  | _, _, _ => .error .unclear

/-- A method in capital letters, if it is one. -/
def method? (text : String) : Option String :=
  let m := String.ofList ((Blank.trim text).toList.map Char.toUpper)
  if Header.isToken m then some m else none

section Files

variable {m : Type → Type} [Monad m]

/-- Reads the file of a draft. -/
def FileDraft.toPart (read : FileReader m) (directory : String) (d : FileDraft) :
    ExceptT RequestFault m FilePart := do
  let path := FilePath.join directory d.path
  match ← FilePart.ofPath (m := m) read d.field path d.filename d.contentType with
  | .ok part => return part
  | .error f => throw (.file f)

/-- Reads the files of a form. -/
def FormDraft.toForm (read : FileReader m) (directory : String) (d : FormDraft) :
    ExceptT RequestFault m Form :=
  return {
    fields := d.fields.entries
    files := ← d.allFiles.mapM (FileDraft.toPart read directory) }

/-- What the request of a draft carries. -/
def RequestDraft.toBody (read : FileReader m) (directory : String) (d : RequestDraft) :
    ExceptT RequestFault m RequestBody :=
  match d.body, d.form with
  | some _, some _ => throw .twoBodies
  | some text, none => return .raw d.contentType (Bytes.ofString text)
  | none, some form => return .form (← form.toForm read directory)
  | none, none => return .empty

/-- The request of a draft. -/
def RequestDraft.toRequest (read : FileReader m) (directory : String) (d : RequestDraft) :
    ExceptT RequestFault m RequestSpec := do
  let some method := method? d.method | throw (.method d.method)
  let body ← d.toBody read directory
  let checks ← d.checks.mapM fun c =>
    match c.toCheck with
    | .ok check => return check
    | .error f => throw (.check c.name f)
  return { name := d.name, method, path := d.path, headers := d.headers.entries, body, checks }

end Files

namespace Profile

/-- The percentiles that are reported, if a draft says which. -/
def percentiles (d : ProfileDraft) : Except ProfileFault (List Percentile) :=
  match d.percentiles with
  | none => .ok Percentile.defaults
  | some xs => (xs.mapM Percentile.ofPercent).mapError .percentile

/-- How percentiles are computed, if a draft says how. -/
def percentileMode (d : ProfileDraft) : Except ProfileFault PercentileMode :=
  match d.percentileMode with
  | none => .ok .exact
  | some text =>
    match PercentileMode.named? text with
    | some mode => .ok mode
    | none => .error (.percentileMode text)

/-- The configuration of a run that a draft says. -/
def runConfig (d : ProfileDraft) : Except ProfileFault RunConfig := do
  let percentiles ← percentiles d
  let percentileMode ← percentileMode d
  let standard : RunConfig := {}
  return {
    startUsers := d.startUsers
    stages := d.stages
    thresholds := d.thresholds.entries.map fun (metric, ds) => ⟨metric, ds⟩
    pollInterval := d.pollInterval.getD standard.pollInterval
    thinkTime := d.thinkTime.getD standard.thinkTime
    progressInterval := d.progressInterval.getD standard.progressInterval
    evaluationInterval := d.evaluationInterval
    percentileMode
    percentiles
    failOnUndetermined := d.failOnUndetermined }

variable {m : Type → Type} [Monad m]

/-- The profile of a draft; its files lie below a directory. -/
def ofDraft (read : FileReader m) (directory : String) (d : ProfileDraft) :
    ExceptT ProfileFault m Profile := do
  let run ← (runConfig d : Except ProfileFault RunConfig)
  let requests ← d.requests.mapM fun r =>
    ExceptT.adapt (ProfileFault.request r.name) (r.toRequest read directory)
  return {
    run
    baseUrl := d.baseUrl
    requestTimeout := d.requestTimeout
    connectTimeout := d.connectTimeout
    requests }

/-- The draft that a text is written for. -/
def draft (text : String) : Except ProfileFault ProfileDraft :=
  (ProfileDraft.ofYaml text).mapError fun
    | .malformed => .malformed
    | .refused fault => .duration fault

/-- The profile that a text is written for. -/
def ofText (read : FileReader m) (directory text : String) : ExceptT ProfileFault m Profile := do
  let d ← (draft text : Except ProfileFault ProfileDraft)
  ofDraft read directory d

end Profile

/-! ### Loading -/

/-- Why no profile is loaded from a file. -/
inductive LoadFault
  /-- The file cannot be read. -/
  | unreadable (path : String) (fault : FileFault)
  /-- The file holds no text. -/
  | notText (path : String)
  /-- The text is no profile. -/
  | invalid (path : String) (fault : ProfileFault)
  deriving DecidableEq, Repr

/-- The wording of a fault. -/
def LoadFault.message : LoadFault → String
  | unreadable path fault => "failed to read load profile: " ++ path ++ ": " ++ fault.message
  | notText path =>
    "failed to read load profile: " ++ path ++ ": stream did not contain valid UTF-8"
  | invalid path fault => "invalid load profile: " ++ path ++ ": " ++ fault.message

/-- What ends the program instead of a fault. -/
def LoadFault.crash? : LoadFault → Option Duration.Crash
  | invalid _ (.duration (.unreadable (.crash c))) => some c
  | _ => none

/-- Loads the profile that a file holds; files in it lie beside it. -/
def Profile.load {m : Type → Type} [Monad m] (read : FileReader m) (path : String) :
    m (Except LoadFault Profile) := do
  match ← read path with
  | .error f => return .error (.unreadable path f)
  | .ok bytes =>
    match bytes.toString? with
    | none => return .error (.notText path)
    | some text =>
      let directory := (FilePath.parent? path).getD "."
      return (← (Profile.ofText read directory text).run).mapError (.invalid path)

/-! ### The workload -/

/-- Why a profile has no workload. -/
inductive WorkloadFault
  /-- Nothing says where the requests go. -/
  | noBaseUrl
  /-- There are no requests. -/
  | noRequests
  /-- The requests cannot go there. -/
  | url (base : String) (fault : TransportFault)
  deriving DecidableEq, Repr

/-- The wording of a fault. -/
def WorkloadFault.message : WorkloadFault → String
  | noBaseUrl => "no base URL: set `baseUrl` in the profile or pass --base-url"
  | noRequests => "the profile declares no requests"
  | url base fault => "invalid base URL: " ++ base ++ ": " ++ fault.trace

/-- The workload of a profile, whose requests may go elsewhere than it says. -/
def Profile.workload? (p : Profile) (baseUrl : Option String) :
    Except WorkloadFault HttpWorkload :=
  match baseUrl.or p.baseUrl with
  | none => .error .noBaseUrl
  | some base =>
    if p.requests.isEmpty then .error .noRequests
    else (HttpWorkload.build? base p.requests p.requestTimeout).mapError (.url base)

end StagedLoad
