import StagedLoad.CommandLine.Arguments
import StagedLoad.Profile.Basic
import StagedLoad.Report.Line
import StagedLoad.Report.Text
import StagedLoad.Run.Launch

/-!
# The program

What the program does with its arguments: it runs a load profile and prints reports, or it
looks whether a profile is valid and prints one line.  Files are read through a function,
requests go to a network that is given, what is printed goes to an output that may refuse it, and
so the program is a function too.

A line of JSON that the output refuses is a fault, or is left out if it only tells of the
progress.  Where text for people is refused, the program crashes.

## Main definitions

* `Output` — what takes the text that is printed.
* `ProgramFault` — why the program breaks off, and with which exit code.
* `Session`, `Session.status` — what the program has printed, and what came of it.
* `ValidateArguments.execute` — looking whether a profile is valid.
* `RunArguments.session` — what is printed of a run.
* `RunArguments.conduct?`, `RunArguments.execute?` — running one.
* `Arguments.execute?` — either of them.
-/

namespace StagedLoad

/-- What takes the text that is printed. -/
structure Output where
  /-- Why a text is refused when others have been printed, if it is. -/
  refusal? : (printed text : String) → Option String

/-- An output that takes everything. -/
def Output.taking : Output := ⟨fun _ _ => none⟩

/-- What ends the program instead of a fault. -/
inductive ProgramCrash
  /-- A number of seconds is no duration. -/
  | duration (crash : Duration.Crash)
  /-- The clock does not get to an instant. -/
  | clock (crash : Instant.Crash)
  /-- The output refuses text for people. -/
  | print (reason : String)
  deriving DecidableEq, Repr

/-- The wording of a crash. -/
def ProgramCrash.message : ProgramCrash → String
  | duration c => c.message
  | clock c => c.message
  | print reason => "failed printing to stdout: " ++ reason

/-- Why the program breaks off. -/
inductive ProgramFault
  /-- There is no profile. -/
  | load (fault : LoadFault)
  /-- The profile has no workload. -/
  | workload (fault : WorkloadFault)
  /-- The configuration is not valid. -/
  | config (fault : ConfigFault)
  /-- The pool of users is at fault. -/
  | pool (fault : PoolFault)
  /-- The report cannot be written. -/
  | output (reason : String)
  /-- The program crashes. -/
  | crash (crash : ProgramCrash)
  deriving DecidableEq, Repr

namespace ProgramFault

/-- What the caller is told, unless the program crashes. -/
def exitCode : ProgramFault → ExitCode
  | load _ | workload _ | config _ => .invalidInput
  | pool _ | output _ | crash _ => .runtimeFault

/-- The wording of a fault.  A fault of the configuration follows the wording that it stands
in. -/
def message : ProgramFault → String
  | load fault => "invalid input: " ++ fault.message
  | workload fault => "invalid input: " ++ fault.message
  | config fault => "invalid input: " ++ (RunFault.config fault).message ++ ": " ++ fault.message
  | pool fault => fault.message
  | output reason => "failed to print summary: failed to write summary: " ++ reason
  | crash c => c.message

/-- What ends the program instead of a fault. -/
def crash? : ProgramFault → Option ProgramCrash
  | load fault => fault.crash?.map .duration
  | crash c => some c
  | _ => none

end ProgramFault

/-- What the program has printed, and what came of it. -/
structure Session where
  /-- What was printed. -/
  printed : String
  /-- What came of it. -/
  result : Except ProgramFault ExitCode

/-- What the caller is told, unless the program crashes. -/
def Session.exitCode (s : Session) : ExitCode :=
  match s.result with
  | .ok code => code
  | .error fault => fault.exitCode

/-- What the system is told when the program crashes. -/
def crashCode : UInt32 := 101

/-- What the system is told. -/
def Session.status (s : Session) : UInt32 :=
  match s.result with
  | .ok code => code.code.toUInt32
  | .error fault => if fault.crash?.isSome then crashCode else fault.exitCode.code.toUInt32

/-- A session that prints nothing and breaks off. -/
def Session.broken (fault : ProgramFault) : Session := ⟨"", .error fault⟩

/-! ### Looking whether a profile is valid -/

/-- Where requests go to be looked at while nothing says where they go. -/
def standInBase : String := "http://localhost"

/-- What is printed of a valid profile. -/
def RunPlan.line (plan : RunPlan) : String :=
  "ok: " ++ toString plan.schedule.stages.length ++ " stages, " ++
    toString plan.rules.length ++ " thresholds, peak " ++ toString plan.schedule.peak.toNat ++
    " VUs over " ++ plan.schedule.total.render ++ "\n"

/-- The workload and the plan of a profile. -/
def Profile.plan (p : Profile) (config : RunConfig) (baseUrl : Option String) :
    Except ProgramFault (HttpWorkload × RunPlan) := do
  let w ← (p.workload? baseUrl).mapError .workload
  let plan ← (config.validate w.declared).mapError .config
  return (w, plan)

section Execution

variable {m : Type → Type} [Monad m] {σ : Type}

/-- Looks whether a profile is valid. -/
def ValidateArguments.execute (read : FileReader m) (out : Output) (a : ValidateArguments) :
    m Session := do
  match ← Profile.load read a.config with
  | .error f => return .broken (.load f)
  | .ok p =>
    match p.plan p.run (some (p.baseUrl.getD standInBase)) with
    | .error f => return .broken f
    | .ok (_, plan) =>
      match out.refusal? "" plan.line with
      | some reason => return .broken (.crash (.print reason))
      | none => return ⟨plan.line, .ok .success⟩

/-! ### Running a profile -/

/-- What is printed of a plan. -/
def OutputFormat.header (f : OutputFormat) (path : String) (plan : RunPlan) : String :=
  match f with
  | human => plan.header path
  | json => ""

/-- What has been printed when a run has told of its progress: a line of JSON, unless it is
refused.  People see it elsewhere. -/
def OutputFormat.update (f : OutputFormat) (out : Output) (printed : String) (u : ProgressUpdate) :
    String :=
  match f with
  | human => printed
  | json =>
    match out.refusal? printed (jsonLine u.json) with
    | some _ => printed
    | none => printed ++ jsonLine u.json

/-- What is printed of a report. -/
def OutputFormat.report (f : OutputFormat) (r : RunReport) : String :=
  match f with
  | human => r.text
  | json => jsonLine r.json

/-- What comes of a text that the output refuses for a reason. -/
def OutputFormat.refused (f : OutputFormat) (reason : String) : ProgramFault :=
  match f with
  | human => .crash (.print reason)
  | json => .output reason

/-- The configuration of a profile with what the arguments say. -/
def RunArguments.adjusted (a : RunArguments) (p : Profile) : RunConfig :=
  { p.run with thinkTime := a.thinkTime.getD p.run.thinkTime }

/-- The run of a profile, which will be asked to stop at some times. -/
def RunArguments.prepare (a : RunArguments) (p : Profile) (network : Network σ) (state : σ)
    (aborts : List Nat) : Except ProgramFault (Run σ) := do
  let (w, plan) ← p.plan (a.adjusted p) a.baseUrl
  return {
    plan
    pool := { workload := w.workload network, state, thinkTime := plan.thinkTime }
    reporting := !a.noProgress
    aborts }

/-- What has been printed before the report of a run, of which the header is not refused. -/
def RunArguments.printed (a : RunArguments) (out : Output) (r : Run σ) : String :=
  r.updates.toList.foldl (a.output.update out) (a.output.header a.config r.plan)

/-- What is printed of a run that has ended, and what came of it. -/
def RunArguments.session (a : RunArguments) (out : Output)
    (ended : Run σ × Except Instant.Crash (Except PoolFault RunReport)) : Session :=
  let (r, outcome) := ended
  let printed := a.printed out r
  match outcome with
  | .error crash => ⟨printed, .error (.crash (.clock crash))⟩
  | .ok (.error f) => ⟨printed, .error (.pool f)⟩
  | .ok (.ok report) =>
    let text := a.output.report report
    match out.refusal? printed text with
    | some reason => ⟨printed, .error (a.output.refused reason)⟩
    | none => ⟨printed ++ text, .ok (.ofVerdict report.evaluation.verdict)⟩

/-- Why the header of a run is refused, if there is one and it is. -/
def RunArguments.headerRefusal? (a : RunArguments) (out : Output) (r : Run σ) : Option String :=
  match a.output with
  | .human => out.refusal? "" (r.plan.header a.config)
  | .json => none

/-- Runs a profile at an instant, unless that takes more than `fuel` steps.  If the profile is
valid and the header is printed there is a run. -/
def RunArguments.conduct? (read : FileReader m) (network : Network σ) (state : σ)
    (aborts : List Nat) (start : Instant) (fuel : Nat) (out : Output) (a : RunArguments) :
    m (Option (Session × Option (Run σ))) := do
  match ← Profile.load read a.config with
  | .error f => return some (.broken (.load f), none)
  | .ok p =>
    match a.prepare p network state aborts with
    | .error f => return some (.broken f, none)
    | .ok r =>
      match a.headerRefusal? out r with
      | some reason => return some (.broken (.crash (.print reason)), none)
      | none => return (r.launch? start fuel).map fun ended => (a.session out ended, some ended.1)

/-- What comes of running a profile. -/
def RunArguments.execute? (read : FileReader m) (network : Network σ) (state : σ)
    (aborts : List Nat) (start : Instant) (fuel : Nat) (out : Output) (a : RunArguments) :
    m (Option Session) :=
  return (← a.conduct? read network state aborts start fuel out).map Prod.fst

/-- Does what the program is asked to do. -/
def Arguments.execute? (read : FileReader m) (network : Network σ) (state : σ)
    (aborts : List Nat) (start : Instant) (fuel : Nat) (out : Output) :
    Arguments → m (Option Session)
  | run a => a.execute? read network state aborts start fuel out
  | validate a => return some (← a.execute read out)

end Execution

end StagedLoad
