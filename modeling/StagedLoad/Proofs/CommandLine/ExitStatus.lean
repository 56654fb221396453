import StagedLoad.CommandLine.Program
import StagedLoad.Proofs.Run.Termination

/-!
# What the caller of the program is told

Whatever is wrong with a profile is found before there is a run, and then the program exits with
30.  A run of requests always ends with a report, whatever the server does, because no iteration
crashes or fails to observe something.  So the exit status tells the verdict, unless the report
cannot be written: then it tells whom the report was for.  To look whether a profile is valid is to
look for the same faults.

## Main definitions

* `RunArguments.Invalid` — what can be wrong with a profile that is to be run.
* `RunArguments.TakesHeader` — the header of a run can be printed.
* `RunArguments.Tells` — what the exit status of a run with a report tells.

## Main results

* `RunArguments.invalid_or_prepare` — something is wrong, or there is a run.
* `HttpWorkload.report_of_execute?` — a run of requests that ends has a report.
* `ValidateArguments.result_eq_error_iff` — looking at a profile finds what running it finds.
* `RunArguments.exit_status` — **the exit status tells what came of it**.
-/

namespace StagedLoad

variable {σ : Type}

/-! ### Runs of requests -/

/-- An iteration always observes something, whatever the network does. -/
theorem HttpWorkload.exists_outcome (w : HttpWorkload) (network : Network σ) (c : IterationContext)
    (state : σ) : ∃ o, ((w.workload network).invoke c state).1.ending = .outcome o := ⟨_, rfl⟩

/-- A run of requests that ends has a report. -/
theorem HttpWorkload.report_of_execute? {w : HttpWorkload} {network : Network σ}
    {config : RunConfig} {state : σ} {reporting : Bool} {aborts : List Nat} {r r' : Run σ} {fuel : Nat}
    {result : Except PoolFault RunReport}
    (hprepare : Run.prepare config (w.workload network) state reporting aborts = .ok r)
    (hexecute : r.execute? fuel = some (r', result)) : ∃ report, result = .ok report := by
  cases result with
  | ok report => exact ⟨report, rfl⟩
  | error fault =>
    obtain ⟨cause, -, n, hcrashing⟩ := Run.exists_crashing_of_fault hprepare hexecute rfl
    exact absurd hcrashing (Run.not_crashing_of_prepare hprepare (fun _ _ => rfl) n cause)

/-! ### Plans of profiles -/

section Plan

variable {p : Profile} {config : RunConfig} {baseUrl : Option String}

theorem Profile.plan_of_workload_error {f : WorkloadFault} (h : p.workload? baseUrl = .error f) :
    p.plan config baseUrl = .error (.workload f) := by
  rw [plan, h]
  rfl

theorem Profile.plan_of_workload_ok {w : HttpWorkload} (h : p.workload? baseUrl = .ok w) :
    p.plan config baseUrl =
      ((config.validate w.declared).mapError ProgramFault.config).map fun plan => (w, plan) := by
  have hplan : p.plan config baseUrl = (do
      let plan ← (config.validate w.declared).mapError ProgramFault.config
      return (w, plan)) := by
    rw [plan, h]
    rfl
  rw [hplan]
  cases config.validate w.declared <;> rfl

end Plan

namespace RunArguments

variable {a : RunArguments} {p : Profile} {network : Network σ} {state : σ} {aborts : List Nat}

theorem prepare_of_plan_error {f : ProgramFault} (h : p.plan (a.adjusted p) a.baseUrl = .error f) :
    a.prepare p network state aborts = .error f := by
  rw [prepare, h]
  rfl

/-- If the profile has a workload, what is run is a run of it. -/
theorem prepare_of_workload {w : HttpWorkload} (h : p.workload? a.baseUrl = .ok w) :
    a.prepare p network state aborts =
      (Run.prepare (a.adjusted p) (w.workload network) state (!a.noProgress) aborts).mapError
        ProgramFault.config := by
  rw [prepare, Profile.plan_of_workload_ok h, Run.prepare]
  have hdeclared : (w.workload network).declared = w.declared := rfl
  rw [hdeclared]
  cases (a.adjusted p).validate w.declared <;> rfl

/-! ### What can be wrong -/

/-- What can be wrong with a profile that is to be run: it cannot be loaded, it has no workload, or
its configuration is not valid. -/
inductive Invalid (a : RunArguments) (read : FileReader Id) : ProgramFault → Prop
  | load {f : LoadFault} (load : (Profile.load read a.config).run = .error f) :
      Invalid a read (.load f)
  | workload {p : Profile} {f : WorkloadFault} (load : (Profile.load read a.config).run = .ok p)
      (workload : p.workload? a.baseUrl = .error f) : Invalid a read (.workload f)
  | config {p : Profile} {w : HttpWorkload} {f : ConfigFault}
      (load : (Profile.load read a.config).run = .ok p) (workload : p.workload? a.baseUrl = .ok w)
      (config : (a.adjusted p).validate w.declared = .error f) : Invalid a read (.config f)

variable {read : FileReader Id} {f : ProgramFault}

theorem Invalid.exitCode (h : a.Invalid read f) : f.exitCode = .invalidInput := by
  cases h <;> rfl

/-- Something is wrong with a profile, or there is a run of it. -/
theorem invalid_or_prepare (a : RunArguments) (read : FileReader Id) (network : Network σ)
    (state : σ) (aborts : List Nat) : (∃ f, a.Invalid read f) ∨
      ∃ p w r, (Profile.load read a.config).run = .ok p ∧ p.workload? a.baseUrl = .ok w ∧
        Run.prepare (a.adjusted p) (w.workload network) state (!a.noProgress) aborts = .ok r := by
  cases hload : (Profile.load read a.config).run with
  | error f => exact .inl ⟨_, .load hload⟩
  | ok p =>
    cases hworkload : p.workload? a.baseUrl with
    | error f => exact .inl ⟨_, .workload hload hworkload⟩
    | ok w =>
      cases hconfig : (a.adjusted p).validate w.declared with
      | error f => exact .inl ⟨_, .config hload hworkload hconfig⟩
      | ok plan =>
        obtain ⟨r, hr⟩ : ∃ r, Run.prepare (a.adjusted p) (w.workload network) state
            (!a.noProgress) aborts = .ok r := by
          rw [Run.prepare, show (w.workload network).declared = w.declared from rfl, hconfig]
          exact ⟨_, rfl⟩
        exact .inr ⟨p, w, r, rfl, hworkload, hr⟩

variable (network state aborts read) (start : Instant) (fuel : Nat) (out : Output)

/-- If something is wrong there is no run, and the program breaks off. -/
theorem conduct?_of_invalid (h : a.Invalid read f) :
    (a.conduct? read network state aborts start fuel out).run = some (.broken f, none) := by
  cases h with
  | load load => simp only [conduct?, Id.run_bind, load, Id.run_pure]
  | @workload p f load workload =>
    have hprepare : a.prepare p network state aborts = .error (.workload f) :=
      prepare_of_plan_error (Profile.plan_of_workload_error workload)
    simp only [conduct?, Id.run_bind, load, hprepare, Id.run_pure]
  | @config p w f load workload config =>
    have hprepare : a.prepare p network state aborts = .error (.config f) := by
      rw [prepare_of_workload workload, Run.prepare,
        show (w.workload network).declared = w.declared from rfl, config]
      rfl
    simp only [conduct?, Id.run_bind, load, hprepare, Id.run_pure]

section Prepared

variable {w : HttpWorkload} {r : Run σ} (hload : (Profile.load read a.config).run = .ok p)
  (hworkload : p.workload? a.baseUrl = .ok w)
  (hprepare : Run.prepare (a.adjusted p) (w.workload network) state (!a.noProgress) aborts = .ok r)

include hload hworkload hprepare

/-- If nothing is wrong and the header is printed, there is a run. -/
theorem conduct?_of_prepare (hheader : a.headerRefusal? out r = none) :
    (a.conduct? read network state aborts start fuel out).run =
      (r.launch? start fuel).map fun ended => (a.session out ended, some ended.1) := by
  have hrun : a.prepare p network state aborts = .ok r := by
    rw [prepare_of_workload hworkload, hprepare]
    rfl
  simp only [conduct?, Id.run_bind, hload, hrun, hheader, Id.run_pure]

/-- If the header is refused, there is none. -/
theorem conduct?_of_headerRefusal {reason : String}
    (hheader : a.headerRefusal? out r = some reason) :
    (a.conduct? read network state aborts start fuel out).run =
      some (.broken (.crash (.print reason)), none) := by
  have hrun : a.prepare p network state aborts = .ok r := by
    rw [prepare_of_workload hworkload, hprepare]
    rfl
  simp only [conduct?, Id.run_bind, hload, hrun, hheader, Id.run_pure]

end Prepared

end RunArguments

/-! ### Exit statuses -/

theorem Session.status_broken {f : ProgramFault} (h : f.crash? = none) :
    (Session.broken f).status = f.exitCode.code.toUInt32 := by
  simp [status, broken, h]

namespace RunArguments

variable {a : RunArguments} {read : FileReader Id} {f : ProgramFault}

/-- What is wrong with a profile makes the program exit with 30, unless a conversion has ended
it. -/
theorem Invalid.status (h : a.Invalid read f)
    (hcrash : ∀ f, (Profile.load read a.config).run = .error f → f.crash? = none) :
    (Session.broken f).status = 30 := by
  have hnone : f.crash? = none := by
    cases h with
    | load load => simp [ProgramFault.crash?, hcrash _ load]
    | workload | config => rfl
  rw [Session.status_broken hnone, h.exitCode]
  rfl

theorem Invalid.ne_crash (h : a.Invalid read f) (crash : ProgramCrash) : f ≠ .crash crash := by
  rintro rfl
  cases h

/-- The program breaks off without a run and exits with 30 for what is wrong, and for nothing
else. -/
theorem broken_iff (network : Network σ) (state : σ) (aborts : List Nat) (start : Instant)
    (out : Output)
    (hcrash : ∀ f, (Profile.load read a.config).run = .error f → f.crash? = none) :
    ((Session.broken f).status = 30 ∧ ∀ fuel,
      (a.conduct? read network state aborts start fuel out).run = some (.broken f, none)) ↔
      a.Invalid read f := by
  refine ⟨?_, fun h => ⟨h.status hcrash, fun fuel =>
    conduct?_of_invalid network state aborts read start fuel out h⟩⟩
  rintro ⟨hstatus, hbroken⟩
  rcases invalid_or_prepare a read network state aborts with
    ⟨g, hg⟩ | ⟨p, w, r, hload, hworkload, hprepare⟩
  · have hsame := hbroken 0
    rw [conduct?_of_invalid network state aborts read start 0 out hg] at hsame
    cases hsame
    exact hg
  · have hnone := hbroken 0
    cases hheader : a.headerRefusal? out r with
    | some reason =>
      rw [conduct?_of_headerRefusal network state aborts read start 0 out hload hworkload hprepare
        hheader] at hnone
      cases hnone
      cases hstatus
    | none =>
      -- there is a run
      rw [conduct?_of_prepare network state aborts read start 0 out hload hworkload hprepare
        hheader] at hnone
      obtain ⟨ended, -, hsession⟩ := Option.map_eq_some_iff.1 hnone
      cases (Prod.mk.inj hsession).2

/-- The output takes the header of a run, which only people get. -/
def TakesHeader (a : RunArguments) (out : Output) (r : Run σ) : Prop :=
  a.output = .human → out.refusal? "" (r.plan.header a.config) = none

theorem headerRefusal?_eq_none_iff {out : Output} {r : Run σ} :
    a.headerRefusal? out r = none ↔ a.TakesHeader out r := by
  unfold headerRefusal? TakesHeader
  cases a.output <;> simp

/-- What the exit status of a run with a report tells: the verdict, if the output takes the report,
and otherwise whom the report was for. -/
structure Tells (a : RunArguments) (out : Output) (r : Run σ) (report : RunReport)
    (status : UInt32) : Prop where
  /-- The report is printed. -/
  taken : out.refusal? (a.printed out r) (a.output.report report) = none →
    (status = 0 ↔ report.evaluation.verdict = .pass) ∧
      (status = 11 ↔ report.evaluation.verdict = .fail)
  /-- The report is refused: a line of JSON is, or the program crashes. -/
  refused : out.refusal? (a.printed out r) (a.output.report report) ≠ none →
    status = match a.output with
      | .json => 40
      | .human => 101

theorem tells_session (a : RunArguments) (out : Output) (r : Run σ) (report : RunReport) :
    (a.session out (r, .ok (.ok report))).status ≠ 30 ∧
      a.Tells out r report (a.session out (r, .ok (.ok report))).status := by
  cases hrefusal : out.refusal? (a.printed out r) (a.output.report report) with
  | none =>
    have hstatus : (a.session out (r, .ok (.ok report))).status =
        (ExitCode.ofVerdict report.evaluation.verdict).code.toUInt32 := by
      simp only [session, hrefusal, Session.status]
    rw [hstatus]
    refine ⟨?_, fun _ => ?_, fun hnot => absurd hrefusal hnot⟩
    · cases report.evaluation.verdict <;> decide
    · cases report.evaluation.verdict <;> decide
  | some reason =>
    have hstatus : (a.session out (r, .ok (.ok report))).status =
        match a.output with
        | .json => 40
        | .human => 101 := by
      simp only [session, hrefusal, Session.status]
      cases a.output <;> rfl
    rw [hstatus]
    refine ⟨?_, fun htaken => ?_, fun _ => rfl⟩
    · cases a.output <;> decide
    · rw [hrefusal] at htaken
      cases htaken

/-- What comes of a profile that nothing is wrong with: the program crashes, or there is a run with
a report, and the exit status tells what came of it. -/
theorem status_of_conduct? {p : Profile} {w : HttpWorkload} {network : Network σ} {state : σ}
    {aborts : List Nat} {start : Instant} {r : Run σ} {fuel : Nat} {out : Output} {s : Session}
    {run : Option (Run σ)} (hload : (Profile.load read a.config).run = .ok p)
    (hworkload : p.workload? a.baseUrl = .ok w)
    (hprepare : Run.prepare (a.adjusted p) (w.workload network) state (!a.noProgress) aborts =
      .ok r)
    (hsome : (a.conduct? read network state aborts start fuel out).run = some (s, run)) :
    s.status ≠ 30 ∧
    (¬ a.TakesHeader out r ∨ ¬ r.IntervalsFit start → s.status = 101) ∧
    (a.TakesHeader out r → r.IntervalsFit start → ∃ r' report, run = some r' ∧
      r.launch? start fuel = some (r', .ok (.ok report)) ∧ a.Tells out r' report s.status) := by
  rw [← headerRefusal?_eq_none_iff]
  cases hheader : a.headerRefusal? out r with
  | some reason =>
    rw [conduct?_of_headerRefusal network state aborts read start fuel out hload hworkload hprepare
      hheader] at hsome
    cases hsome
    have hstatus : (Session.broken (.crash (.print reason))).status = 101 := rfl
    exact ⟨by rw [hstatus]; decide, fun _ => hstatus, fun hnone => by cases hnone⟩
  | none =>
    rw [conduct?_of_prepare network state aborts read start fuel out hload hworkload hprepare
      hheader] at hsome
    obtain ⟨⟨r', outcome⟩, hlaunch, hsession⟩ := Option.map_eq_some_iff.1 hsome
    obtain ⟨rfl, rfl⟩ := Prod.mk.inj hsession
    cases outcome with
    | error crash =>
      have hstatus : (a.session out (r', .error crash)).status = 101 := rfl
      refine ⟨by rw [hstatus]; decide, fun _ => hstatus, fun _ hfits => ?_⟩
      exact absurd hfits (Run.launch?_eq_error_iff.1 hlaunch).1
    | ok result =>
      obtain ⟨hfits, hexecute⟩ := Run.launch?_eq_ok_iff.1 hlaunch
      obtain ⟨report, rfl⟩ := HttpWorkload.report_of_execute? hprepare hexecute
      obtain ⟨hvalid, htells⟩ := tells_session a out r' report
      refine ⟨hvalid, ?_, fun _ _ => ⟨r', report, rfl, hlaunch, htells⟩⟩
      rintro (hnot | hnot)
      · exact absurd rfl hnot
      · exact absurd hfits hnot

theorem Invalid.unique {g : ProgramFault} (h : a.Invalid read f) (h' : a.Invalid read g) :
    f = g := by
  have hf := conduct?_of_invalid Network.unreachable ⟨⟩ [] read (.clamp 0) 0 .taking h
  rw [conduct?_of_invalid Network.unreachable ⟨⟩ [] read (.clamp 0) 0 .taking h'] at hf
  cases hf
  rfl

/-- There is only one thing that is wrong. -/
theorem Invalid.error_eq_iff {α : Type} {g : ProgramFault} (h : a.Invalid read g) :
    ((.error g : Except ProgramFault α) = .error f ∧ ∀ crash, f ≠ .crash crash) ↔
      a.Invalid read f := by
  constructor
  · rintro ⟨heq, -⟩
    cases heq
    exact h
  · intro h'
    rw [h.unique h']
    exact ⟨rfl, h'.ne_crash⟩

theorem not_invalid {w : HttpWorkload} {plan : RunPlan}
    (hload : (Profile.load read a.config).run = .ok p) (hworkload : p.workload? a.baseUrl = .ok w)
    (hconfig : (a.adjusted p).validate w.declared = .ok plan) : ¬ a.Invalid read f := by
  intro h
  cases h with
  | load load => rw [hload] at load; cases load
  | workload load workload =>
    rw [hload] at load
    cases load
    rw [hworkload] at workload
    cases workload
  | config load workload config =>
    rw [hload] at load
    cases load
    rw [hworkload] at workload
    cases workload
    rw [hconfig] at config
    cases config

end RunArguments

/-! ### Looking at a profile -/

/-- A profile that says where its requests go has the same workload if nothing else does. -/
theorem Profile.workload?_of_baseUrl {p : Profile} (h : p.baseUrl ≠ none) :
    p.workload? (some (p.baseUrl.getD standInBase)) = p.workload? none := by
  obtain ⟨base, hbase⟩ := Option.ne_none_iff_exists'.1 h
  simp only [workload?, hbase, Option.getD_some, Option.some_or, Option.none_or]

section Validate

variable {v : ValidateArguments} {a : RunArguments} {read : FileReader Id} {f : ProgramFault}
  (hpath : v.config = a.config) (hbase : a.baseUrl = none) (hthink : a.thinkTime = none)
  (hprofile : ∀ p, (Profile.load read a.config).run = .ok p → p.baseUrl ≠ none)

include hpath hbase hthink hprofile

/-- Looking at a profile that can be loaded is to make the plan that would be run. -/
theorem ValidateArguments.execute_of_load (out : Output) {p : Profile}
    (hload : (Profile.load read a.config).run = .ok p) :
    (v.execute read out).run = match p.plan (a.adjusted p) a.baseUrl with
      | .error f => .broken f
      | .ok (_, plan) =>
        match out.refusal? "" plan.line with
        | some reason => .broken (.crash (.print reason))
        | none => ⟨plan.line, .ok .success⟩ := by
  have hadjusted : a.adjusted p = p.run := by rw [RunArguments.adjusted, hthink]; rfl
  have hplan : p.plan p.run (some (p.baseUrl.getD standInBase)) = p.plan p.run none := by
    rw [Profile.plan, Profile.workload?_of_baseUrl (hprofile p hload), Profile.plan]
  simp only [execute, Id.run_bind, hpath, hload, hadjusted, hbase, hplan]
  cases p.plan p.run none with
  | error => rfl
  | ok x =>
    dsimp only
    cases out.refusal? "" x.2.line <;> rfl

/-- To look at a profile is to find what would be wrong with running it, unless the output refuses
the line that says that nothing is. -/
theorem ValidateArguments.result_eq_error_iff (out : Output) :
    ((v.execute read out).run.result = .error f ∧ ∀ crash, f ≠ .crash crash) ↔
      a.Invalid read f := by
  cases hload : (Profile.load read a.config).run with
  | error g =>
    have hexecute : (v.execute read out).run = .broken (.load g) := by
      simp only [execute, Id.run_bind, hpath, hload, Id.run_pure]
    rw [hexecute]
    exact (RunArguments.Invalid.load hload).error_eq_iff
  | ok p =>
    rw [execute_of_load hpath hbase hthink hprofile out hload]
    cases hworkload : p.workload? a.baseUrl with
    | error g =>
      rw [Profile.plan_of_workload_error hworkload]
      exact (RunArguments.Invalid.workload hload hworkload).error_eq_iff
    | ok w =>
      rw [Profile.plan_of_workload_ok hworkload]
      cases hconfig : (a.adjusted p).validate w.declared with
      | error g => exact (RunArguments.Invalid.config hload hworkload hconfig).error_eq_iff
      | ok plan =>
        refine iff_of_false ?_ (RunArguments.not_invalid hload hworkload hconfig)
        rintro ⟨herror, hcrash⟩
        simp only [Except.mapError, Except.map] at herror
        cases hrefusal : out.refusal? "" plan.line with
        | none => rw [hrefusal] at herror; cases herror
        | some reason =>
          rw [hrefusal] at herror
          cases herror
          exact hcrash _ rfl

end Validate

namespace RunArguments

/-- **The exit status tells what came of a profile**, if no duration in it is too long to be
converted.

It is 30 exactly if the profile cannot be loaded, has no workload or is not valid; then there is no
run at all, so nobody comes and no request is sent.  Otherwise there is a run of the requests of
the profile, every iteration of which observes something.  The program crashes with 101 if the
header cannot be printed, before there is a run, or if the intervals of the run do not fit the
clock.  If they do, the run ends, if every iteration takes time or is followed by a pause and the
schedule is over some time; and when it ends there is a report.  The status is 0 or 11 as the
verdict says, unless the output refuses the report: then it is 40 if this was to be a line of JSON,
and 101 if it was to be text for people.  And to look at a profile that says where its requests go
is to find the faults that break off running it as it is. -/
theorem exit_status (read : FileReader Id) (network : Network σ) (state : σ) (aborts : List Nat)
    (start : Instant) (out : Output) (a : RunArguments)
    (hcrash : ∀ f, (Profile.load read a.config).run = .error f → f.crash? = none) :
    (∀ f, a.Invalid read f → (Session.broken f).status = 30 ∧ ∀ fuel,
      (a.conduct? read network state aborts start fuel out).run = some (.broken f, none)) ∧
    ((∀ f, ¬ a.Invalid read f) → ∃ p w r, (Profile.load read a.config).run = .ok p ∧
      p.workload? a.baseUrl = .ok w ∧
      Run.prepare (a.adjusted p) (w.workload network) state (!a.noProgress) aborts = .ok r ∧
      (∀ c state, ∃ o, ((w.workload network).invoke c state).1.ending = .outcome o) ∧
      (a.TakesHeader out r → r.IntervalsFit start →
        (w.workload network).TakesTime r.plan.thinkTime →
        r.plan.schedule.total.nanos < Duration.maxNanos → ∃ fuel ended,
          (a.conduct? read network state aborts start fuel out).run = some ended) ∧
      ∀ fuel s run,
        (a.conduct? read network state aborts start fuel out).run = some (s, run) →
        s.status ≠ 30 ∧
        (¬ a.TakesHeader out r ∨ ¬ r.IntervalsFit start → s.status = 101) ∧
        (a.TakesHeader out r → r.IntervalsFit start → ∃ r' report, run = some r' ∧
          r.launch? start fuel = some (r', .ok (.ok report)) ∧
          a.Tells out r' report s.status)) ∧
    ∀ v : ValidateArguments, v.config = a.config → a.baseUrl = none → a.thinkTime = none →
      (∀ p, (Profile.load read a.config).run = .ok p → p.baseUrl ≠ none) → ∀ f,
        ((v.execute read out).run.result = .error f ∧ ∀ crash, f ≠ .crash crash) ↔
          ((Session.broken f).status = 30 ∧ ∀ fuel,
            (a.conduct? read network state aborts start fuel out).run =
              some (.broken f, none)) := by
  refine ⟨fun f h => (broken_iff network state aborts start out hcrash).2 h, ?_, ?_⟩
  · intro hvalid
    rcases invalid_or_prepare a read network state aborts with
      ⟨f, hf⟩ | ⟨p, w, r, hload, hworkload, hprepare⟩
    · exact absurd hf (hvalid f)
    · refine ⟨p, w, r, hload, hworkload, hprepare, w.exists_outcome network, ?_, ?_⟩
      · intro hheader hfits htakes htotal
        obtain ⟨fuel, ended, hexecute⟩ := Run.exists_end hprepare htakes htotal
        refine ⟨fuel, (a.session out (ended.1, .ok ended.2), some ended.1), ?_⟩
        rw [conduct?_of_prepare network state aborts read start fuel out hload hworkload hprepare
          (headerRefusal?_eq_none_iff.2 hheader), Run.launch?_eq_ok_iff.2 ⟨hfits, hexecute⟩,
          Option.map_some]
      · intro fuel s run hsome
        exact status_of_conduct? hload hworkload hprepare hsome
  · intro v hpath hbase hthink hprofile f
    rw [ValidateArguments.result_eq_error_iff hpath hbase hthink hprofile,
      broken_iff network state aborts start out hcrash]

/-- A profile with one stage and one request. -/
def oneRequest : String :=
  "baseUrl: http://h\nstages: [\x7bduration: 1s, target: 1\x7d]\n" ++
    "requests: [\x7bname: a, path: /\x7d]\n"

/-- The only file there is holds it. -/
def oneFile : FileReader Id := fun path =>
  if path = "load.yaml" then .ok (Bytes.ofString oneRequest) else .error .notFound

/-- A server that answers after 200 milliseconds. -/
def slowServer : Network Unit where
  exchange _ state := (⟨Duration.ofMillis 200, .response 200 [] []⟩, state)

/-- The profile is run with a report for programs. -/
def oneRun : RunArguments := { config := "load.yaml", output := .json }

/-- The run passes, and the profile is found to be valid. -/
theorem oneRun_passes : ∃ s r report,
    (oneRun.conduct? oneFile slowServer () [] (.clamp 0) 40 .taking).run = some (s, some r) ∧
    s.status = 0 ∧ report.evaluation.verdict = .pass ∧
    (∃ fresh : Run Unit, fresh.launch? (.clamp 0) 40 = some (r, .ok (.ok report))) ∧
    ∀ f, (∀ crash, f ≠ .crash crash) →
      (({ config := "load.yaml" } : ValidateArguments).execute oneFile .taking).run.result ≠
        .error f := by
  have hload : (Profile.load oneFile oneRun.config).run.toOption.any
      (fun p => p.baseUrl.isSome) = true := by decide +kernel
  have hconduct : (oneRun.conduct? oneFile slowServer () [] (.clamp 0) 40 .taking).run.map
      (fun x => (x.1.status, x.2.isSome)) = some (0, true) := by decide +kernel
  obtain ⟨p, hp, hbase⟩ : ∃ p, (Profile.load oneFile oneRun.config).run = .ok p ∧
      p.baseUrl ≠ none := by
    cases hp : (Profile.load oneFile oneRun.config).run with
    | error f => rw [hp] at hload; cases hload
    | ok p =>
      rw [hp] at hload
      exact ⟨p, rfl, fun hnone => by simp [Except.toOption, hnone] at hload⟩
  obtain ⟨⟨s, run⟩, hsome, hpair⟩ := Option.map_eq_some_iff.1 hconduct
  obtain ⟨hstatus, hrun⟩ := Prod.mk.inj hpair
  obtain ⟨hinvalid, hvalid, hvalidate⟩ := exit_status oneFile slowServer () [] (.clamp 0) .taking
    oneRun (fun f hf => by rw [hp] at hf; cases hf)
  have hfine : ∀ f, ¬ oneRun.Invalid oneFile f := by
    intro f hf
    rw [(hinvalid f hf).2 40] at hsome
    cases hsome
    cases hrun
  obtain ⟨_, _, fresh, -, -, -, -, -, hends⟩ := hvalid hfine
  obtain ⟨-, hcrashed, hreport⟩ := hends 40 s run hsome
  have hzero : s.status = 0 := hstatus
  have hfits : fresh.IntervalsFit (.clamp 0) := by
    by_contra hnot
    rw [hcrashed (.inr hnot)] at hzero
    cases hzero
  obtain ⟨r, report, rfl, hlaunch, htells⟩ := hreport (fun h => by cases h) hfits
  refine ⟨s, r, report, hsome, hzero, (htells.taken rfl).1.1 hzero, ⟨fresh, hlaunch⟩, ?_⟩
  intro f hcrash hf
  have hbroken := ((hvalidate { config := "load.yaml" } rfl rfl rfl
    (fun p' hp' => by rw [hp] at hp'; cases hp'; exact hbase) f).1 ⟨hf, hcrash⟩).2 40
  rw [hbroken] at hsome
  cases hsome

end RunArguments

end StagedLoad
