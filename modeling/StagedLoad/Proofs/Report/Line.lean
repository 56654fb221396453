import StagedLoad.Proofs.Json.RoundTrip
import StagedLoad.Proofs.Metric.Percentile
import StagedLoad.Proofs.Text.Utf8
import StagedLoad.Report.Line

/-!
# Reports for programs are read back

A program that reads the standard output line by line gets one value of JSON with each line, and
finds in it what was to be told: counts, names and texts exactly, whatever characters servers and
profiles put into the texts.

## Main definitions

* `Json.under?`, `Json.names` — what a path of names leads to, and the names of an object.
* `Json.CountsAt`, `Json.NamesAt` — a count, and a name that tells which thing is meant.
* `TellsOnOneLine` — a line is a value of JSON that says something.
* `RunReport.ToldBy`, `ProgressUpdate.ToldBy` — a value says what a report or an update says.

## Main results

* `Json.lastNamed?_entries` — the members of an object that is made of a table.
* `Json.ofBytes?_jsonLine` — a line is read back, and ends where it should.
* `reports_are_read_back` — **what is told is found on the line**.
-/

namespace StagedLoad

/-! ### Paths -/

namespace Json

variable {ν : Type}

/-- What a path of names leads to. -/
def under? : List String → Json ν → Option (Json ν)
  | [], v => some v
  | name :: names, v => (v.member? name).bind (under? names)

/-- The names of an object, as often as they are written. -/
def names : Json ν → List String
  | object members => members.map Prod.fst
  | _ => []

theorem lastNamed?_eq_none {name : String} {ms : List (String × Json ν)}
    (h : name ∉ ms.map Prod.fst) : lastNamed? name ms = none := by
  induction ms with
  | nil => rfl
  | cons m ms ih =>
    rw [List.map_cons, List.mem_cons, not_or] at h
    unfold lastNamed?
    rw [ih h.2, if_neg (Ne.symm h.1)]
    rfl

/-- The members of an object that is made of a table are those of the table. -/
theorem lastNamed?_entries {α : Type} (f : α → Json ν) (t : Table String α) (name : String) :
    lastNamed? name (t.entries.map fun e => (e.1, f e.2)) = (t.get? name).map f := by
  have hnodup := t.keys_nodup
  unfold Table.keys at hnodup
  unfold Table.get?
  generalize t.entries = l at hnodup ⊢
  induction l with
  | nil => rfl
  | cons e l ih =>
    rw [List.map_cons, List.nodup_cons] at hnodup
    rw [List.map_cons, lastNamed?, ih hnodup.2, Table.lookup_cons]
    by_cases hname : e.1 = name
    · have hnone : lastNamed? name (l.map fun e => (e.1, f e.2)) = none := by
        apply lastNamed?_eq_none
        rw [List.map_map, ← hname]
        exact hnodup.1
      rw [ih hnodup.2] at hnone
      rw [hnone, if_pos hname, if_pos hname]
      rfl
    · rw [if_neg hname, if_neg hname, Option.or_none]

theorem lastNamed?_reread (name : String) (ms : List (String × Json Number)) :
    lastNamed? name (rereadMembers ms) = (lastNamed? name ms).map reread := by
  induction ms with
  | nil => rfl
  | cons m ms ih =>
    obtain ⟨k, v⟩ := m
    rw [rereadMembers, lastNamed?, lastNamed?, ih]
    cases lastNamed? name ms with
    | none =>
      by_cases hk : k = name
      · rw [if_pos hk, if_pos hk]; rfl
      · rw [if_neg hk, if_neg hk]; rfl
    | some w => rfl

theorem member?_reread (name : String) (v : Json Number) :
    v.reread.member? name = (v.member? name).map reread := by
  cases v with
  | object ms => exact lastNamed?_reread name ms
  | number n =>
    change n.reread.member? name = none
    unfold Number.reread
    split
    · cases Literal.value? _ <;> rfl
    · rfl
  | _ => rfl

/-- A path goes on in the member that its first name leads to. -/
theorem under?_reread_cons {name : String} {v w : Json Number} (h : v.member? name = some w)
    (path : List String) : v.reread.under? (name :: path) = w.reread.under? path := by
  rw [under?, member?_reread, h]
  rfl

theorem under?_reread_text {name text : String} {v : Json Number}
    (h : v.member? name = some (string text)) : v.reread.under? [name] = some (string text) :=
  under?_reread_cons h []

theorem map_fst_rereadMembers (ms : List (String × Json Number)) :
    (rereadMembers ms).map Prod.fst = ms.map Prod.fst := by
  induction ms with
  | nil => rfl
  | cons m ms ih =>
    rw [List.map_cons, ← ih]
    rfl

theorem names_reread (ms : List (String × Json Number)) :
    (object ms).reread.names = ms.map Prod.fst := map_fst_rereadMembers ms

theorem fitsMembers_iff {ms : List (String × Json Number)} {depth : Nat} :
    FitsMembers ms depth ↔ ∀ m ∈ ms, m.2.Fits depth := by
  induction ms with
  | nil => simp [FitsMembers]
  | cons m ms ih =>
    obtain ⟨k, v⟩ := m
    rw [FitsMembers, ih, List.forall_mem_cons]

end Json

open Json (under? names)

/-! ### Lines -/

/-- The byte that ends a line. -/
def lineBreak : UInt8 := 10

/-- A line is a value of JSON that says something.  It has one line break, its last byte. -/
def TellsOnOneLine (line : String) (told : Json Json.Number → Prop) : Prop :=
  ∃ body, Bytes.ofString line = body ++ [lineBreak] ∧ lineBreak ∉ body ∧
    ∃ v, Json.ofBytes? (Bytes.ofString line) = some v ∧ told v

theorem Json.ofBytes?_jsonLine {v : Json Json.Number} (hfits : v.Fits Json.greatestDepth) :
    Json.ofBytes? (Bytes.ofString (jsonLine v)) = some v.reread := by
  have hchars : (jsonLine v).toList = v.chars ++ ['\n'] := by
    rw [jsonLine, String.toList_append, Json.render, String.toList_ofList]
    rfl
  unfold Json.ofBytes?
  rw [Bytes.toString?_ofString]
  change Json.ofChars? Json.Literal.value? (jsonLine v).toList = _
  rw [hchars, Json.ofChars?_line hfits]

/-- What the reader makes of a value is said on the line of the value. -/
theorem tellsOnOneLine {v : Json Json.Number} {told : Json Json.Number → Prop}
    (hfits : v.Fits Json.greatestDepth) (h : told v.reread) : TellsOnOneLine (jsonLine v) told := by
  refine ⟨Bytes.ofString v.render, ?_, ?_, v.reread, Json.ofBytes?_jsonLine hfits, h⟩
  · rw [jsonLine, Bytes.ofString_append]
    rfl
  · intro hbreak
    have hmem : '\n' ∈ v.render.toList := Bytes.mem_toList_of_byte_mem (by decide) hbreak
    rw [Json.render, String.toList_ofList] at hmem
    exact absurd (Json.visible_chars v _ hmem) (by decide)

/-! ### What is told -/

/-- Under a path there is a natural as an integer. -/
def Json.CountsAt (v : Json Json.Number) (path : List String) (n : Nat) : Prop :=
  v.under? path = some (.number (.integer n))

/-- Under a path there is the name of a thing, and of no other thing. -/
def Json.NamesAt {α : Type} (v : Json Json.Number) (path : List String) (name : α → String)
    (a : α) : Prop :=
  ∀ x, v.under? path = some (.string (name x)) ↔ x = a

/-- A value says what the statistics of a series say: its kind and its counts, and it has one
member for each percentile. -/
def Statistics.ToldBy (v : Json Json.Number) : Statistics → Prop
  | trend t => v.NamesAt ["type"] Metric.Kind.name .trend ∧ v.CountsAt ["count"] t.count ∧
      ∃ ps, v.under? ["percentiles"] = some ps ∧ ps.names.Nodup ∧
        ps.names.Perm (t.percentiles.keys.map Percentile.render)
  | rate r => v.NamesAt ["type"] Metric.Kind.name .rate ∧ v.CountsAt ["total"] r.total ∧
      v.CountsAt ["passes"] r.passes
  | counter c => v.NamesAt ["type"] Metric.Kind.name .counter ∧ v.CountsAt ["count"] c.count

/-- A value says what a report says. -/
structure RunReport.ToldBy (r : RunReport) (v : Json Json.Number) : Prop where
  /-- The verdict on all rules. -/
  verdict : v.NamesAt ["verdict"] Threshold.Verdict.name r.evaluation.verdict
  /-- Why the run stopped. -/
  stopReason : v.NamesAt ["stop_reason"] StopReason.name r.stopReason
  /-- How many iterations were recorded. -/
  iterations : v.CountsAt ["iterations"] r.iterations
  /-- The greatest number of live users. -/
  peak : v.CountsAt ["peak_vus"] r.peak
  /-- Every error is listed once, and no other one is. -/
  errors : (v.under? ["errors"]).map names = some r.errors.keys
  /-- How often an error ended an iteration. -/
  error : ∀ message n, r.errors.get? message = some n → v.CountsAt ["errors", message] n
  /-- Every rule is listed once, and no other one is. -/
  rules : (v.under? ["thresholds"]).map names = some r.evaluation.perRule.keys
  /-- What rule it is. -/
  rule : ∀ id j, r.evaluation.perRule.get? id = some j →
    v.under? ["thresholds", id, "metric"] = some (.string j.metric) ∧
    v.under? ["thresholds", id, "expression"] = some (.string j.expression)
  /-- How the rule stands. -/
  status : ∀ id j, r.evaluation.perRule.get? id = some j →
    v.NamesAt ["thresholds", id, "status"] Threshold.Status.name j.status
  /-- Every metric is listed once, and no other one is. -/
  metrics : (v.under? ["metrics"]).map names = some r.perMetric.keys
  /-- The statistics of the metric. -/
  metric : ∀ name s, r.perMetric.get? name = some s →
    ∃ w, v.under? ["metrics", name] = some w ∧ s.ToldBy w

/-- A value says what an update says. -/
structure ProgressUpdate.ToldBy (u : ProgressUpdate) (v : Json Json.Number) : Prop where
  /-- How many updates there have been. -/
  tick : v.CountsAt ["tick"] u.tick
  /-- Where the run is. -/
  phase : v.NamesAt ["phase"] Phase.name u.phase
  /-- Which stage it is in, counted from one. -/
  stage : v.CountsAt ["stage"] (u.stage.index + 1)
  /-- How many stages there are. -/
  stages : v.CountsAt ["stages"] u.stage.count
  /-- How many users there should be. -/
  target : v.CountsAt ["target_vus"] u.stage.current.toNat
  /-- How many there are. -/
  live : v.CountsAt ["live_vus"] u.live
  /-- How many iterations were recorded. -/
  iterations : v.CountsAt ["iterations_total"] u.iterations
  /-- How many of them failed. -/
  failed : v.CountsAt ["failed_total"] u.failed

/-- The counts of the statistics of a series have 64 bits. -/
def Statistics.Fits : Statistics → Prop
  | trend t => t.count ≤ Binary64.maxWord
  | rate r => r.total ≤ Binary64.maxWord ∧ r.passes ≤ Binary64.maxWord
  | counter c => c.count ≤ Binary64.maxWord

/-- The counts of a report have 64 bits. -/
structure RunReport.Fits (r : RunReport) : Prop where
  /-- The number of iterations. -/
  iterations : r.iterations ≤ Binary64.maxWord
  /-- The greatest number of live users. -/
  peak : r.peak ≤ Binary64.maxWord
  /-- The number of times that an error ended an iteration. -/
  errors : ∀ message n, r.errors.get? message = some n → n ≤ Binary64.maxWord
  /-- The counts of a series. -/
  metrics : ∀ name s, r.perMetric.get? name = some s → s.Fits

/-- The counts of an update have 64 bits. -/
structure ProgressUpdate.Fits (u : ProgressUpdate) : Prop where
  /-- The number of updates. -/
  tick : u.tick ≤ Binary64.maxWord
  /-- The number of the stage. -/
  stage : u.stage.index + 1 ≤ Binary64.maxWord
  /-- The number of stages. -/
  stages : u.stage.count ≤ Binary64.maxWord
  /-- The number of live users. -/
  live : u.live ≤ Binary64.maxWord
  /-- The number of iterations. -/
  iterations : u.iterations ≤ Binary64.maxWord
  /-- The number of iterations that failed. -/
  failed : u.failed ≤ Binary64.maxWord

/-! ### Names are told apart -/

theorem Threshold.Verdict.name_inj {x y : Threshold.Verdict} : x.name = y.name ↔ x = y := by
  cases x <;> cases y <;> decide

theorem Threshold.Status.name_inj {x y : Threshold.Status} : x.name = y.name ↔ x = y := by
  cases x <;> cases y <;> decide

theorem StopReason.name_inj {x y : StopReason} : x.name = y.name ↔ x = y := by
  cases x <;> cases y <;> decide

theorem Phase.name_inj {x y : Phase} : x.name = y.name ↔ x = y := by
  cases x <;> cases y <;> decide

theorem Metric.Kind.name_inj {x y : Metric.Kind} : x.name = y.name ↔ x = y := by
  cases x <;> cases y <;> decide

/-! ### What is written -/

theorem fits_countJson {n : Nat} (h : n ≤ Binary64.maxWord) (depth : Nat) :
    (countJson n).Fits depth := by
  refine ⟨?_, Int.ofNat_le.mpr h⟩
  omega

theorem reread_countJson {n : Nat} (h : n ≤ Binary64.maxWord) :
    (countJson n).reread = countJson n :=
  Json.Number.reread_integer (fits_countJson h 0)

theorem countsAt_reread {name : String} {v : Json Json.Number} {n : Nat}
    (hn : n ≤ Binary64.maxWord) (h : v.member? name = some (countJson n)) :
    v.reread.CountsAt [name] n := by
  rw [Json.CountsAt, Json.under?_reread_cons h, reread_countJson hn]
  rfl

theorem namesAt_reread {α : Type} {key : String} {v : Json Json.Number} {name : α → String}
    {a : α} (hinj : ∀ {x y}, name x = name y ↔ x = y)
    (h : v.member? key = some (.string (name a))) :
    v.reread.NamesAt [key] name a := by
  intro x
  rw [Json.under?_reread_text h, Option.some_inj, Json.string.injEq, hinj, eq_comm]

theorem toNat_le_maxWord (n : UInt64) : n.toNat ≤ Binary64.maxWord :=
  Nat.le_of_lt_succ n.toNat_lt

theorem fits_optionalNumber (x : Option Float) (depth : Nat) : (optionalNumber x).Fits depth := by
  cases x <;> exact True.intro

theorem fits_tableJson {α : Type} {f : α → Json Json.Number} {t : Table String α} {depth : Nat}
    (h : ∀ k v, t.get? k = some v → (f v).Fits depth) : (tableJson f t).Fits (depth + 1) := by
  refine ⟨Nat.succ_pos _, Json.fitsMembers_iff.mpr ?_⟩
  rintro ⟨k, v⟩ hmem
  rw [List.mem_map] at hmem
  obtain ⟨⟨k, w⟩, hw, heq⟩ := hmem
  cases heq
  exact h k w (Table.mem_entries_iff.mp hw)

theorem names_tableJson {α : Type} (f : α → Json Json.Number) (t : Table String α) :
    (tableJson f t).reread.names = t.keys := by
  rw [tableJson, Json.names_reread, List.map_map]
  rfl

theorem member?_tableJson {α : Type} {f : α → Json Json.Number} {t : Table String α} {k : String}
    {v : α} (h : t.get? k = some v) : (tableJson f t).member? k = some (f v) := by
  change Json.lastNamed? k _ = _
  rw [Json.lastNamed?_entries, h]
  rfl

theorem fits_percentilesJson (t : Table Percentile Float) (depth : Nat) :
    (percentilesJson t).Fits (depth + 1) := by
  refine ⟨Nat.succ_pos _, Json.fitsMembers_iff.mpr ?_⟩
  rintro ⟨k, v⟩ hmem
  rw [Table.mem_entries_iff, Table.get?_ofList_eq_some_iff] at hmem
  obtain ⟨before, after, hl, -⟩ := hmem
  have hin : (k, v) ∈ t.entries.map fun e => (e.1.render, doubleJson e.2) := by
    rw [hl]
    exact List.mem_append_right _ List.mem_cons_self
  obtain ⟨e, -, he⟩ := List.mem_map.mp hin
  cases he
  exact True.intro

/-- The names of percentiles are told apart, so none is lost in the object. -/
theorem names_percentilesJson (t : Table Percentile Float) :
    (percentilesJson t).reread.names =
      (Table.ofList (t.entries.map fun e => (e.1.render, doubleJson e.2))).keys :=
  Json.names_reread _

theorem names_percentilesJson_perm (t : Table Percentile Float) :
    (percentilesJson t).reread.names.Perm (t.keys.map Percentile.render) := by
  have hnodup : (t.keys.map Percentile.render).Nodup :=
    t.keys_nodup.map fun _ _ h => Percentile.render_inj.mp h
  rw [names_percentilesJson, List.perm_ext_iff_of_nodup (Table.keys_nodup _) hnodup]
  intro name
  rw [Table.mem_keys_ofList, List.map_map, Table.keys, List.map_map]
  rfl

theorem fits_statistics {s : Statistics} (h : s.Fits) (depth : Nat) :
    s.json.Fits (depth + 2) := by
  cases s with
  | trend t =>
    have hcount : t.count ≤ Binary64.maxWord := h
    simp [Statistics.json, Json.Fits, Json.FitsMembers, fits_countJson hcount,
      fits_optionalNumber, fits_percentilesJson]
  | rate r => simp [Statistics.json, Json.Fits, Json.FitsMembers, fits_countJson h.1,
      fits_countJson h.2, fits_optionalNumber]
  | counter c =>
    have hcount : c.count ≤ Binary64.maxWord := h
    simp [Statistics.json, Json.Fits, Json.FitsMembers, fits_countJson hcount,
      fits_optionalNumber]

theorem toldBy_statistics {s : Statistics} (h : s.Fits) : s.ToldBy s.json.reread := by
  cases s with
  | trend t =>
    refine ⟨namesAt_reread Metric.Kind.name_inj rfl, countsAt_reread h rfl,
      (percentilesJson t.percentiles).reread, Json.under?_reread_cons rfl [], ?_,
      names_percentilesJson_perm t.percentiles⟩
    rw [names_percentilesJson]
    exact Table.keys_nodup _
  | rate r =>
    exact ⟨namesAt_reread Metric.Kind.name_inj rfl, countsAt_reread h.1 rfl,
      countsAt_reread h.2 rfl⟩
  | counter c => exact ⟨namesAt_reread Metric.Kind.name_inj rfl, countsAt_reread h rfl⟩

theorem fits_judgement (j : Threshold.Judgement) (depth : Nat) : j.json.Fits (depth + 1) := by
  simp [Threshold.Judgement.json, Json.Fits, Json.FitsMembers, fits_optionalNumber]

theorem fits_report {r : RunReport} (h : r.Fits) : r.json.Fits Json.greatestDepth := by
  have hrules : (tableJson Threshold.Judgement.json r.evaluation.perRule).Fits 126 :=
    fits_tableJson fun _ j _ => fits_judgement j _
  have hmetrics : (tableJson Statistics.json r.perMetric).Fits 126 :=
    fits_tableJson fun name s hs => fits_statistics (h.metrics name s hs) _
  have herrors : (tableJson countJson r.errors).Fits 126 :=
    fits_tableJson fun message n hn => fits_countJson (h.errors message n hn) _
  have hduration : (doubleJson r.duration.toSeconds).Fits 126 := True.intro
  simp [RunReport.json, Json.greatestDepth, Json.Fits, Json.FitsMembers, hrules, hmetrics, herrors,
    hduration, fits_countJson h.iterations, fits_countJson h.peak]

theorem under?_rule {r : RunReport} {id : String} {j : Threshold.Judgement}
    (hj : r.evaluation.perRule.get? id = some j) (path : List String) :
    r.json.reread.under? ("thresholds" :: id :: path) = j.json.reread.under? path := by
  rw [Json.under?_reread_cons rfl]
  exact Json.under?_reread_cons (member?_tableJson hj) path

theorem toldBy_report {r : RunReport} (h : r.Fits) : r.ToldBy r.json.reread where
  verdict := namesAt_reread Threshold.Verdict.name_inj rfl
  stopReason := namesAt_reread StopReason.name_inj rfl
  iterations := countsAt_reread h.iterations rfl
  peak := countsAt_reread h.peak rfl
  errors := by
    rw [Json.under?_reread_cons rfl]
    exact congrArg some (names_tableJson countJson r.errors)
  error message n hn := by
    rw [Json.CountsAt, Json.under?_reread_cons rfl]
    exact countsAt_reread (h.errors message n hn) (member?_tableJson hn)
  rules := by
    rw [Json.under?_reread_cons rfl]
    exact congrArg some (names_tableJson Threshold.Judgement.json r.evaluation.perRule)
  rule id j hj := by
    rw [under?_rule hj, under?_rule hj]
    exact ⟨Json.under?_reread_text rfl, Json.under?_reread_text rfl⟩
  status id j hj x := by
    rw [under?_rule hj]
    exact namesAt_reread Threshold.Status.name_inj rfl x
  metrics := by
    rw [Json.under?_reread_cons rfl]
    exact congrArg some (names_tableJson Statistics.json r.perMetric)
  metric name s hs := by
    refine ⟨s.json.reread, ?_, toldBy_statistics (h.metrics name s hs)⟩
    rw [Json.under?_reread_cons rfl]
    exact Json.under?_reread_cons (member?_tableJson hs) []

theorem fits_update {u : ProgressUpdate} (h : u.Fits) : u.json.Fits Json.greatestDepth := by
  have htarget := toNat_le_maxWord u.stage.current
  have hdouble (x : Float) : (doubleJson x).Fits 126 := True.intro
  simp [ProgressUpdate.json, Json.greatestDepth, Json.Fits, Json.FitsMembers, hdouble,
    fits_countJson h.tick, fits_countJson h.stage, fits_countJson h.stages, fits_countJson htarget,
    fits_countJson h.live, fits_countJson h.iterations, fits_countJson h.failed]

theorem toldBy_update {u : ProgressUpdate} (h : u.Fits) : u.ToldBy u.json.reread where
  tick := countsAt_reread h.tick rfl
  phase := namesAt_reread Phase.name_inj rfl
  stage := countsAt_reread h.stage rfl
  stages := countsAt_reread h.stages rfl
  target := countsAt_reread (toNat_le_maxWord u.stage.current) rfl
  live := countsAt_reread h.live rfl
  iterations := countsAt_reread h.iterations rfl
  failed := countsAt_reread h.failed rfl

/-- **What is told is found on the line.**  A report is one line of JSON that says what the report
says, and an update is one that says what the update says, whatever characters are in the names,
ids, expressions and messages, and whatever the counts of 64 bits are. -/
theorem reports_are_read_back :
    (∀ r : RunReport, r.Fits → TellsOnOneLine (jsonLine r.json) r.ToldBy) ∧
      ∀ u : ProgressUpdate, u.Fits → TellsOnOneLine (jsonLine u.json) u.ToldBy :=
  ⟨fun _ h => tellsOnOneLine (fits_report h) (toldBy_report h),
    fun _ h => tellsOnOneLine (fits_update h) (toldBy_update h)⟩

/-- A report with quotes, slashes, line breaks and other control characters in its texts. -/
def awkwardReport : RunReport where
  evaluation :=
    { perRule := Table.ofList [("tail\n\x0b",
        ⟨"a \"slow\" one", "p(99)<500\r", .fail, some 731.5, true⟩)]
      verdict := .fail }
  perMetric := Table.ofList [
    ("a \"slow\" one", .trend
      { count := 18446744073709551615, avg := some 1.5, min := none, max := none, med := none
        percentiles := Table.ofList [(⟨9990, by decide, by decide⟩, 731.5),
          (⟨9950, by decide, by decide⟩, 700)] }),
    ("ok\\ko\x7f", .rate ⟨2, 1⟩)]
  stopReason := .thresholdAbort
  duration := Duration.zero
  iterations := 2
  peak := 1
  errors := Table.ofList [("connection\n\treset \"by\" pëer \u2028", 1)]

/-- An update at the end of the second stage of two. -/
def lastUpdate : ProgressUpdate where
  tick := 7
  elapsed := Duration.zero
  total := Duration.zero
  phase := .draining
  stage := ⟨1, 2, Duration.zero, Duration.zero, 0, 18446744073709551615, 18446744073709551615⟩
  live := 3
  iterations := 41
  failed := 1
  perSecond := 0.5

theorem awkwardReport_fits : awkwardReport.Fits where
  iterations := by decide
  peak := by decide
  errors message n h := by
    rw [awkwardReport, Table.get?_ofList] at h
    simp only [List.reverse_singleton, Table.lookup_cons, Table.lookup] at h
    split at h <;> cases h
    decide
  metrics name s h := by
    rw [awkwardReport, Table.get?_ofList] at h
    simp only [List.reverse_cons, List.reverse_nil, List.nil_append, List.cons_append,
      Table.lookup_cons, Table.lookup] at h
    split at h
    · cases h
      exact ⟨by decide, by decide⟩
    · split at h <;> cases h
      exact Nat.le_refl _

theorem lastUpdate_fits : lastUpdate.Fits := by
  constructor <;> decide

theorem awkward_report_is_read_back :
    TellsOnOneLine (jsonLine awkwardReport.json) awkwardReport.ToldBy ∧
      TellsOnOneLine (jsonLine lastUpdate.json) lastUpdate.ToldBy :=
  ⟨reports_are_read_back.1 awkwardReport awkwardReport_fits,
    reports_are_read_back.2 lastUpdate lastUpdate_fits⟩

end StagedLoad
