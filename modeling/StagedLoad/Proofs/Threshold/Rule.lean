import Mathlib.Data.List.Basic
import StagedLoad.Config
import StagedLoad.Proofs.Threshold.Parser

/-!
# Rules that have been compiled

What compiling promises of a rule, whatever it was declared as: its metric is known, its
text is that of its expression, its statistic fits the metric.  The id of such a rule
determines its metric and its text, although names of metrics may hold anything.

## Main definitions

* `Threshold.Rule.Accepted` — what compiling promises.

## Main results

* `Threshold.compileOne_eq_ok`, `Threshold.exists_of_mem_compile` — what a declaration is compiled
  to, and where a rule comes from.
* `Threshold.accepted_of_mem_compile` — compiling promises it of every rule.
* `Threshold.Rule.Accepted.eq_of_id_eq` — rules with one id judge the same.
* `RunConfig.validate_eq_ok` — what a plan is made of.
-/

namespace StagedLoad

/-- Where a separator occurs first determines what stands before and behind it. -/
theorem eq_and_eq_of_append_cons_eq {α : Type} {c : α} {xs ys us vs : List α} (hxs : c ∉ xs)
    (hys : c ∉ ys) (h : xs ++ c :: us = ys ++ c :: vs) : xs = ys ∧ us = vs := by
  induction xs generalizing ys with
  | nil =>
    cases ys with
    | nil => exact ⟨rfl, (List.cons.inj h).2⟩
    | cons y ys =>
      obtain ⟨rfl, -⟩ := List.cons.inj h
      exact absurd List.mem_cons_self hys
  | cons x xs ih =>
    cases ys with
    | nil =>
      obtain ⟨rfl, -⟩ := List.cons.inj h
      exact absurd List.mem_cons_self hxs
    | cons y ys =>
      obtain ⟨rfl, hrest⟩ := List.cons.inj h
      obtain ⟨rfl, hbehind⟩ := ih (mt (List.mem_cons_of_mem x) hxs)
        (mt (List.mem_cons_of_mem x) hys) hrest
      exact ⟨rfl, hbehind⟩

/-- What a traversal yields comes from the list that was traversed. -/
theorem exists_of_mem_mapM {ε α β : Type} {f : α → Except ε β} {xs : List α} {ys : List β}
    (h : xs.mapM f = .ok ys) {y : β} (hy : y ∈ ys) : ∃ x ∈ xs, f x = .ok y := by
  induction xs generalizing ys with
  | nil =>
    cases h
    cases hy
  | cons x xs ih =>
    rw [List.mapM_cons] at h
    cases hx : f x with
    | error e => rw [hx] at h; cases h
    | ok z =>
      cases hxs : xs.mapM f with
      | error e => rw [hx, hxs] at h; cases h
      | ok zs =>
        rw [hx, hxs] at h
        cases h
        rcases List.mem_cons.mp hy with rfl | hy
        · exact ⟨x, List.mem_cons_self, hx⟩
        · obtain ⟨w, hw, hwy⟩ := ih hxs hy
          exact ⟨w, List.mem_cons_of_mem _ hw, hwy⟩

namespace Threshold

/-- What compiling promises of a rule. -/
structure Rule.Accepted (declared : DeclaredMetrics) (r : Rule) : Prop where
  /-- The metric is known, and of the kind of the rule. -/
  kind : metricKind? declared r.metric = some r.kind
  /-- The text of the rule is that of its expression. -/
  parse : Expr.parse r.expression = .ok r.expr
  /-- Metrics of this kind have the statistic. -/
  selector : r.expr.selector.allowedFor r.kind = true

/-- What a declaration is compiled to, if its statistic and its unit fit the metric. -/
theorem compileOne_eq_ok {metric : String} {kind : Metric.Kind} {d : Declaration} {r : Rule}
    (h : compileOne metric kind d = .ok r) :
    ∃ e, Expr.parse d.expression = .ok e ∧ e.selector.allowedFor kind = true ∧
      (∀ u, e.unit = some u → u.allowedFor e.selector kind = true) ∧
      r = ⟨metric, kind, Blank.trim d.expression, e, d.abortOnFail⟩ := by
  unfold compileOne at h
  cases hparse : Expr.parse d.expression with
  | error f => rw [hparse] at h; cases h
  | ok e =>
    rw [hparse] at h
    simp only [Except.mapError, bind, Except.bind, throw, throwThe, MonadExceptOf.throw, pure,
      Except.pure] at h
    split at h
    case isTrue => cases h
    case isFalse hsel =>
      refine ⟨e, rfl, by simpa using hsel, ?_⟩
      split at h
      case h_1 unit hunit =>
        split at h
        case isTrue => cases h
        case isFalse hfits =>
          refine ⟨?_, (Except.ok.inj h).symm⟩
          intro u hu
          obtain rfl : unit = u := Option.some.inj (hunit.symm.trans hu)
          simpa using hfits
      case h_2 hunit => exact ⟨fun u hu => absurd hu (hunit u), (Except.ok.inj h).symm⟩

theorem accepted_of_compileOne {declared : DeclaredMetrics} {metric : String} {kind : Metric.Kind}
    {d : Declaration} {r : Rule} (hkind : metricKind? declared metric = some kind)
    (h : compileOne metric kind d = .ok r) : r.Accepted declared := by
  obtain ⟨e, hparse, hallowed, -, rfl⟩ := compileOne_eq_ok h
  exact ⟨hkind, Expr.parse_trim hparse, hallowed⟩

/-- A rule that has been compiled comes from a declaration. -/
theorem exists_of_mem_compile {declared : DeclaredMetrics} {sets : List DeclarationSet}
    {rules : List Rule} (h : compile declared sets = .ok rules) {r : Rule} (hr : r ∈ rules) :
    ∃ s ∈ sets, ∃ kind, metricKind? declared s.metric = some kind ∧
      ∃ d ∈ s.declarations, compileOne s.metric kind d = .ok r := by
  unfold compile at h
  cases hsets : sets.mapM (compileSet declared) with
  | error f => rw [hsets] at h; cases h
  | ok lists =>
    rw [hsets] at h
    cases h
    obtain ⟨list, hlist, hmem⟩ := List.mem_flatten.mp hr
    obtain ⟨s, hs, hlists⟩ := exists_of_mem_mapM hsets hlist
    unfold compileSet at hlists
    split at hlists
    case h_1 => cases hlists
    case h_2 kind hkind => exact ⟨s, hs, kind, hkind, exists_of_mem_mapM hlists hmem⟩

/-- **Compiling promises the same of every rule.** -/
theorem accepted_of_mem_compile {declared : DeclaredMetrics} {sets : List DeclarationSet}
    {rules : List Rule} (h : compile declared sets = .ok rules) {r : Rule} (hr : r ∈ rules) :
    r.Accepted declared := by
  obtain ⟨s, -, kind, hkind, d, -, hone⟩ := exists_of_mem_compile h hr
  exact accepted_of_compileOne hkind hone

namespace Rule

theorem toList_id (r : Rule) :
    r.id.toList = r.metric.toList ++ ':' :: ' ' :: r.expression.toList := by
  simp [id]

variable {declared : DeclaredMetrics} {r r' : Rule}

theorem Accepted.colon_notMem (h : r.Accepted declared) : ':' ∉ r.expression.toList :=
  Expr.colon_notMem_of_parse h.parse

/-- The last colon of an id is the one behind the metric. -/
theorem Accepted.metric_expression_eq_of_id_eq (h : r.Accepted declared)
    (h' : r'.Accepted declared) (hid : r.id = r'.id) :
    r.metric = r'.metric ∧ r.expression = r'.expression := by
  -- names of metrics may hold colons and expressions do not, so the ids are read from behind
  have hlist : r.expression.toList.reverse ++ [' '] ++ ':' :: r.metric.toList.reverse =
      r'.expression.toList.reverse ++ [' '] ++ ':' :: r'.metric.toList.reverse := by
    have hrev := congrArg List.reverse (congrArg String.toList hid)
    rw [toList_id, toList_id] at hrev
    simpa using hrev
  have hcolon : ':' ∉ r.expression.toList.reverse ++ [' '] := by simp [h.colon_notMem]
  have hcolon' : ':' ∉ r'.expression.toList.reverse ++ [' '] := by simp [h'.colon_notMem]
  obtain ⟨he, hm⟩ := eq_and_eq_of_append_cons_eq hcolon hcolon' hlist
  exact ⟨String.toList_injective (List.reverse_injective hm),
    String.toList_injective (List.reverse_injective (List.append_cancel_right he))⟩

/-- **Rules with one id judge the same**; only what follows from a failure may differ. -/
theorem Accepted.eq_of_id_eq (h : r.Accepted declared) (h' : r'.Accepted declared)
    (hid : r.id = r'.id) :
    r.metric = r'.metric ∧ r.kind = r'.kind ∧ r.expression = r'.expression ∧
      r.expr = r'.expr := by
  obtain ⟨hmetric, hexpression⟩ := h.metric_expression_eq_of_id_eq h' hid
  have hkind : some r.kind = some r'.kind := by rw [← h.kind, ← h'.kind, hmetric]
  have hexpr : (Except.ok r.expr : Except SyntaxFault Expr) = .ok r'.expr := by
    rw [← h.parse, ← h'.parse, hexpression]
  exact ⟨hmetric, Option.some.inj hkind, hexpression, Except.ok.inj hexpr⟩

end Rule

end Threshold

/-! ### Plans -/

/-- What a plan is made of. -/
theorem RunConfig.validate_eq_ok {config : RunConfig} {declared : DeclaredMetrics} {plan : RunPlan}
    (h : config.validate declared = .ok plan) :
    ∃ schedule rules, Schedule.ofStages config.startUsers config.stages = .ok schedule ∧
      config.zeroIntervals = [] ∧ Threshold.compile declared config.thresholds = .ok rules ∧
      plan = {
        schedule
        rules
        pollInterval := config.pollInterval
        thinkTime := config.thinkTime
        progressInterval := config.progressInterval
        evaluationInterval := config.evaluationInterval
        aggregate := {
          percentiles := config.allPercentiles rules
          mode := config.percentileMode
          elapsed := none
          checks := declared.checks
          trends := declared.trends }
        failOnUndetermined := config.failOnUndetermined } := by
  unfold validate at h
  cases hs : Schedule.ofStages config.startUsers config.stages with
  | error f => rw [hs] at h; cases h
  | ok schedule =>
    rw [hs] at h
    simp only [Except.mapError, bind, Except.bind, throw, throwThe, MonadExceptOf.throw, pure,
      Except.pure] at h
    split at h
    · cases h
    · split at h
      · cases h
      · rename_i hzero
        cases hr : Threshold.compile declared config.thresholds with
        | error f => rw [hr] at h; cases h
        | ok rules =>
          rw [hr] at h
          refine ⟨schedule, rules, rfl, ?_, rfl, (Except.ok.inj h).symm⟩
          cases hz : config.zeroIntervals with
          | nil => rfl
          | cons i rest => exact absurd hz (hzero i rest)

theorem RunConfig.mem_allPercentiles {config : RunConfig} {rules : List Threshold.Rule}
    {p : Percentile} : p ∈ config.allPercentiles rules ↔
      p ∈ config.percentiles ∨ ∃ r ∈ rules, r.percentile? = some p := by
  unfold allPercentiles
  rw [Table.mem_keys_ofList, List.map_map]
  simp

end StagedLoad
