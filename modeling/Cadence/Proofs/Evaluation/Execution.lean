import Cadence.Proofs.Evaluation.Slots
import Cadence.Proofs.Fanout
import Cadence.Proofs.Target.Leaves

namespace Cadence

open Target

variable {σ : Type}

-- No task is left out, wherever the tasks are started.
def Schedule.Fair (schedule : Schedule) : Prop :=
  ∀ path count, (schedule path count).Perm (List.range count)

theorem Schedule.Fair.below {schedule : Schedule} (h : schedule.Fair) (slot : Nat) :
    (schedule.below slot).Fair := fun path => h (slot :: path)

-- Tasks complete in the reverse of the order in which they are given.
def Schedule.reversed : Schedule := fun _ count => (List.range count).reverse

theorem Schedule.reversed_fair : Schedule.reversed.Fair := fun _ _ => List.reverse_perm _

def Registry.apply (registry : Registry) (function : String) (args : List Argument) :
    Except QueryError Argument :=
  match registry.find? function with
  | none => .error (.unsupportedFunction function)
  | some transform => (transform args).map .series

namespace Evaluator

theorem outcome_applyCall (ev : Evaluator σ) (function : String) (args : List Argument) (s : σ) :
    outcome (ev.applyCall function args) s = (ev.registry.apply function args, s) := by
  rw [applyCall, Registry.apply]
  cases ev.registry.find? function with
  | none => rfl
  | some transform => exact outcome_liftExcept _ s

theorem outcome_node_series {ev : Evaluator σ} {w : Window} {pattern : String} {series : List (Series Float)}
    {s s' : σ} (h : outcome (ev.fetch (leafPattern pattern) w) s = (.ok series, s')) :
    outcome (ev.node w (.series pattern)) s = (.ok (.series series), s') := by
  rw [node, outcome_map, h]
  rfl

theorem outcome_evaluate_series {ev : Evaluator σ} {w : Window} {pattern : String} {series : List (Series Float)}
    {s s' : σ} (h : outcome (ev.fetch (leafPattern pattern) w) s = (.ok series, s')) :
    outcome (ev.evaluate w (.series pattern)) s = (.ok series, s') :=
  outcome_bind_ok (outcome_node_series h) _

theorem outcome_evaluateTarget (ev : Evaluator σ) (w : Window) {target : String} {e : Expr}
    (h : parse target = .ok e) (s : σ) :
    outcome (ev.evaluateTarget w target) s = outcome (ev.evaluate w e) s := by
  rw [evaluateTarget, h]
  exact outcome_bind_ok (outcome_liftExcept_ok QueryError.ofParse e s) _

theorem map_evaluateTarget (ev : Evaluator σ) (w : Window) (s : σ) {targets : List String}
    {exprs : List Expr} (h : targets.mapM parse = .ok exprs) :
    (targets.map fun target => (outcome (ev.evaluateTarget w target) s).1)
      = exprs.map fun e => (outcome (ev.evaluate w e) s).1 := by
  have hmap := (mapM_eq_ok_iff _ _ _).mp h
  clear h
  induction targets generalizing exprs with
  | nil =>
      rw [List.map_eq_nil_iff.mp hmap.symm]
      rfl
  | cons target targets ih =>
      cases exprs with
      | nil => cases hmap
      | cons e exprs =>
          obtain ⟨hfirst, hrest⟩ := List.cons.inj hmap
          rw [List.map_cons, List.map_cons, outcome_evaluateTarget ev w hfirst, ih hrest]

theorem mapM_parse_names : ["a", "b"].mapM parse = .ok [.series "a", .series "b"] := by
  have ha : parse "a" = .ok (.series "a") := parse_word 'a' [] rfl (by with_unfolding_all rfl)
  have hb : parse "b" = .ok (.series "b") := parse_word 'b' [] rfl (by with_unfolding_all rfl)
  rw [mapM_eq_ok_iff, List.map_cons, List.map_cons, ha, hb]
  rfl

-- The tasks of several targets, and what they come to side by side.
def targetTasks (ev : Evaluator σ) (w : Window) (exprs : List Expr) :
    List (Query σ (List (Series Float))) :=
  exprs.zipIdx.map fun (e, slot) => (ev.below slot).evaluate w e

def targetParts (ev : Evaluator σ) (w : Window) (exprs : List Expr) :
    Query σ (List (List (Series Float))) :=
  Fanout.runTasks (ev.schedule [] (ev.targetTasks w exprs).length) (ev.targetTasks w exprs)

theorem outcome_evaluateTargets (ev : Evaluator σ) (w : Window) {targets : List String}
    {exprs : List Expr} (h : targets.mapM parse = .ok exprs) (s : σ) :
    outcome (ev.evaluateTargets w targets) s = ((outcome (ev.targetParts w exprs) s).1.map List.flatten,
      (outcome (ev.targetParts w exprs) s).2) := by
  rw [evaluateTargets, h, outcome_bind_ok (outcome_liftExcept_ok QueryError.ofParse exprs s)]
  exact outcome_map _ _ s

theorem exists_outcome_targetParts (ev : Evaluator σ) (hfair : ev.schedule.Fair) {w : Window}
    (patterns : List String) {s : σ}
    (h : ∀ pattern ∈ patterns, ∃ series, outcome (ev.fetch (leafPattern pattern) w) s = (.ok series, s)) :
    ∃ parts, outcome (ev.targetParts w (patterns.map .series)) s = (.ok parts, s) := by
  have htasks : ∀ task ∈ ev.targetTasks w (patterns.map .series),
      ∃ series, outcome task s = (.ok series, s) := by
    intro task htask
    obtain ⟨⟨e, slot⟩, he, rfl⟩ := List.mem_map.mp htask
    obtain ⟨pattern, hpattern, rfl⟩ := List.mem_map.mp (List.fst_mem_of_mem_zipIdx he)
    obtain ⟨series, hseries⟩ := h pattern hpattern
    exact ⟨series, outcome_evaluate_series hseries⟩
  have hkeep : ∀ task ∈ ev.targetTasks w (patterns.map .series), (outcome task s).2 = s := by
    intro task htask
    obtain ⟨series, hseries⟩ := htasks task htask
    rw [hseries]
  rcases Fanout.runTasks_ok_or_error (hfair [] _) hkeep with ⟨parts, -, hrun⟩ | ⟨e, ⟨task, htask, herror⟩, -⟩
  · exact ⟨parts, hrun⟩
  · obtain ⟨series, hseries⟩ := htasks task htask
    rw [hseries] at herror
    cases herror

end Evaluator

end Cadence
