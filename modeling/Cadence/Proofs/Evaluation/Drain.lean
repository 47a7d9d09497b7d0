import Cadence.Proofs.Evaluation.Adequacy

namespace Cadence.Evaluator

open Target

def Event.started? : Event → Option String
  | started pattern => some pattern
  | finished _ _ => none

def Event.finished? : Event → Option String
  | started _ => none
  | finished pattern _ => some pattern

def startedIn (events : List Event) : List String := events.filterMap Event.started?

def finishedIn (events : List Event) : List String := events.filterMap Event.finished?

def fetches (e : Expr) : List String := e.leaves.map leafPattern

namespace Activity

mutual

-- The activities at the bottom of a task: those that join no others.
def bottom : Activity → List Activity
  | joining _ _ running => bottoms running
  | act => [act]

def bottoms : List (Activity × Nat) → List Activity
  | [] => []
  | (act, _) :: rest => act.bottom ++ bottoms rest

end

-- The fetches that are still to come, and those that have not been answered.
def unstarted (act : Activity) : List String :=
  act.bottom.flatMap fun
    | created e => fetches e
    | _ => []

def underWay (act : Activity) : List String :=
  act.bottom.flatMap fun
    | fetching pattern => [pattern]
    | _ => []

theorem bottoms_eq_flatMap (running : List (Activity × Nat)) :
    bottoms running = running.flatMap fun task => task.1.bottom := by
  induction running with
  | nil => rfl
  | cons task rest ih => rw [bottoms, ih, List.flatMap_cons]

theorem unstarted_joining (purpose : Purpose) (heard : List (Nat × Except QueryError Argument))
    (running : List (Activity × Nat)) :
    (joining purpose heard running).unstarted = running.flatMap fun task => task.1.unstarted := by
  rw [unstarted, bottom, bottoms_eq_flatMap, List.flatMap_assoc]
  rfl

theorem underWay_joining (purpose : Purpose) (heard : List (Nat × Except QueryError Argument))
    (running : List (Activity × Nat)) :
    (joining purpose heard running).underWay = running.flatMap fun task => task.1.underWay := by
  rw [underWay, bottom, bottoms_eq_flatMap, List.flatMap_assoc]
  rfl

end Activity

theorem leaves_of_literal {e : Expr} {value : Argument} (h : literal? e = some value) :
    e.leaves = [] := by
  cases e with
  | series pattern => cases h
  | call function args => cases h
  | _ => rfl

-- Literals have no leaves, so that those of a call are those of its tasks.
theorem argLeaves_eq_flatMap (slot : Nat) (args : List Expr) :
    Expr.argLeaves args = (pending slot args).flatMap fun arg => arg.2.leaves := by
  induction args generalizing slot with
  | nil => rfl
  | cons arg args ih =>
      rw [Expr.argLeaves, ih (slot + 1), pending]
      cases hl : literal? arg with
      | some value => exact congrArg (· ++ _) (leaves_of_literal hl)
      | none => rfl

namespace Purpose

def fetches (purpose : Purpose) : List String := purpose.exprs.flatMap Evaluator.fetches

theorem fetches_call (function : String) (args : List Expr) :
    (call function args).fetches = Evaluator.fetches (.call function args) := by
  rw [fetches, exprs, Evaluator.fetches, Expr.leaves, argLeaves_eq_flatMap 0, List.flatMap_map,
    List.map_flatMap]
  rfl

theorem flatMap_spawned (purpose : Purpose) (f : Activity → List String) :
    purpose.spawned.flatMap (fun task => f task.1) = purpose.exprs.flatMap fun e => f (.created e) := by
  rw [spawned]
  calc ((purpose.exprs.map Activity.created).zipIdx).flatMap (fun task => f task.1)
      = (((purpose.exprs.map Activity.created).zipIdx).map Prod.fst).flatMap f := by
        rw [List.flatMap_map]
    _ = (purpose.exprs.map Activity.created).flatMap f := by rw [List.zipIdx_map_fst]
    _ = _ := by rw [List.flatMap_map]

end Purpose

namespace Activity

theorem unstarted_created (e : Expr) : (created e).unstarted = fetches e := List.append_nil _

theorem unstarted_spawned (purpose : Purpose) :
    (joining purpose [] purpose.spawned).unstarted = purpose.fetches := by
  rw [unstarted_joining, purpose.flatMap_spawned unstarted, Purpose.fetches]
  exact congrArg purpose.exprs.flatMap (funext unstarted_created)

theorem underWay_spawned (purpose : Purpose) :
    (joining purpose [] purpose.spawned).underWay = [] := by
  rw [underWay_joining, purpose.flatMap_spawned underWay]
  exact List.flatMap_eq_nil_iff.mpr fun _ _ => rfl

end Activity

theorem startedIn_append (events rest : List Event) :
    startedIn (events ++ rest) = startedIn events ++ startedIn rest := List.filterMap_append

theorem finishedIn_append (events rest : List Event) :
    finishedIn (events ++ rest) = finishedIn events ++ finishedIn rest := List.filterMap_append

variable {registry : Registry} {act next : Activity} {events : List Event}

-- What a step starts is taken off what is still to come.
theorem Step.unstarted_perm (h : Step registry act events next) :
    (startedIn events ++ next.unstarted).Perm act.unstarted := by
  induction h with
  | @literal e value own =>
      rw [Activity.unstarted_created, fetches, leaves_of_literal own]
      exact .nil
  | start => exact .refl _
  | finish => exact .nil
  | @spawn function args =>
      rw [Activity.unstarted_spawned, Purpose.fetches_call, Activity.unstarted_created]
      exact .refl _
  | @progress purpose heard running task act events act' rest found step ih =>
      have hfound := found.flatMap_right fun task => task.1.unstarted
      rw [Activity.unstarted_joining, Activity.unstarted_joining, List.flatMap_cons,
        ← List.append_assoc]
      exact (ih.append_right _).trans hfound.symm
  | @join purpose heard running task result rest found =>
      have hfound := found.flatMap_right fun task => task.1.unstarted
      rw [Activity.unstarted_joining, Activity.unstarted_joining]
      exact hfound.symm
  | conclude => exact .nil

-- A fetch is under way from its start to its finish.
theorem Step.underWay_perm (h : Step registry act events next) :
    (finishedIn events ++ next.underWay).Perm (startedIn events ++ act.underWay) := by
  induction h with
  | literal own => exact .nil
  | start => exact .refl _
  | finish => exact .refl _
  | @spawn function args =>
      rw [Activity.underWay_spawned]
      exact .nil
  | @progress purpose heard running task act events act' rest found step ih =>
      have hfound := found.flatMap_right fun task => task.1.underWay
      rw [Activity.underWay_joining, Activity.underWay_joining, List.flatMap_cons]
      calc finishedIn events ++ (act'.underWay ++ rest.flatMap fun task => task.1.underWay)
          = finishedIn events ++ act'.underWay ++ rest.flatMap fun task => task.1.underWay :=
            (List.append_assoc ..).symm
        _ |>.Perm (startedIn events ++ act.underWay ++ rest.flatMap fun task => task.1.underWay) :=
            ih.append_right _
        _ = startedIn events ++ (act.underWay ++ rest.flatMap fun task => task.1.underWay) :=
            List.append_assoc ..
        _ |>.Perm (startedIn events ++ running.flatMap fun task => task.1.underWay) :=
            hfound.symm.append_left _
  | @join purpose heard running task result rest found =>
      have hfound := found.flatMap_right fun task => task.1.underWay
      rw [Activity.underWay_joining, Activity.underWay_joining]
      exact hfound.symm
  | conclude => exact .nil

theorem Run.unstarted_perm (h : Run registry act events next) :
    (startedIn events ++ next.unstarted).Perm act.unstarted := by
  induction h with
  | refl => exact .refl _
  | step first tail ih =>
      rw [startedIn_append, List.append_assoc]
      exact (ih.append_left _).trans first.unstarted_perm

theorem Run.underWay_perm (h : Run registry act events next) :
    (finishedIn events ++ next.underWay).Perm (startedIn events ++ act.underWay) := by
  induction h with
  | refl => exact .refl _
  | @step act events middle rest last first tail ih =>
      rw [finishedIn_append, startedIn_append, List.append_assoc]
      calc finishedIn events ++ (finishedIn rest ++ last.underWay)
        _ |>.Perm (finishedIn events ++ (startedIn rest ++ middle.underWay)) := ih.append_left _
        _ |>.Perm (finishedIn events ++ (middle.underWay ++ startedIn rest)) :=
            List.perm_append_comm.append_left _
        _ = finishedIn events ++ middle.underWay ++ startedIn rest := (List.append_assoc ..).symm
        _ |>.Perm (startedIn events ++ act.underWay ++ startedIn rest) :=
            first.underWay_perm.append_right _
        _ = startedIn events ++ (act.underWay ++ startedIn rest) := List.append_assoc ..
        _ |>.Perm (startedIn events ++ (startedIn rest ++ act.underWay)) :=
            List.perm_append_comm.append_left _
        _ = startedIn events ++ startedIn rest ++ act.underWay := (List.append_assoc ..).symm

-- Nothing is left over once a task returns.
theorem Run.returned {result : Except QueryError Argument}
    (h : Run registry act events (.returned result)) (hidle : act.underWay = []) :
    (startedIn events).Perm act.unstarted ∧ (finishedIn events).Perm act.unstarted := by
  have hstarted : (startedIn events ++ []).Perm act.unstarted := h.unstarted_perm
  have hfinished : (finishedIn events ++ []).Perm (startedIn events ++ act.underWay) :=
    h.underWay_perm
  rw [List.append_nil] at hstarted hfinished
  rw [hidle, List.append_nil] at hfinished
  exact ⟨hstarted, hfinished.trans hstarted⟩

-- Each leaf has been fetched once, and no fetch is left under way.
structure Drained (exprs : List Expr) (events : List Event) : Prop where
  started : (startedIn events).Perm (exprs.flatMap fetches)
  finished : (finishedIn events).Perm (exprs.flatMap fetches)

theorem Run.drained {exprs : List Expr} {result : Except QueryError Argument}
    (h : Run registry (request exprs) events (.returned result)) : Drained exprs events := by
  have hidle : (request exprs).underWay = [] := Activity.underWay_spawned _
  have hall : (request exprs).unstarted = exprs.flatMap fetches := Activity.unstarted_spawned _
  obtain ⟨hstarted, hfinished⟩ := h.returned hidle
  rw [hall] at hstarted hfinished
  exact ⟨hstarted, hfinished⟩

-- A target that cannot be read is reported before anything is fetched.
theorem outcome_evaluateTargets_unread {targets : List String} {target : String} {e : ParseError}
    (hmem : target ∈ targets) (h : parse target = .error e) :
    ∃ error, ∀ (σ : Type) (ev : Evaluator σ) (w : Window) (s : σ),
      outcome (ev.evaluateTargets w targets) s = (.error error, s) := by
  cases hparse : targets.mapM parse with
  | ok exprs =>
      have hread : parse target ∈ targets.map parse := List.mem_map_of_mem hmem
      rw [(mapM_eq_ok_iff _ _ _).mp hparse, h] at hread
      obtain ⟨expr, -, hexpr⟩ := List.mem_map.mp hread
      cases hexpr
  | error first =>
      refine ⟨.ofParse first, fun σ ev w s => ?_⟩
      rw [evaluateTargets, hparse]
      exact outcome_bind_error rfl _

-- However the tasks interleave and whichever fetches fail, the targets return when each of their
-- leaves has been fetched once.
theorem evaluateTargets_drained (targets : List String) :
    (∀ exprs, targets.mapM parse = .ok exprs →
      (∀ registry events result, Run registry (request exprs) events (.returned result) →
        Drained exprs events) ∧
      ∀ (σ : Type) (ev : Evaluator σ) (w : Window) (s : σ), ev.schedule.Fair →
        ∃ events, Drained exprs events ∧
          Run ev.registry (request exprs) events
            (.returned ((outcome (ev.evaluateTargets w targets) s).1.map .series)) ∧
          Serves (ev.fetch · w) s events (outcome (ev.evaluateTargets w targets) s).2) ∧
    ((∃ target ∈ targets, ∃ e, parse target = .error e) →
      ∃ error, ∀ (σ : Type) (ev : Evaluator σ) (w : Window) (s : σ),
        outcome (ev.evaluateTargets w targets) s = (.error error, s)) := by
  constructor
  · intro exprs hparse
    refine ⟨fun registry events result hrun => hrun.drained, ?_⟩
    intro σ ev w s hfair
    obtain ⟨events, hrun, hserves⟩ := evaluateTargets_performs ev hfair w hparse s
    exact ⟨events, hrun.drained, hrun, hserves⟩
  · rintro ⟨target, hmem, e, he⟩
    exact outcome_evaluateTargets_unread hmem he

-- A store that keeps the patterns that it is asked for and has no series for any of them.
def refusing : Evaluator (List String) where
  fetch pattern _ := do
    modify (pattern :: ·)
    throw (.fetch pattern)
  registry := .builtin
  schedule := .reversed

-- The failure of the task that completes first does not keep the other from its fetch.
theorem evaluateTargets_drained_refusing :
    ["a", "b"].mapM parse = .ok [.series "a", .series "b"] ∧ refusing.schedule.Fair ∧
    (∃ events, Run .builtin (request [.series "a", .series "b"]) events
        (.returned (.error (.fetch "b"))) ∧
      (startedIn events).Perm ["a", "b"] ∧ (finishedIn events).Perm ["a", "b"]) ∧
    outcome (refusing.evaluateTargets ⟨0, 60⟩ ["a", "b"]) [] = (.error (.fetch "b"), ["a", "b"]) ∧
    ∃ error, outcome (refusing.evaluateTargets ⟨0, 60⟩ ["a", ""]) [] = (.error error, []) := by
  have hempty : ∃ e, parse "" = .error e := by
    rw [parse, String.toList_empty, tokenize]
    exact ⟨_, rfl⟩
  have hfair : refusing.schedule.Fair := Schedule.reversed_fair
  have hrun : outcome (refusing.evaluateTargets ⟨0, 60⟩ ["a", "b"]) []
      = (.error (.fetch "b"), ["a", "b"]) := by
    rw [outcome_evaluateTargets _ _ mapM_parse_names]
    with_unfolding_all rfl
  obtain ⟨hdrained, hexecution⟩ := (evaluateTargets_drained ["a", "b"]).1 _ mapM_parse_names
  obtain ⟨events, -, hevents, -⟩ := hexecution _ refusing ⟨0, 60⟩ [] hfair
  rw [hrun] at hevents
  obtain ⟨error, hnone⟩ := (evaluateTargets_drained ["a", ""]).2 ⟨"", by simp, hempty⟩
  refine ⟨mapM_parse_names, hfair, ⟨events, hevents, ?_⟩, hrun, error, hnone _ _ _ _⟩
  obtain ⟨hstarted, hfinished⟩ := hdrained _ _ _ hevents
  have hleaves : [Expr.series "a", Expr.series "b"].flatMap fetches = ["a", "b"] := by with_unfolding_all rfl
  rw [hleaves] at hstarted hfinished
  exact ⟨hstarted, hfinished⟩

end Cadence.Evaluator
