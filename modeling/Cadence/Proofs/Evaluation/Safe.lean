import Cadence.Proofs.Evaluation.Execution
import Cadence.Proofs.Evaluation.Slots
import Cadence.Proofs.Fanout
import Cadence.Proofs.Target.Grammar
import Cadence.Proofs.Transform.Builtin

namespace Cadence

open Target

variable {σ α β : Type}

-- Two queries that come to the same sound result in a state, and leave the state as it is.
structure Safe (P : α → Prop) (act act' : Query σ α) (s : σ) : Prop where
  same : outcome act' s = outcome act s
  keeps : (outcome act s).2 = s
  sound : Sound P (outcome act s).1

namespace Safe

variable {P : α → Prop} {Q : β → Prop} {act act' : Query σ α} {f f' : α → Query σ β} {s : σ}

theorem mono {P' : α → Prop} (h : Safe P act act' s) (himp : ∀ a, P a → P' a) : Safe P' act act' s := by
  refine ⟨h.same, h.keeps, ?_⟩
  have hsound := h.sound
  cases hresult : (outcome act s).1 with
  | ok a =>
      rw [hresult] at hsound
      exact himp a hsound
  | error e =>
      rw [hresult] at hsound
      exact hsound

theorem liftExcept {ε : Type} {fail : ε → QueryError} {r : Except ε α}
    (h : Sound P (r.mapError fail)) : Safe P (liftExcept fail r) (liftExcept fail r) s := by
  cases r with
  | ok a => exact ⟨rfl, rfl, h⟩
  | error e => exact ⟨rfl, rfl, h⟩

theorem pure {a : α} (h : P a) : Safe P (Pure.pure a : Query σ α) (Pure.pure a) s := ⟨rfl, rfl, h⟩

theorem bind (h : Safe P act act' s) (hf : ∀ a, P a → Safe Q (f a) (f' a) s) :
    Safe Q (act >>= f) (act' >>= f') s := by
  obtain ⟨hsame, hkeeps, hsound⟩ := h
  cases hact : outcome act s with
  | mk result s' =>
      rw [hact] at hsame hkeeps hsound
      obtain rfl : s' = s := hkeeps
      cases result with
      | ok a =>
          obtain ⟨hnext, hkept, hlast⟩ := hf a hsound
          exact ⟨by rw [outcome_bind_ok hact, outcome_bind_ok hsame, hnext],
            by rw [outcome_bind_ok hact, hkept], by rw [outcome_bind_ok hact]; exact hlast⟩
      | error e =>
          exact ⟨by rw [outcome_bind_error hact, outcome_bind_error hsame],
            by rw [outcome_bind_error hact], by rw [outcome_bind_error hact]; exact hsound⟩

theorem runTasks {order : Fanout.Order} {ι : Type} {parts : List ι} {task task' : ι → Query σ α}
    (horder : order.Perm (List.range parts.length))
    (h : ∀ part ∈ parts, Safe P (task part) (task' part) s) :
    Safe (fun values => ∀ v ∈ values, P v) (Fanout.runTasks order (parts.map task))
      (Fanout.runTasks order (parts.map task')) s := by
  have hkeeps : ∀ act ∈ parts.map task, (outcome act s).2 = s :=
    List.forall_mem_map.mpr fun part hpart => (h part hpart).keeps
  have hkeeps' : ∀ act ∈ parts.map task', (outcome act s).2 = s :=
    List.forall_mem_map.mpr fun part hpart =>
      (congrArg Prod.snd (h part hpart).same).trans (h part hpart).keeps
  have hsame : (parts.map task').map (fun act => (outcome act s).1)
      = (parts.map task).map fun act => (outcome act s).1 := by
    rw [List.map_map, List.map_map]
    exact List.map_congr_left fun part hpart => congrArg Prod.fst (h part hpart).same
  have hlength : (parts.map task').length = (parts.map task).length := by
    rw [List.length_map, List.length_map]
  rw [← List.length_map (f := task)] at horder
  refine ⟨?_, ?_, ?_⟩
  · rw [Fanout.outcome_runTasks hkeeps, Fanout.outcome_runTasks hkeeps', hsame, hlength]
  · rw [Fanout.outcome_runTasks hkeeps]
  · rcases Fanout.runTasks_ok_or_error horder hkeeps with
      ⟨values, hvalues, hrun⟩ | ⟨e, ⟨act, hact, he⟩, hrun⟩
    · rw [hrun]
      intro v hv
      have hmem : Except.ok v ∈ (parts.map task).map fun act => (outcome act s).1 :=
        hvalues ▸ List.mem_map_of_mem hv
      rw [List.map_map] at hmem
      obtain ⟨part, hpart, hv⟩ := List.mem_map.mp hmem
      have hsound := (h part hpart).sound
      rw [Function.comp_apply] at hv
      rwa [hv] at hsound
    · rw [hrun]
      obtain ⟨part, hpart, rfl⟩ := List.mem_map.mp hact
      have hsound := (h part hpart).sound
      rwa [he] at hsound

end Safe

namespace Evaluator

-- Two evaluators that do the same in a state over a window, where fetches are safe and make grids of a
-- kind.
structure Agrees (kind : Grid → Prop) (w : Window) (ev ev' : Evaluator σ) (s : σ) : Prop where
  fair : ev.schedule.Fair
  schedule : ev'.schedule = ev.schedule
  registry : ev.registry.Agrees kind ev'.registry
  fetch (pattern : String) : Safe (fun series => ∀ x ∈ series, kind x.grid) (ev.fetch pattern w)
    (ev'.fetch pattern w) s

variable {kind : Grid → Prop} {w : Window} {ev ev' : Evaluator σ} {s : σ}

theorem Agrees.below (h : Agrees kind w ev ev' s) (slot : Nat) :
    Agrees kind w (ev.below slot) (ev'.below slot) s :=
  ⟨h.fair.below slot, congrArg (·.below slot) h.schedule, h.registry, h.fetch⟩

theorem on_of_literal {e : Expr} {value : Argument} (h : literal? e = some value) : value.On kind := by
  cases e with
  | series pattern => cases h
  | call function args => cases h
  | number x =>
      cases h
      trivial
  | text t =>
      cases h
      trivial
  | flag b =>
      cases h
      trivial

theorem on_argValues {args : List Expr} {values : List Argument} (h : ∀ v ∈ values, v.On kind) :
    ∀ v ∈ argValues args values, v.On kind := by
  have hfill : ∀ (pairs : List (Nat × Argument)) (slots : List (Option Argument)),
      (∀ p ∈ pairs, p.2.On kind) → (∀ v, some v ∈ slots → v.On kind) →
        ∀ v, some v ∈ fill slots pairs → v.On kind := by
    intro pairs
    induction pairs with
    | nil => exact fun _ _ hslots => hslots
    | cons p pairs ih =>
        intro slots hpairs hslots
        refine ih _ (fun q hq => hpairs q (List.mem_cons_of_mem p hq)) fun v hv => ?_
        rcases List.mem_or_eq_of_mem_set hv with hv | hv
        · exact hslots v hv
        · cases hv
          exact hpairs p List.mem_cons_self
  intro v hv
  obtain ⟨slot, hslot, rfl⟩ := List.mem_filterMap.mp hv
  refine hfill _ _ ?_ ?_ v hslot
  · intro p hp
    exact h p.2 (List.of_mem_zip hp).2
  · intro v hv
    obtain ⟨arg, -, hliteral⟩ := List.mem_map.mp hv
    exact on_of_literal hliteral

theorem Agrees.applyCall (h : Agrees kind w ev ev' s) (function : String) {args : List Argument}
    (hargs : ∀ a ∈ args, a.On kind) :
    Safe (·.On kind) (ev.applyCall function args) (ev'.applyCall function args) s := by
  rw [Evaluator.applyCall, Evaluator.applyCall]
  rcases h.registry.find? function with ⟨hnone, hnone'⟩ | ⟨f, f', hf, hf', hagrees⟩
  · rw [hnone, hnone']
    exact ⟨rfl, rfl, rfl⟩
  · rw [hf, hf']
    simp only [hagrees.same args hargs]
    apply Safe.liftExcept
    have hsound := hagrees.sound args hargs
    cases hresult : f args with
    | ok series =>
        rw [hresult] at hsound
        exact hsound
    | error e =>
        rw [hresult] at hsound
        exact hsound

theorem Agrees.runTasks (h : Agrees kind w ev ev' s) {args : List Expr}
    (htasks : ∀ arg ∈ pending 0 args,
      Safe (·.On kind) ((ev.below arg.1).node w arg.2) ((ev'.below arg.1).node w arg.2) s) :
    Safe (fun values => ∀ v ∈ values, v.On kind)
      (Fanout.runTasks (ev.schedule [] (argTasks ev w 0 args).length) (argTasks ev w 0 args))
      (Fanout.runTasks (ev'.schedule [] (argTasks ev' w 0 args).length) (argTasks ev' w 0 args)) s := by
  have horder := h.fair [] (pending 0 args).length
  rw [argTasks_eq_map, argTasks_eq_map, h.schedule]
  simp only [List.length_map]
  exact Safe.runTasks horder htasks

theorem Agrees.node {ev ev' : Evaluator σ} (h : Agrees kind w ev ev' s) : (e : Expr) →
    Safe (·.On kind) (ev.node w e) (ev'.node w e) s
  | .series pattern => by
      rw [Evaluator.node, Evaluator.node]
      exact (h.fetch (leafPattern pattern)).bind fun series hseries => .pure hseries
  | .number x => by
      rw [Evaluator.node, Evaluator.node]
      exact .pure trivial
  | .text t => by
      rw [Evaluator.node, Evaluator.node]
      exact .pure trivial
  | .flag b => by
      rw [Evaluator.node, Evaluator.node]
      exact .pure trivial
  | .call function args => by
      have htasks : ∀ arg ∈ pending 0 args, Safe (·.On kind)
          ((ev.below arg.1).node w arg.2) ((ev'.below arg.1).node w arg.2) s := by
        intro arg hm
        have hlt := List.sizeOf_lt_of_mem (mem_of_mem_pending hm)
        exact (h.below arg.1).node arg.2
      rw [Evaluator.node, Evaluator.node]
      exact (h.runTasks htasks).bind fun values hvalues => h.applyCall function (on_argValues hvalues)

theorem Agrees.argTasks (h : Agrees kind w ev ev' s) (args : List Expr) :
    Safe (fun values => ∀ v ∈ values, v.On kind)
      (Fanout.runTasks (ev.schedule [] (Evaluator.argTasks ev w 0 args).length)
        (Evaluator.argTasks ev w 0 args))
      (Fanout.runTasks (ev'.schedule [] (Evaluator.argTasks ev' w 0 args).length)
        (Evaluator.argTasks ev' w 0 args)) s :=
  h.runTasks fun arg _ => (h.below arg.1).node arg.2

theorem Agrees.evaluate (h : Agrees kind w ev ev' s) (e : Expr) :
    Safe (fun series => ∀ x ∈ series, kind x.grid) (ev.evaluate w e) (ev'.evaluate w e) s := by
  refine (h.node e).bind fun value hvalue => Safe.liftExcept ?_
  cases value with
  | series series => exact hvalue
  | number x => rfl
  | text t => rfl
  | flag b => rfl

-- Whatever the targets, what they ask for is there or the request is refused.
theorem Agrees.evaluateTargets (h : Agrees kind w ev ev' s) (targets : List String) :
    Safe (fun series => ∀ x ∈ series, kind x.grid) (ev.evaluateTargets w targets)
      (ev'.evaluateTargets w targets) s := by
  have hparse : Sound (fun _ => True) ((targets.mapM parse).mapError QueryError.ofParse) := by
    cases hexprs : targets.mapM parse with
    | ok exprs => trivial
    | error e =>
        obtain ⟨target, -, herror⟩ := exists_of_mapM_error hexprs
        rw [Except.mapError, ofParse_eq_parse herror]
        rfl
  refine (Safe.liftExcept hparse).bind fun exprs _ => ?_
  have horder := h.fair [] exprs.zipIdx.length
  simp only [List.length_map, h.schedule]
  refine (Safe.runTasks horder fun part _ => (h.below part.2).evaluate part.1).bind fun lists hlists => ?_
  refine .pure fun x hx => ?_
  obtain ⟨list, hlist, hx⟩ := List.mem_flatten.mp hx
  exact hlists list hlist x hx

end Evaluator

end Cadence
