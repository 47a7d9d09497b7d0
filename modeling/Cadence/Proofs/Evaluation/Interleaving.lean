import Cadence.Proofs.Evaluation.Execution

namespace Cadence.Evaluator

open Target

-- What a store sees of an evaluation.
inductive Event where
  | started (pattern : String)
  | finished (pattern : String) (answer : Except QueryError (List (Series Float)))

-- What tasks are spawned for: the arguments of a call, or the targets of a request.
inductive Purpose where
  | call (function : String) (args : List Expr)
  | targets (exprs : List Expr)

-- What a task is doing. One that joins others has heard of some and waits for the rest.
inductive Activity where
  | created (e : Expr)
  | fetching (pattern : String)
  | joining (purpose : Purpose) (heard : List (Nat × Except QueryError Argument))
      (running : List (Activity × Nat))
  | returned (result : Except QueryError Argument)

namespace Purpose

def exprs : Purpose → List Expr
  | call _ args => (pending 0 args).map (·.2)
  | targets exprs => exprs

def spawned (purpose : Purpose) : List (Activity × Nat) := (purpose.exprs.map .created).zipIdx

-- What becomes of the results once all tasks are joined.
def result (registry : Registry) (heard : List (Nat × Except QueryError Argument)) :
    Purpose → Except QueryError Argument
  | call function args => do
    let values ← Fanout.collect (pending 0 args).length heard
    registry.apply function (argValues args values)
  | targets exprs => do
    let roots := heard.map fun (task, result) => (task, result.bind rootSeries)
    return .series (← Fanout.collect exprs.length roots).flatten

end Purpose

inductive Step (registry : Registry) : Activity → List Event → Activity → Prop
  | literal {e value} (own : literal? e = some value) :
      Step registry (.created e) [] (.returned (.ok value))
  | start {pattern} :
      Step registry (.created (.series pattern)) [.started (leafPattern pattern)]
        (.fetching (leafPattern pattern))
  | finish {pattern answer} :
      Step registry (.fetching pattern) [.finished pattern answer]
        (.returned (answer.map .series))
  | spawn {function args} :
      Step registry (.created (.call function args)) []
        (.joining (.call function args) [] (Purpose.call function args).spawned)
  | progress {purpose heard running task act events act' rest}
      (found : running.Perm ((act, task) :: rest)) (step : Step registry act events act') :
      Step registry (.joining purpose heard running) events
        (.joining purpose heard ((act', task) :: rest))
  | join {purpose heard running task result rest}
      (found : running.Perm ((.returned result, task) :: rest)) :
      Step registry (.joining purpose heard running) []
        (.joining purpose (heard ++ [(task, result)]) rest)
  | conclude {purpose heard} :
      Step registry (.joining purpose heard []) [] (.returned (purpose.result registry heard))

inductive Run (registry : Registry) : Activity → List Event → Activity → Prop
  | refl {act} : Run registry act [] act
  | step {act events next rest last} (first : Step registry act events next)
      (tail : Run registry next rest last) : Run registry act (events ++ rest) last

def request (exprs : List Expr) : Activity :=
  .joining (.targets exprs) [] (Purpose.targets exprs).spawned

variable {registry : Registry}

theorem Run.single {act next : Activity} {events : List Event}
    (h : Step registry act events next) : Run registry act events next :=
  List.append_nil events ▸ .step h .refl

theorem Run.trans {act next last : Activity} {events rest : List Event}
    (h : Run registry act events next) (tail : Run registry next rest last) :
    Run registry act (events ++ rest) last := by
  induction h with
  | refl => exact tail
  | step first later ih =>
      rw [List.append_assoc]
      exact .step first (ih tail)

-- A task runs among others, in whatever order they are kept.
theorem Run.progress {purpose : Purpose} {heard : List (Nat × Except QueryError Argument)}
    {act next : Activity} {events : List Event} (h : Run registry act events next) {task : Nat}
    {running rest : List (Activity × Nat)} (found : running.Perm ((act, task) :: rest)) :
    ∃ later, later.Perm ((next, task) :: rest) ∧
      Run registry (.joining purpose heard running) events (.joining purpose heard later) := by
  induction h generalizing running with
  | refl => exact ⟨running, found, .refl⟩
  | step first tail ih =>
      obtain ⟨later, hlater, hrun⟩ := ih (.refl _)
      exact ⟨later, hlater, .step (.progress found first) hrun⟩

theorem Run.eq_of_returned {result : Except QueryError Argument} {events : List Event}
    {last : Activity} (h : Run registry (.returned result) events last) :
    last = .returned result ∧ events = [] := by
  cases h with
  | refl => exact ⟨rfl, rfl⟩
  | step first tail => cases first

-- A task that has joined others has a run of each of them, and their results in some order.
theorem Run.joined {purpose : Purpose} {heard : List (Nat × Except QueryError Argument)}
    {running : List (Activity × Nat)} {events : List Event} {result : Except QueryError Argument}
    (h : Run registry (.joining purpose heard running) events (.returned result)) :
    ∃ ended : List (Activity × Nat × Except QueryError Argument),
      running.Perm (ended.map fun task => (task.1, task.2.1)) ∧
      (∀ task ∈ ended, ∃ own, own ⊆ events ∧ Run registry task.1 own (.returned task.2.2)) ∧
      result = purpose.result registry (heard ++ ended.map (·.2)) := by
  generalize hact : Activity.joining purpose heard running = act at h
  generalize hlast : Activity.returned result = last at h
  induction h generalizing heard running with
  | refl =>
      subst hact
      cases hlast
  | @step act events next rest last first tail ih =>
      subst hact hlast
      cases first with
      | progress found step =>
          rename_i task act act' others
          obtain ⟨ended, hended, hruns, hresult⟩ := ih rfl rfl
          have hmem : (act', task) ∈ ended.map fun task => (task.1, task.2.1) :=
            hended.mem_iff.mp List.mem_cons_self
          obtain ⟨⟨act', task, own⟩, hown, heq⟩ := List.mem_map.mp hmem
          cases heq
          obtain ⟨front, back, rfl⟩ := List.append_of_mem hown
          refine ⟨front ++ (act, task, own) :: back, ?_, ?_, ?_⟩
          · rw [List.map_append, List.map_cons] at hended ⊢
            have hothers := (hended.trans List.perm_middle).cons_inv
            exact found.trans ((hothers.cons _).trans List.perm_middle.symm)
          · intro other hm
            have hother : other ∈ front ++ (act', task, own) :: back → ∃ es, es ⊆ events ++ rest ∧
                Run registry other.1 es (.returned other.2.2) := by
              intro hm
              obtain ⟨es, hsub, hrun⟩ := hruns other hm
              exact ⟨es, fun _ he => List.mem_append_right _ (hsub he), hrun⟩
            rcases List.mem_append.mp hm with hm | hm
            · exact hother (List.mem_append_left _ hm)
            · rcases List.mem_cons.mp hm with rfl | hm
              · obtain ⟨es, hsub, hrun⟩ := hruns (act', task, own) hown
                refine ⟨events ++ es, ?_, .step step hrun⟩
                exact List.append_subset.mpr ⟨List.subset_append_left _ _,
                  fun _ he => List.mem_append_right _ (hsub he)⟩
              · exact hother (List.mem_append_right _ (List.mem_cons_of_mem _ hm))
          · rw [hresult, List.map_append, List.map_append]
            rfl
      | join found =>
          rename_i task own others
          obtain ⟨ended, hended, hruns, hresult⟩ := ih rfl rfl
          refine ⟨(.returned own, task, own) :: ended, found.trans (hended.cons _), ?_, ?_⟩
          · intro other hm
            rcases List.mem_cons.mp hm with rfl | hm
            · exact ⟨[], List.nil_subset _, .refl⟩
            · exact hruns other hm
          · rw [hresult, List.append_assoc]
            rfl
      | conclude =>
          obtain ⟨hlast, -⟩ := tail.eq_of_returned
          cases hlast
          refine ⟨[], .nil, fun _ hm => absurd hm List.not_mem_nil, ?_⟩
          rw [List.map_nil, List.append_nil]

-- Tasks that are spawned together come to what their own results make, each by a run of its own, in
-- some order of completion.
theorem Run.spawned {purpose : Purpose} {events : List Event} {result : Except QueryError Argument}
    (h : Run registry (.joining purpose [] purpose.spawned) events (.returned result)) :
    ∃ (order : Fanout.Order) (outcomes : List (Except QueryError Argument)),
      outcomes.length = purpose.exprs.length ∧ order.Perm (List.range outcomes.length) ∧
      result = purpose.result registry (Fanout.completions order outcomes) ∧
      ∀ (task : Nat) own, outcomes[task]? = some own → ∃ e part, purpose.exprs[task]? = some e ∧
        part ⊆ events ∧ Run registry (.created e) part (.returned own) := by
  obtain ⟨ended, hended, hruns, hresult⟩ := h.joined
  have hnumbers : ((ended.map (·.2)).map (·.1)).Perm (List.range purpose.exprs.length) := by
    have hsecond := hended.symm.map (·.2)
    rw [Purpose.spawned, List.zipIdx_map_snd, List.length_map, ← List.range_eq_range',
      List.map_map] at hsecond
    rw [List.map_map]
    exact hsecond
  obtain ⟨order, outcomes, hsize, horder, hdone⟩ := Fanout.exists_completions hnumbers
  refine ⟨order, outcomes, hsize, hsize ▸ horder, hdone ▸ hresult, ?_⟩
  intro task own hown
  have hlt : task < purpose.exprs.length := by
    rw [← hsize]
    exact (List.getElem?_eq_some_iff.mp hown).1
  have hmem : (task, own) ∈ ended.map (·.2) := by
    rw [hdone]
    exact Fanout.mem_completions.mpr ⟨horder.mem_iff.mpr (List.mem_range.mpr hlt), hown⟩
  obtain ⟨⟨act, _⟩, hm, rfl⟩ := List.mem_map.mp hmem
  obtain ⟨part, hpart, hrun⟩ := hruns _ hm
  have hspawned : (act, task) ∈ purpose.spawned :=
    hended.mem_iff.mpr (List.mem_map.mpr ⟨_, hm, rfl⟩)
  rw [Purpose.spawned, List.mk_mem_zipIdx_iff_getElem?, List.getElem?_map] at hspawned
  obtain ⟨e, he, rfl⟩ := Option.map_eq_some_iff.mp hspawned
  exact ⟨e, part, he, hpart, hrun⟩

theorem Run.of_literal {e : Expr} {value : Argument} {events : List Event}
    {result : Except QueryError Argument} (h : Run registry (.created e) events (.returned result))
    (own : literal? e = some value) : result = .ok value := by
  cases h with
  | step first tail =>
      cases first with
      | literal own' =>
          obtain ⟨hlast, -⟩ := tail.eq_of_returned
          cases hlast
          cases own.symm.trans own'
          rfl
      | start => cases own
      | spawn => cases own

theorem Run.of_series {pattern : String} {events : List Event} {result : Except QueryError Argument}
    (h : Run registry (.created (.series pattern)) events (.returned result)) :
    ∃ answer, result = answer.map .series ∧
      events = [.started (leafPattern pattern), .finished (leafPattern pattern) answer] := by
  cases h with
  | step first tail =>
      cases first with
      | literal own => cases own
      | start =>
          cases tail with
          | step second tail =>
              cases second with
              | finish =>
                  obtain ⟨hlast, rfl⟩ := tail.eq_of_returned
                  cases hlast
                  exact ⟨_, rfl, rfl⟩

theorem Run.of_call {function : String} {args : List Expr} {events : List Event}
    {result : Except QueryError Argument}
    (h : Run registry (.created (.call function args)) events (.returned result)) :
    Run registry (.joining (.call function args) [] (Purpose.call function args).spawned) events
      (.returned result) := by
  cases h with
  | step first tail =>
      cases first with
      | literal own => cases own
      | spawn => exact tail

end Cadence.Evaluator
