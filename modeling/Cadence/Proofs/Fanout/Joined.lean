import Cadence.Proofs.Fanout

namespace Cadence.Fanout

variable {ε α σ : Type}

-- Tasks with given results, each of which changes the state in its own way.
def yielding (act : Nat → σ → σ) (results : List (Except ε α)) : List (ExceptT ε (StateM σ) α) :=
  results.zipIdx.map fun (result, task) => ExceptT.mk fun s => (result, act task s)

-- What has to come of some results in an order of completion.
inductive Joined (order : Order) (results : List (Except ε α)) : Except ε (List α) → Prop
  | values {values : List α} (all : results = values.map .ok) : Joined order results (.ok values)
  | failure {before after : Order} {task : Nat} {e : ε} (first : order = before ++ task :: after)
      (fails : results[task]? = some (.error e))
      (succeed : ∀ earlier ∈ before, ∃ value, results[earlier]? = some (.ok value)) :
      Joined order results (.error e)

def slotsAfter (order : Order) (results : List (Except ε α)) : List (Option α) :=
  ((completions order results).foldl (fun c outcome => c.take outcome.1 outcome.2)
    (Collected.none results.length)).slots.toList

variable {order : Order} {results : List (Except ε α)}

theorem map_fst_completions (h : ∀ task ∈ order, task < results.length) :
    (completions order results).map (·.1) = order := by
  rw [completions, List.map_filterMap]
  refine filterMap_eq_self fun task hm => ?_
  rw [List.getElem?_eq_getElem (h task hm)]
  rfl

-- Each task that completes leaves its mark on the state.
theorem completes_yielding (act : Nat → σ → σ) (h : ∀ task ∈ order, task < results.length) (s : σ) :
    Completes (order.filterMap fun task => (yielding act results)[task]?.map (task, ·)) s
      (completions order results) (order.foldl (fun s task => act task s) s) := by
  induction order generalizing s with
  | nil => exact .nil
  | cons task order ih =>
      have htask := h task List.mem_cons_self
      have hrest := ih (fun other hm => h other (List.mem_cons_of_mem task hm)) (act task s)
      have hfirst : (yielding act results)[task]?
          = some (ExceptT.mk fun s => (results[task], act task s)) := by
        rw [yielding, List.getElem?_map, List.getElem?_zipIdx, List.getElem?_eq_getElem htask, Nat.zero_add]
        rfl
      rw [completions, List.filterMap_cons, List.filterMap_cons, hfirst, List.getElem?_eq_getElem htask]
      exact .cons rfl hrest

-- The first failure among the completions is that of the first task in the order that fails.
theorem joined_collect (h : order.Perm (List.range results.length)) :
    Joined order results (collect results.length (completions order results)) := by
  rcases collect_ok_or_error h with ⟨values, hvalues, hcollect⟩ | ⟨e, -, hcollect⟩
  · rw [hcollect]
    exact .values hvalues
  · have hfirst := (collect_completions h).symm.trans hcollect
    rw [hcollect]
    split at hfirst
    · cases hfirst
      rename_i hfind
      obtain ⟨before, ⟨task, outcome⟩, after, hdone, hfail, hbefore⟩ := List.findSome?_eq_some_iff.mp hfind
      have hnumbers := map_fst_completions fun task hm => List.mem_range.mp (h.mem_iff.mp hm)
      rw [hdone, List.map_append, List.map_cons] at hnumbers
      have hresult : ∀ done ∈ completions order results, results[done.1]? = some done.2 :=
        fun done hm => (mem_completions.mp hm).2
      rw [hdone] at hresult
      refine .failure hnumbers.symm ?_ fun earlier hm => ?_
      · rw [hresult (task, outcome) (List.mem_append_right _ List.mem_cons_self)]
        cases outcome with
        | ok value => cases hfail
        | error first => rw [Option.some.inj hfail]
      · obtain ⟨⟨_, outcome⟩, hdone, rfl⟩ := List.mem_map.mp hm
        have hnone := hbefore _ hdone
        rw [hresult _ (List.mem_append_left _ hdone)]
        cases outcome with
        | ok value => exact ⟨value, rfl⟩
        | error e => cases hnone
    · cases hfirst

-- In every order of completion all tasks run, each in its turn, and what they yield does not depend on what
-- they do. No slot of a task that succeeds is left empty.
theorem outcome_runTasks_yielding (results : List (Except ε α)) {order : Order}
    (h : order.Perm (List.range results.length)) :
    slotsAfter order results = results.map Except.toOption ∧
    ∃ joined, Joined order results joined ∧ ∀ {σ : Type} (act : Nat → σ → σ) (s : σ),
      outcome (runTasks order (yielding act results)) s
        = (joined, order.foldl (fun s task => act task s) s) := by
  refine ⟨slots_completions h, _, joined_collect h, fun act s => ?_⟩
  have hsize : (yielding act results).length = results.length := by simp [yielding]
  rw [outcome_runTasks_of_completes
    (completes_yielding act (fun task hm => List.mem_range.mp (h.mem_iff.mp hm)) s), hsize]

-- Two of four tasks fail, and the later one of them completes first.
theorem outcome_runTasks_yielding_two_failures :
    let results : List (Except String Nat) := [.ok 1, .error "b", .ok 3, .error "d"]
    [2, 3, 0, 1].Perm (List.range results.length) ∧
      slotsAfter [2, 3, 0, 1] results = [some 1, none, some 3, none] ∧
      Joined [2, 3, 0, 1] results (.error "d") ∧
      outcome (runTasks [2, 3, 0, 1] (yielding (fun task ran => ran ++ [task]) results)) []
        = (.error "d", [2, 3, 0, 1]) := by
  intro results
  have hperm : [2, 3, 0, 1].Perm (List.range results.length) := by decide
  obtain ⟨hslots, joined, hjoined, hrun⟩ := outcome_runTasks_yielding results hperm
  have hresult := hrun (fun task ran => ran ++ [task]) []
  have hd : joined = .error "d" := (congrArg Prod.fst hresult).symm
  rw [hd] at hjoined hresult
  exact ⟨hperm, hslots, hjoined, hresult⟩

end Cadence.Fanout
