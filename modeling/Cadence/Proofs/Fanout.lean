import Cadence.Proofs.LastWins
import Cadence.Proofs.Outcome

namespace Cadence.Fanout

variable {ε α σ : Type}

-- The outcomes of some tasks in the order in which they complete.
def completions (order : Order) (outcomes : List (Except ε α)) : List (Nat × Except ε α) :=
  order.filterMap fun task => outcomes[task]?.map (task, ·)

def failure? : Except ε α → Option ε
  | .ok _ => none
  | .error e => some e

theorem failure_foldl_take (c : Collected ε α) (done : List (Nat × Except ε α)) :
    (done.foldl (fun c outcome => c.take outcome.1 outcome.2) c).failure
      = c.failure.or (done.findSome? fun outcome => failure? outcome.2) := by
  induction done generalizing c with
  | nil => simp
  | cons first done ih =>
      obtain ⟨task, outcome⟩ := first
      rw [List.foldl_cons, ih]
      cases outcome <;> simp [Collected.take, failure?]

-- The value that the last completion of a task leaves in its slot.
def valueOf (task : Nat) (done : List (Nat × Except ε α)) : Option α :=
  lastSome (fun outcome => if outcome.1 = task then outcome.2.toOption else none) done

theorem slots_foldl_take (c : Collected ε α) (done : List (Nat × Except ε α)) (task : Nat) :
    (done.foldl (fun c outcome => c.take outcome.1 outcome.2) c).slots[task]?
      = c.slots[task]?.map fun slot => (valueOf task done).or slot := by
  induction done generalizing c with
  | nil => simp [valueOf, lastSome_nil]
  | cons first done ih =>
      obtain ⟨other, outcome⟩ := first
      rw [List.foldl_cons, ih, valueOf, valueOf, lastSome_cons]
      cases outcome with
      | error e => simp [Collected.take, Except.toOption]
      | ok value =>
          by_cases ht : other = task
          · subst ht
            by_cases hsize : other < c.slots.size <;>
              simp [Collected.take, Except.toOption, hsize]
          · simp [Collected.take, ht]

theorem mem_completions {order : Order} {outcomes : List (Except ε α)} {task : Nat}
    {outcome : Except ε α} :
    (task, outcome) ∈ completions order outcomes ↔ task ∈ order ∧ outcomes[task]? = some outcome := by
  simp only [completions, List.mem_filterMap, Option.map_eq_some_iff, Prod.mk.injEq]
  constructor
  · rintro ⟨other, hm, out, ho, rfl, rfl⟩
    exact ⟨hm, ho⟩
  · rintro ⟨hm, ho⟩
    exact ⟨task, hm, outcome, ho, rfl, rfl⟩

theorem valueOf_completions {order : Order} {outcomes : List (Except ε α)} {task : Nat}
    (hm : task ∈ order) :
    valueOf task (completions order outcomes) = outcomes[task]?.bind Except.toOption := by
  apply Option.ext
  intro value
  rw [valueOf, lastSome_eq_some_iff]
  · constructor
    · rintro ⟨⟨other, outcome⟩, hdone, hvalue⟩
      obtain ⟨-, ho⟩ := mem_completions.mp hdone
      split at hvalue
      · rename_i he
        subst he
        simp [ho, hvalue]
      · cases hvalue
    · intro h
      obtain ⟨outcome, ho, hvalue⟩ := Option.bind_eq_some_iff.mp h
      exact ⟨(task, outcome), mem_completions.mpr ⟨hm, ho⟩, by simp [hvalue]⟩
  · rintro ⟨i, x⟩ hx ⟨j, y⟩ hy b c hb hc
    have hxo := (mem_completions.mp hx).2
    have hyo := (mem_completions.mp hy).2
    grind

theorem slots_completions {order : Order} {outcomes : List (Except ε α)}
    (horder : order.Perm (List.range outcomes.length)) :
    ((completions order outcomes).foldl (fun c outcome => c.take outcome.1 outcome.2)
      (Collected.none outcomes.length)).slots.toList = outcomes.map Except.toOption := by
  apply List.ext_getElem?
  intro task
  rw [Array.getElem?_toList, slots_foldl_take, List.getElem?_map]
  by_cases ht : task < outcomes.length
  · have hm : task ∈ order := horder.mem_iff.mpr (List.mem_range.mpr ht)
    rw [valueOf_completions hm]
    simp [Collected.none, ht]
  · simp [Collected.none, ht]

-- Every task is heard of, in whatever order they complete.
theorem collect_completions {order : Order} {outcomes : List (Except ε α)}
    (horder : order.Perm (List.range outcomes.length)) :
    collect outcomes.length (completions order outcomes)
      = match (completions order outcomes).findSome? fun outcome => failure? outcome.2 with
        | some e => .error e
        | none => .ok (outcomes.filterMap Except.toOption) := by
  rw [collect, Collected.result, failure_foldl_take, slots_completions horder, List.filterMap_map]
  rfl

theorem collect_values {order : Order} {values : List α}
    (horder : order.Perm (List.range values.length)) :
    collect values.length (completions order (values.map (Except.ok : α → Except ε α)))
      = .ok values := by
  have hnone : (completions order (values.map (Except.ok : α → Except ε α))).findSome?
      (fun outcome => failure? outcome.2) = none := by
    rw [List.findSome?_eq_none_iff]
    rintro ⟨task, outcome⟩ hm
    obtain ⟨value, -, rfl⟩ := List.mem_map.mp (List.mem_of_getElem? (mem_completions.mp hm).2)
    rfl
  have hperm : order.Perm (List.range (values.map (Except.ok : α → Except ε α)).length) := by
    rwa [List.length_map]
  have hcollect := collect_completions hperm
  rw [hnone, List.length_map, List.filterMap_map] at hcollect
  rw [hcollect]
  exact congrArg Except.ok List.filterMap_some

theorem eq_map_ok {outcomes : List (Except ε α)} (h : ∀ outcome ∈ outcomes, failure? outcome = none) :
    outcomes = (outcomes.filterMap Except.toOption).map .ok := by
  induction outcomes with
  | nil => rfl
  | cons outcome outcomes ih =>
      have hrest := ih fun other hm => h other (List.mem_cons_of_mem _ hm)
      cases outcome with
      | ok value => exact congrArg (.ok value :: ·) hrest
      | error e => cases h (.error e) List.mem_cons_self

theorem collect_ok_or_error {order : Order} {outcomes : List (Except ε α)}
    (horder : order.Perm (List.range outcomes.length)) :
    (∃ values, outcomes = values.map .ok ∧
      collect outcomes.length (completions order outcomes) = .ok values) ∨
    ∃ e, .error e ∈ outcomes ∧
      collect outcomes.length (completions order outcomes) = .error e := by
  have hcollect := collect_completions horder
  cases hfind : (completions order outcomes).findSome? fun outcome => failure? outcome.2 with
  | some e =>
      rw [hfind] at hcollect
      obtain ⟨⟨task, outcome⟩, hm, hfail⟩ := List.exists_of_findSome?_eq_some hfind
      have hout := List.mem_of_getElem? (mem_completions.mp hm).2
      cases outcome with
      | ok value => cases hfail
      | error e' =>
          cases hfail
          exact .inr ⟨e, hout, hcollect⟩
  | none =>
      rw [hfind] at hcollect
      refine .inl ⟨outcomes.filterMap Except.toOption, ?_, hcollect⟩
      have hall : ∀ outcome ∈ outcomes, failure? outcome = none := by
        intro outcome hout
        obtain ⟨task, htask, hget⟩ := List.mem_iff_getElem.mp hout
        have hm : task ∈ order := horder.mem_iff.mpr (List.mem_range.mpr htask)
        have hdone := mem_completions.mpr ⟨hm, (List.getElem?_eq_getElem htask).trans (congrArg _ hget)⟩
        exact List.findSome?_eq_none_iff.mp hfind _ hdone
      exact eq_map_ok hall

theorem exists_perm_map {β γ : Type} {f : β → γ} {xs : List β} {ys : List γ}
    (h : (xs.map f).Perm ys) : ∃ zs, xs.Perm zs ∧ zs.map f = ys := by
  generalize hstart : xs.map f = start at h
  induction h generalizing xs with
  | nil => exact ⟨[], List.map_eq_nil_iff.mp hstart ▸ .nil, rfl⟩
  | cons y h ih =>
      obtain ⟨x, rest, rfl, rfl, hrest⟩ := List.map_eq_cons_iff.mp hstart
      obtain ⟨zs, hperm, hmap⟩ := ih hrest
      exact ⟨x :: zs, hperm.cons x, congrArg (f x :: ·) hmap⟩
  | swap y z ys =>
      obtain ⟨x, rest, rfl, rfl, hrest⟩ := List.map_eq_cons_iff.mp hstart
      obtain ⟨x', rest, rfl, rfl, rfl⟩ := List.map_eq_cons_iff.mp hrest
      exact ⟨x' :: x :: rest, .swap x' x rest, rfl⟩
  | trans first second ih ih' =>
      obtain ⟨ms, hms, hmap⟩ := ih hstart
      obtain ⟨zs, hzs, hmap'⟩ := ih' hmap
      exact ⟨zs, hms.trans hzs, hmap'⟩

theorem filterMap_eq_self {β : Type} {f : β → Option β} {xs : List β} (h : ∀ x ∈ xs, f x = some x) :
    xs.filterMap f = xs := by
  induction xs with
  | nil => rfl
  | cons x xs ih =>
      rw [List.filterMap_cons_some (h x List.mem_cons_self),
        ih fun y hm => h y (List.mem_cons_of_mem _ hm)]

-- Whatever the order in which all tasks have been heard of, it is one of their completion.
theorem exists_completions {done : List (Nat × Except ε α)} {count : Nat}
    (h : (done.map (·.1)).Perm (List.range count)) :
    ∃ (order : Order) (outcomes : List (Except ε α)), outcomes.length = count ∧
      order.Perm (List.range count) ∧ done = completions order outcomes := by
  obtain ⟨sorted, hsorted, hnumbers⟩ := exists_perm_map h
  have hsize := congrArg List.length hnumbers
  rw [List.length_map, List.length_range] at hsize
  have hfind : ∀ task ∈ done, (sorted.map (·.2))[task.1]?.map (task.1, ·) = some task := by
    intro task hm
    obtain ⟨place, hplace⟩ := List.mem_iff_getElem?.mp (hsorted.mem_iff.mp hm)
    have hnumber : (sorted.map (·.1))[place]? = some task.1 := by
      rw [List.getElem?_map, hplace]
      rfl
    rw [hnumbers] at hnumber
    have hsame := (List.getElem?_eq_some_iff.mp hnumber).2
    rw [List.getElem_range] at hsame
    rw [← hsame, List.getElem?_map, hplace, hsame]
    rfl
  refine ⟨done.map (·.1), sorted.map (·.2), (List.length_map _).trans hsize, h, ?_⟩
  rw [completions, List.filterMap_map]
  exact (filterMap_eq_self hfind).symm

-- Tasks that complete one after the other, with what each of them yields.
inductive Completes :
    List (Nat × ExceptT ε (StateM σ) α) → σ → List (Nat × Except ε α) → σ → Prop
  | nil {s} : Completes [] s [] s
  | cons {task run tasks s result s' done last} (first : outcome run s = (result, s'))
      (rest : Completes tasks s' done last) :
      Completes ((task, run) :: tasks) s ((task, result) :: done) last

theorem Completes.run_mapM {tasks : List (Nat × ExceptT ε (StateM σ) α)} {s last : σ}
    {done : List (Nat × Except ε α)} (h : Completes tasks s done last) :
    (tasks.mapM fun (task, run) => do return (task, ← run.run) : StateM σ _).run s
      = (done, last) := by
  induction h with
  | nil => rfl
  | @cons task run tasks s result s' done last first rest ih =>
      have hrun : run.run.run s = (result, s') := first
      rw [List.mapM_cons, StateT.run_bind, StateT.run_bind, hrun]
      change (tasks.mapM _ >>= fun done => pure ((task, result) :: done) : StateM σ _).run s' = _
      rw [StateT.run_bind, ih]
      rfl

theorem outcome_runTasks_of_completes {order : Order} {tasks : List (ExceptT ε (StateM σ) α)}
    {s last : σ} {done : List (Nat × Except ε α)}
    (h : Completes (order.filterMap fun task => tasks[task]?.map (task, ·)) s done last) :
    outcome (runTasks order tasks) s = (collect tasks.length done, last) := by
  rw [outcome, runTasks, ExceptT.run_mk, StateT.run_bind, h.run_mapM]
  rfl

theorem exists_completes (tasks : List (Nat × ExceptT ε (StateM σ) α)) (s : σ) :
    ∃ done last, Completes tasks s done last := by
  induction tasks generalizing s with
  | nil => exact ⟨[], s, .nil⟩
  | cons task tasks ih =>
      obtain ⟨done, last, hrest⟩ := ih (outcome task.2 s).2
      exact ⟨_, last, .cons rfl hrest⟩

theorem Completes.exists_of_mem {tasks : List (Nat × ExceptT ε (StateM σ) α)} {s last : σ}
    {done : List (Nat × Except ε α)} (h : Completes tasks s done last) {task : Nat}
    {result : Except ε α} (hm : (task, result) ∈ done) :
    ∃ run, (task, run) ∈ tasks ∧ ∃ t, (outcome run t).1 = result := by
  induction h with
  | nil => cases hm
  | @cons other run tasks s first s' done last hfirst rest ih =>
      rcases List.mem_cons.mp hm with heq | hm
      · cases heq
        exact ⟨run, List.mem_cons_self, s, congrArg Prod.fst hfirst⟩
      · obtain ⟨run', hrun, ht⟩ := ih hm
        exact ⟨run', List.mem_cons_of_mem _ hrun, ht⟩

theorem exists_of_mem_collect {count : Nat} {done : List (Nat × Except ε α)} {values : List α}
    (h : collect count done = .ok values) {value : α} (hm : value ∈ values) :
    ∃ task, (task, .ok value) ∈ done := by
  rw [collect, Collected.result] at h
  split at h
  · cases h
  · cases h
    obtain ⟨slot, hslot, rfl⟩ := List.mem_filterMap.mp hm
    obtain ⟨task, htask⟩ := List.mem_iff_getElem?.mp hslot
    rw [Array.getElem?_toList, slots_foldl_take] at htask
    obtain ⟨empty, hempty, hvalue⟩ := Option.map_eq_some_iff.mp htask
    have hnone : empty = none := by
      rw [Collected.none, Array.getElem?_replicate] at hempty
      split at hempty
      · exact (Option.some.inj hempty).symm
      · cases hempty
    rw [hnone, Option.or_none] at hvalue
    obtain ⟨⟨other, result⟩, hdone, hresult⟩ := exists_of_lastSome hvalue
    split at hresult
    · cases result with
      | ok _ =>
          cases hresult
          exact ⟨other, hdone⟩
      | error e => cases hresult
    · cases hresult

-- Every value comes from some task, in whatever state that task found.
theorem exists_of_mem_runTasks {order : Order} {tasks : List (ExceptT ε (StateM σ) α)} {s s' : σ}
    {values : List α} (h : outcome (runTasks order tasks) s = (.ok values, s')) {value : α}
    (hm : value ∈ values) : ∃ task ∈ tasks, ∃ t, (outcome task t).1 = .ok value := by
  obtain ⟨done, last, hcompletes⟩ :=
    exists_completes (order.filterMap fun task => tasks[task]?.map (task, ·)) s
  rw [outcome_runTasks_of_completes hcompletes] at h
  obtain ⟨number, hdone⟩ := exists_of_mem_collect (congrArg Prod.fst h) hm
  obtain ⟨run, hrun, ht⟩ := hcompletes.exists_of_mem hdone
  obtain ⟨_, -, hstarted⟩ := List.mem_filterMap.mp hrun
  obtain ⟨_, hget, heq⟩ := Option.map_eq_some_iff.mp hstarted
  cases heq
  exact ⟨run, List.mem_of_getElem? hget, ht⟩

theorem completes_of_reads {tasks : List (Nat × ExceptT ε (StateM σ) α)} {s : σ}
    (h : ∀ task ∈ tasks, (outcome task.2 s).2 = s) :
    Completes tasks s (tasks.map fun task => (task.1, (outcome task.2 s).1)) s := by
  induction tasks with
  | nil => exact .nil
  | cons task tasks ih =>
      have hfirst : outcome task.2 s = ((outcome task.2 s).1, s) :=
        Prod.ext rfl (h task List.mem_cons_self)
      exact .cons hfirst (ih fun other hm => h other (List.mem_cons_of_mem _ hm))

-- Tasks that leave the state alone may be heard one by one.
theorem outcome_runTasks {order : Order} {tasks : List (ExceptT ε (StateM σ) α)} {s : σ}
    (h : ∀ task ∈ tasks, (outcome task s).2 = s) :
    outcome (runTasks order tasks) s
      = (collect tasks.length (completions order (tasks.map fun task => (outcome task s).1)), s) := by
  let started := order.filterMap fun task => tasks[task]?.map (task, ·)
  have hreads : ∀ task ∈ started, (outcome task.2 s).2 = s := by
    intro task hm
    obtain ⟨_, -, hfound⟩ := List.mem_filterMap.mp hm
    obtain ⟨_, hget, rfl⟩ := Option.map_eq_some_iff.mp hfound
    exact h _ (List.mem_of_getElem? hget)
  rw [outcome_runTasks_of_completes (completes_of_reads hreads), completions, List.map_filterMap]
  simp only [List.getElem?_map, Option.map_map]
  rfl

theorem runTasks_ok_or_error {order : Order} {tasks : List (ExceptT ε (StateM σ) α)} {s : σ}
    (horder : order.Perm (List.range tasks.length)) (h : ∀ task ∈ tasks, (outcome task s).2 = s) :
    (∃ values, (tasks.map fun task => (outcome task s).1) = values.map .ok ∧
      outcome (runTasks order tasks) s = (.ok values, s)) ∨
    ∃ e, (∃ task ∈ tasks, (outcome task s).1 = .error e) ∧
      outcome (runTasks order tasks) s = (.error e, s) := by
  have hsize : (tasks.map fun task => (outcome task s).1).length = tasks.length := List.length_map _
  rw [← hsize] at horder
  rw [outcome_runTasks h, ← hsize]
  rcases collect_ok_or_error horder with ⟨values, hvalues, hcollect⟩ | ⟨e, he, hcollect⟩
  · exact .inl ⟨values, hvalues, by rw [hcollect]⟩
  · exact .inr ⟨e, List.mem_map.mp he, by rw [hcollect]⟩

end Cadence.Fanout
