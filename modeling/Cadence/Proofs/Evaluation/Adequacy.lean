import Cadence.Proofs.Evaluation.Interleaving

namespace Cadence.Evaluator

open Target

variable {σ β : Type} {registry : Registry}

-- The events bring what the store answers, one fetch after the other.
inductive Serves (fetch : String → Query σ (List (Series Float))) : σ → List Event → σ → Prop
  | nil {s} : Serves fetch s [] s
  | started {pattern s events last} (rest : Serves fetch s events last) :
      Serves fetch s (.started pattern :: events) last
  | finished {pattern answer s s' events last} (first : outcome (fetch pattern) s = (answer, s'))
      (rest : Serves fetch s' events last) :
      Serves fetch s (.finished pattern answer :: events) last

theorem Serves.append {fetch : String → Query σ (List (Series Float))} {s s' last : σ}
    {events rest : List Event} (h : Serves fetch s events s') (tail : Serves fetch s' rest last) :
    Serves fetch s (events ++ rest) last := by
  induction h with
  | nil => exact tail
  | started later ih => exact .started (ih tail)
  | finished first later ih => exact .finished first (ih tail)

-- In every state the action does what a run of the task does, up to a view of the task's result.
def Performs (registry : Registry) (fetch : String → Query σ (List (Series Float)))
    (view : Except QueryError Argument → Except QueryError β) (e : Expr) (action : Query σ β) :
    Prop :=
  ∀ s, ∃ events result, Run registry (.created e) events (.returned result) ∧
    view result = (outcome action s).1 ∧ Serves fetch s events (outcome action s).2

theorem exists_run_joining {fetch : String → Query σ (List (Series Float))}
    {view : Except QueryError Argument → Except QueryError β} (purpose : Purpose)
    {exprs : List Expr} {tasks : List (Query σ β)} {order : Fanout.Order}
    (hsize : exprs.length = tasks.length)
    (hperforms : ∀ (task : Nat) e action, exprs[task]? = some e → tasks[task]? = some action →
      Performs registry fetch view e action)
    {running : List (Activity × Nat)}
    (hrunning : running.Perm (order.filterMap fun task => exprs[task]?.map (.created ·, task)))
    (heard : List (Nat × Except QueryError Argument)) (s : σ) :
    ∃ events more last,
      Run registry (.joining purpose heard running) events (.joining purpose (heard ++ more) []) ∧
      Fanout.Completes (order.filterMap fun task => tasks[task]?.map (task, ·)) s
        (more.map fun (task, result) => (task, view result)) last ∧
      Serves fetch s events last := by
  induction order generalizing running heard s with
  | nil =>
      rw [hrunning.eq_nil]
      exact ⟨[], [], s, (List.append_nil heard).symm ▸ .refl, .nil, .nil⟩
  | cons task order ih =>
      cases haction : tasks[task]? with
      | none =>
          have hsame : exprs[task]? = none := by
            rw [List.getElem?_eq_none_iff] at haction ⊢
            omega
          rw [List.filterMap_cons, hsame] at hrunning
          rw [List.filterMap_cons, haction]
          exact ih hrunning heard s
      | some action =>
          have hlt : task < exprs.length := by
            rw [hsize]
            exact (List.getElem?_eq_some_iff.mp haction).1
          have hsome : exprs[task]? = some exprs[task] := List.getElem?_eq_getElem hlt
          rw [List.filterMap_cons, hsome] at hrunning
          rw [List.filterMap_cons, haction]
          obtain ⟨events, result, hrun, hview, hserves⟩ := hperforms _ _ _ hsome haction s
          obtain ⟨later, hlater, hprogress⟩ := hrun.progress hrunning
          obtain ⟨rest, more, last, htail, hcompletes, hrest⟩ :=
            ih (.refl _) (heard ++ [(task, result)]) (outcome action s).2
          refine ⟨events ++ rest, (task, result) :: more, last, ?_, ?_, hserves.append hrest⟩
          · rw [List.append_cons]
            exact hprogress.trans (.step (.join hlater) htail)
          · exact .cons (Prod.ext hview.symm rfl) hcompletes

theorem zipIdx_eq_filterMap {α : Type} (xs : List α) (first : Nat) :
    xs.zipIdx first = (List.range xs.length).filterMap fun i => xs[i]?.map (·, first + i) := by
  induction xs generalizing first with
  | nil => rfl
  | cons x xs ih =>
      rw [List.zipIdx_cons, ih, List.length_cons, List.range_succ_eq_map, List.filterMap_cons,
        List.filterMap_map]
      have hshift : ((fun i => (x :: xs)[i]?.map (·, first + i)) ∘ Nat.succ)
          = fun i => xs[i]?.map (·, first + 1 + i) := by
        funext i
        rw [Function.comp, List.getElem?_cons_succ, Nat.succ_eq_add_one, Nat.add_comm i,
          Nat.add_assoc]
      rw [hshift]
      rfl

theorem Purpose.spawned_perm (purpose : Purpose) {order : Fanout.Order}
    (h : order.Perm (List.range purpose.exprs.length)) :
    purpose.spawned.Perm
      (order.filterMap fun task => purpose.exprs[task]?.map (Activity.created ·, task)) := by
  rw [spawned, zipIdx_eq_filterMap, List.length_map]
  simp only [List.getElem?_map, Option.map_map, Nat.zero_add]
  exact (h.filterMap _).symm

theorem exists_run_spawned {fetch : String → Query σ (List (Series Float))}
    {view : Except QueryError Argument → Except QueryError β} (purpose : Purpose)
    {tasks : List (Query σ β)} {order : Fanout.Order}
    (hsize : purpose.exprs.length = tasks.length)
    (hperforms : ∀ (task : Nat) e action, purpose.exprs[task]? = some e →
      tasks[task]? = some action → Performs registry fetch view e action)
    (horder : order.Perm (List.range tasks.length)) (s : σ) :
    ∃ events heard last,
      Run registry (.joining purpose [] purpose.spawned) events
        (.returned (purpose.result registry heard)) ∧
      outcome (Fanout.runTasks order tasks) s = (Fanout.collect tasks.length
        (heard.map fun (task, result) => (task, view result)), last) ∧
      Serves fetch s events last := by
  rw [← hsize] at horder
  obtain ⟨events, heard, last, hrun, hcompletes, hserves⟩ :=
    exists_run_joining purpose hsize hperforms (purpose.spawned_perm horder) [] s
  refine ⟨events ++ [], heard, last, hrun.trans (.single .conclude), ?_, hserves.append .nil⟩
  exact Fanout.outcome_runTasks_of_completes hcompletes

-- The execution of a node is a run of it.
theorem node_performs (ev : Evaluator σ) (hfair : ev.schedule.Fair) (w : Window) :
    (e : Expr) → Performs ev.registry (ev.fetch · w) id e (ev.node w e)
  | .series pattern => by
      intro s
      rw [node, outcome_map]
      exact ⟨_, _, .step .start (.single .finish), rfl, .started (.finished rfl .nil)⟩
  | .number x => fun s => ⟨[], .ok (.number x), .single (.literal rfl), rfl, .nil⟩
  | .text t => fun s => ⟨[], .ok (.text t), .single (.literal rfl), rfl, .nil⟩
  | .flag b => fun s => ⟨[], .ok (.flag b), .single (.literal rfl), rfl, .nil⟩
  | .call function args => by
      intro s
      have hcount : (argTasks ev w 0 args).length = (pending 0 args).length := by
        rw [argTasks_eq_map, List.length_map]
      have hsize : (Purpose.call function args).exprs.length = (argTasks ev w 0 args).length := by
        rw [hcount]
        exact List.length_map _
      have hargs : ∀ (task : Nat) e action, (Purpose.call function args).exprs[task]? = some e →
          (argTasks ev w 0 args)[task]? = some action →
          Performs ev.registry (ev.fetch · w) id e action := by
        intro task e action he haction
        rw [argTasks_eq_map, List.getElem?_map] at haction
        obtain ⟨arg, harg, rfl⟩ := Option.map_eq_some_iff.mp haction
        have he : ((pending 0 args).map (·.2))[task]? = some e := he
        rw [List.getElem?_map, harg] at he
        cases he
        have hlt := List.sizeOf_lt_of_mem (mem_of_mem_pending (List.mem_of_getElem? harg))
        exact node_performs (ev.below arg.1) (hfair.below arg.1) w arg.2
      obtain ⟨events, heard, last, hrun, htasks, hserves⟩ :=
        exists_run_spawned (.call function args) hsize hargs (hfair [] _) s
      have hheard : (heard.map fun (task, result) => (task, id result)) = heard := List.map_id heard
      have hnode : outcome (ev.node w (.call function args)) s
          = ((Purpose.call function args).result ev.registry heard, last) := by
        rw [node, outcome_bind fun values => outcome_applyCall ev function (argValues args values),
          htasks, hheard, hcount]
        rfl
      rw [hnode]
      exact ⟨[] ++ events, _, .step .spawn hrun, rfl, hserves⟩

theorem evaluate_performs (ev : Evaluator σ) (hfair : ev.schedule.Fair) (w : Window) (e : Expr) :
    Performs ev.registry (ev.fetch · w) (·.bind rootSeries) e (ev.evaluate w e) := by
  intro s
  obtain ⟨events, result, hrun, hview, hserves⟩ := node_performs ev hfair w e s
  have hevaluate : outcome (ev.evaluate w e) s
      = ((outcome (ev.node w e) s).1.bind rootSeries, (outcome (ev.node w e) s).2) :=
    outcome_bind (fun value s => outcome_liftExcept (rootSeries value) s) s
  rw [hevaluate]
  exact ⟨events, result, hrun, congrArg (·.bind rootSeries) hview, hserves⟩

-- The execution of targets is a run of their request.
theorem evaluateTargets_performs (ev : Evaluator σ) (hfair : ev.schedule.Fair) (w : Window)
    {targets : List String} {exprs : List Expr} (hparse : targets.mapM parse = .ok exprs) (s : σ) :
    ∃ events, Run ev.registry (request exprs) events
        (.returned ((outcome (ev.evaluateTargets w targets) s).1.map .series)) ∧
      Serves (ev.fetch · w) s events (outcome (ev.evaluateTargets w targets) s).2 := by
  have hcount : (ev.targetTasks w exprs).length = exprs.length := by
    rw [targetTasks, List.length_map, List.length_zipIdx]
  have htasks : ∀ (task : Nat) e action, exprs[task]? = some e →
      (ev.targetTasks w exprs)[task]? = some action →
      Performs ev.registry (ev.fetch · w) (·.bind rootSeries) e action := by
    intro task e action he haction
    rw [targetTasks, List.getElem?_map, List.getElem?_zipIdx, he] at haction
    cases haction
    exact evaluate_performs (ev.below _) (hfair.below _) w e
  obtain ⟨events, heard, last, hrun, hdone, hserves⟩ :=
    exists_run_spawned (.targets exprs) hcount.symm htasks (hfair [] _) s
  have houtcome := outcome_evaluateTargets ev w hparse s
  rw [targetParts, hdone, hcount] at houtcome
  have hresult : (Purpose.targets exprs).result ev.registry heard
      = (outcome (ev.evaluateTargets w targets) s).1.map .series := by
    rw [houtcome, Purpose.result]
    cases Fanout.collect exprs.length (heard.map fun (task, result) =>
      (task, result.bind rootSeries)) <;> rfl
  refine ⟨events, ?_, ?_⟩
  · rw [← hresult]
    exact hrun
  · rw [houtcome]
    exact hserves

end Cadence.Evaluator
