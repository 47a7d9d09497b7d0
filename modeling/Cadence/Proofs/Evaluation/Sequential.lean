import Cadence.Proofs.Evaluation.Adequacy

namespace Cadence

open Target

variable {σ : Type}

-- A store that is a function of what it is asked, and the functions that targets call.
structure Sequential where
  answer (pattern : String) (w : Window) : Except QueryError (List (Series Float))
  registry : Registry

namespace Sequential

mutual

def value (seq : Sequential) (w : Window) : Expr → Except QueryError Argument
  | .series pattern => (seq.answer (Evaluator.leafPattern pattern) w).map .series
  | .number x => .ok (.number x)
  | .text s => .ok (.text s)
  | .flag b => .ok (.flag b)
  | .call function args => do
    let args ← values seq w args
    seq.registry.apply function args

def values (seq : Sequential) (w : Window) : List Expr → Except QueryError (List Argument)
  | [] => .ok []
  | arg :: args => do
    let first ← value seq w arg
    let rest ← values seq w args
    return first :: rest

end

def evaluate (seq : Sequential) (w : Window) (e : Expr) : Except QueryError (List (Series Float)) :=
  do Evaluator.rootSeries (← seq.value w e)

-- The errors of the nodes of a tree. A leaf raises that of the store; a call looks its function up
-- and applies it once all of its arguments have values.
inductive Raises (seq : Sequential) (w : Window) : Expr → QueryError → Prop
  | fetch {pattern e} (failed : seq.answer (Evaluator.leafPattern pattern) w = .error e) :
      Raises seq w (.series pattern) e
  | call {function args values e} (ready : seq.values w args = .ok values)
      (failed : seq.registry.apply function values = .error e) : Raises seq w (.call function args) e
  | argument {function args arg e} (mem : arg ∈ args) (raised : Raises seq w arg e) :
      Raises seq w (.call function args) e

-- What an evaluation may report: an error of a node, or that the root is a literal.
inductive Reports (seq : Sequential) (w : Window) (e : Expr) (error : QueryError) : Prop
  | node (raised : seq.Raises w e error)
  | root {value} (literal : Evaluator.literal? e = some value)
      (failed : Evaluator.rootSeries value = .error error)

theorem values_eq_mapM (seq : Sequential) (w : Window) (args : List Expr) :
    seq.values w args = args.mapM (seq.value w) := by
  induction args with
  | nil => rfl
  | cons arg args ih => rw [values, ih, List.mapM_cons]

theorem value_of_literal {e : Expr} {own : Argument} (seq : Sequential) (w : Window)
    (h : Evaluator.literal? e = some own) : seq.value w e = .ok own := by
  cases e <;> cases h <;> rfl

theorem exists_value_of_mem {seq : Sequential} {w : Window} {args : List Expr} {values : List Argument}
    (hvalues : seq.values w args = .ok values) {arg : Expr} (harg : arg ∈ args) :
    ∃ own, seq.value w arg = .ok own := by
  have hmem := List.mem_map_of_mem (f := seq.value w) harg
  rw [values_eq_mapM] at hvalues
  rw [(mapM_eq_ok_iff _ _ _).mp hvalues] at hmem
  obtain ⟨own, -, hown⟩ := List.mem_map.mp hmem
  exact ⟨own, hown.symm⟩

-- A node that raises an error has no value, and neither has one above it.
theorem Raises.value_ne {seq : Sequential} {w : Window} {e : Expr} {error : QueryError}
    (h : seq.Raises w e error) (own : Argument) : seq.value w e ≠ .ok own := by
  induction h generalizing own with
  | fetch failed =>
      rw [value, failed]
      intro hvalue
      cases hvalue
  | call ready failed =>
      rw [value, ready]
      intro h
      cases failed.symm.trans h
  | @argument function args arg error mem raised ih =>
      rw [value]
      cases hargs : seq.values w args with
      | error e =>
          intro hvalue
          cases hvalue
      | ok merged =>
          obtain ⟨v, hv⟩ := exists_value_of_mem hargs mem
          exact absurd hv (ih v)

theorem Reports.evaluate_ne {seq : Sequential} {w : Window} {e : Expr} {error : QueryError}
    (h : seq.Reports w e error) (series : List (Series Float)) :
    seq.evaluate w e ≠ .ok series := by
  rw [evaluate]
  cases h with
  | node raised =>
      cases hvalue : seq.value w e with
      | ok own => exact absurd hvalue (raised.value_ne own)
      | error e =>
          intro hseries
          cases hseries
  | root literal failed =>
      rw [value_of_literal seq w literal]
      intro hseries
      cases failed.symm.trans hseries

-- The store of an evaluation answers as that of the sequential one.
def Answers (seq : Sequential) (w : Window) (events : List Evaluator.Event) : Prop :=
  ∀ pattern answer, .finished pattern answer ∈ events → answer = seq.answer pattern w

-- The result of the sequential evaluation, or the error of some node.
def Admits (seq : Sequential) (w : Window) (e : Expr) : Except QueryError Argument → Prop
  | .ok own => seq.value w e = .ok own
  | .error error => seq.Raises w e error

end Sequential

-- An evaluator that spreads over tasks what a sequential one does by itself.
structure Evaluator.Spreads (ev : Evaluator σ) (seq : Sequential) (s : σ) : Prop where
  fair : ev.schedule.Fair
  registry : ev.registry = seq.registry
  fetch (pattern : String) (w : Window) :
    outcome (ev.fetch pattern w) s = (seq.answer pattern w, s)

-- A store that has a series of no values for each pattern.
def Sequential.echo : Sequential where
  answer pattern _ := .ok [⟨pattern, pattern, 0, 60, #[]⟩]
  registry := .builtin

-- The store answers at once, and tasks complete by a schedule.
def Sequential.evaluator (seq : Sequential) (schedule : Schedule) : Evaluator σ where
  fetch pattern w := liftExcept id (seq.answer pattern w)
  registry := seq.registry
  schedule := schedule

theorem Sequential.evaluator_spreads (seq : Sequential) {schedule : Schedule}
    (h : schedule.Fair) (s : σ) : (seq.evaluator schedule).Spreads seq s :=
  ⟨h, rfl, fun pattern w => outcome_liftExcept (seq.answer pattern w) s⟩

namespace Evaluator

theorem Spreads.below {ev : Evaluator σ} {seq : Sequential} {s : σ} (h : ev.Spreads seq s)
    (slot : Nat) : (ev.below slot).Spreads seq s :=
  ⟨h.fair.below slot, h.registry, h.fetch⟩

theorem values_of_merged {seq : Sequential} {w : Window} {slot : Nat} {args : List Expr}
    {values merged : List Argument} (h : Merged args values merged)
    (hvalues : (pending slot args).map (fun arg => seq.value w arg.2) = values.map .ok) :
    seq.values w args = .ok merged := by
  induction h generalizing slot with
  | nil => rfl
  | literal own rest ih =>
      rw [pending, own] at hvalues
      rw [Sequential.values, Sequential.value_of_literal seq w own, ih hvalues]
      rfl
  | task own rest ih =>
      rw [pending, own] at hvalues
      obtain ⟨hfirst, hrest⟩ := List.cons.inj hvalues
      have hvalue : seq.value w _ = .ok _ := hfirst
      rw [Sequential.values, hvalue, ih hrest]
      rfl

-- The results of a call's tasks make the values of its arguments, or one of the arguments raises the
-- error that is heard of first.
theorem collect_pending {seq : Sequential} {w : Window} {args : List Expr} {order : Fanout.Order}
    {outcomes : List (Except QueryError Argument)}
    (hsize : outcomes.length = (pending 0 args).length)
    (horder : order.Perm (List.range outcomes.length))
    (hadmits : ∀ (task : Nat) result, outcomes[task]? = some result →
      ∃ arg, (pending 0 args)[task]? = some arg ∧ seq.Admits w arg.2 result) :
    (∃ values, Fanout.collect outcomes.length (Fanout.completions order outcomes) = .ok values ∧
      seq.values w args = .ok (argValues args values)) ∨
    ∃ error, Fanout.collect outcomes.length (Fanout.completions order outcomes) = .error error ∧
      ∃ arg ∈ args, seq.Raises w arg error := by
  rcases Fanout.collect_ok_or_error horder with ⟨values, hvalues, hcollect⟩ | ⟨error, he, hcollect⟩
  · refine .inl ⟨values, hcollect, ?_⟩
    have hlength : values.length = (pending 0 args).length := by
      rw [← hsize, hvalues, List.length_map]
    obtain ⟨merged, hmerged⟩ := exists_merged hlength
    rw [argValues_eq hmerged]
    apply values_of_merged hmerged
    rw [← hvalues]
    apply List.ext_getElem?
    intro task
    rw [List.getElem?_map]
    cases hresult : outcomes[task]? with
    | none =>
        rw [List.getElem?_eq_none_iff, hsize] at hresult
        rw [List.getElem?_eq_none hresult]
        rfl
    | some result =>
        obtain ⟨arg, harg, hadmit⟩ := hadmits task result hresult
        have hmem : result ∈ values.map Except.ok := hvalues ▸ List.mem_of_getElem? hresult
        obtain ⟨value, -, rfl⟩ := List.mem_map.mp hmem
        have hvalue : seq.value w arg.2 = .ok value := hadmit
        rw [harg, Option.map_some, hvalue]
  · obtain ⟨task, hresult⟩ := List.mem_iff_getElem?.mp he
    obtain ⟨arg, harg, hraises⟩ := hadmits task _ hresult
    exact .inr ⟨error, hcollect, arg.2, mem_of_mem_pending (List.mem_of_getElem? harg), hraises⟩

-- Every run of an expression comes to the value of the sequential evaluation, or to an error that
-- some node of the tree raises.
theorem Run.admits {seq : Sequential} {w : Window} : (e : Expr) → (events : List Event) →
    (result : Except QueryError Argument) →
    Run seq.registry (.created e) events (.returned result) → seq.Answers w events →
      seq.Admits w e result
  | .series pattern, events, result, h, hanswers => by
      obtain ⟨answer, rfl, rfl⟩ := h.of_series
      have hanswer : answer = seq.answer (leafPattern pattern) w := hanswers _ _ (by simp)
      cases answer with
      | ok series =>
          rw [Except.map, Sequential.Admits, Sequential.value, ← hanswer]
          rfl
      | error error => exact .fetch hanswer.symm
  | .number x, events, result, h, hanswers => by
      cases h.of_literal rfl
      rfl
  | .text t, events, result, h, hanswers => by
      cases h.of_literal rfl
      rfl
  | .flag b, events, result, h, hanswers => by
      cases h.of_literal rfl
      rfl
  | .call function args, events, result, h, hanswers => by
      obtain ⟨order, outcomes, hsize, horder, rfl, hruns⟩ := h.of_call.spawned
      have hcount : outcomes.length = (pending 0 args).length := hsize.trans (List.length_map _)
      have hadmits : ∀ (task : Nat) own, outcomes[task]? = some own →
          ∃ arg, (pending 0 args)[task]? = some arg ∧ seq.Admits w arg.2 own := by
        intro task own hown
        obtain ⟨e, part, he, hpart, hrun⟩ := hruns task own hown
        rw [Purpose.exprs, List.getElem?_map] at he
        obtain ⟨arg, harg, rfl⟩ := Option.map_eq_some_iff.mp he
        have hlt := List.sizeOf_lt_of_mem (mem_of_mem_pending (List.mem_of_getElem? harg))
        exact ⟨arg, harg, admits arg.2 part own hrun fun _ _ hm => hanswers _ _ (hpart hm)⟩
      rw [Purpose.result, ← hcount]
      rcases collect_pending hcount horder hadmits with
        ⟨values, hcollect, hvalues⟩ | ⟨error, hcollect, arg, hm, hraises⟩
      · rw [hcollect]
        change seq.Admits w _ (seq.registry.apply function (argValues args values))
        cases happly : seq.registry.apply function (argValues args values) with
        | ok own =>
            rw [Sequential.Admits, Sequential.value, hvalues]
            exact happly
        | error error => exact .call hvalues happly
      · rw [hcollect]
        exact .argument hm hraises

-- A store that is a function of what it is asked brings its answers and stays as it is.
theorem Spreads.answers {ev : Evaluator σ} {seq : Sequential} {s last : σ} {w : Window}
    {events : List Event} (h : ev.Spreads seq s) (hserves : Serves (ev.fetch · w) s events last) :
    last = s ∧ seq.Answers w events := by
  induction hserves with
  | nil => exact ⟨rfl, fun _ _ hm => absurd hm List.not_mem_nil⟩
  | started rest ih =>
      obtain ⟨hlast, hanswers⟩ := ih h
      refine ⟨hlast, fun pattern answer hm => ?_⟩
      rcases List.mem_cons.mp hm with heq | hm
      · cases heq
      · exact hanswers pattern answer hm
  | @finished pattern answer s s' events last first rest ih =>
      rw [h.fetch] at first
      obtain ⟨rfl, rfl⟩ := Prod.mk.inj first
      obtain ⟨hlast, hanswers⟩ := ih h
      refine ⟨hlast, fun other answer hm => ?_⟩
      rcases List.mem_cons.mp hm with heq | hm
      · cases heq
        rfl
      · exact hanswers other answer hm

theorem Spreads.node {ev : Evaluator σ} {seq : Sequential} {s : σ} (h : ev.Spreads seq s)
    (w : Window) (e : Expr) :
    ∃ result, outcome (ev.node w e) s = (result, s) ∧ seq.Admits w e result := by
  obtain ⟨events, result, hrun, hview, hserves⟩ := node_performs ev h.fair w e s
  obtain ⟨hlast, hanswers⟩ := h.answers hserves
  refine ⟨result, Prod.ext hview.symm hlast, ?_⟩
  rw [h.registry] at hrun
  exact hrun.admits e events result hanswers

theorem literal_of_rootSeries {seq : Sequential} {w : Window} {e : Expr} {value : Argument}
    {error : QueryError} (h : seq.value w e = .ok value) (hroot : rootSeries value = .error error) :
    literal? e = some value := by
  have hseries : ∀ series, value ≠ .series series := by
    rintro series rfl
    cases hroot
  cases e with
  | series pattern =>
      obtain ⟨series, -, heq⟩ := exists_of_map_eq_ok h
      exact absurd heq.symm (hseries series)
  | number x => exact congrArg Except.toOption h
  | text t => exact congrArg Except.toOption h
  | flag b => exact congrArg Except.toOption h
  | call function args =>
      rw [Sequential.value] at h
      cases hargs : seq.values w args with
      | error e =>
          rw [hargs] at h
          cases h
      | ok values =>
          rw [hargs] at h
          have happly : seq.registry.apply function values = .ok value := h
          rw [Registry.apply] at happly
          split at happly
          · cases happly
          · obtain ⟨series, -, heq⟩ := exists_of_map_eq_ok happly
            exact absurd heq.symm (hseries series)

theorem Spreads.evaluate {ev : Evaluator σ} {seq : Sequential} {s : σ} (h : ev.Spreads seq s)
    (w : Window) (e : Expr) : ∃ result, outcome (ev.evaluate w e) s = (result, s) ∧
      (∀ series, result = .ok series ↔ seq.evaluate w e = .ok series) ∧
      ∀ error, result = .error error → seq.Reports w e error := by
  obtain ⟨result, hout, hadmits⟩ := h.node w e
  cases result with
  | ok value =>
      have hvalue : seq.evaluate w e = rootSeries value := by
        have hadmits : seq.value w e = .ok value := hadmits
        rw [Sequential.evaluate, hadmits]
        rfl
      refine ⟨rootSeries value, ?_, fun series => by rw [hvalue], ?_⟩
      · rw [Evaluator.evaluate, outcome_bind_ok hout, outcome_liftExcept]
      · intro error herror
        exact .root (literal_of_rootSeries hadmits herror) herror
  | error error =>
      have hreports : seq.Reports w e error := .node hadmits
      refine ⟨.error error, ?_, fun series => ?_, ?_⟩
      · rw [Evaluator.evaluate, outcome_bind_error hout]
      · constructor
        · intro hseries
          cases hseries
        · intro hseries
          exact absurd hseries (hreports.evaluate_ne series)
      · intro other hother
        cases hother
        exact hreports

theorem Spreads.toOption_evaluate {ev : Evaluator σ} {seq : Sequential} {s : σ}
    (h : ev.Spreads seq s) (w : Window) (e : Expr) :
    (outcome (ev.evaluate w e) s).1.toOption = (seq.evaluate w e).toOption := by
  obtain ⟨result, hout, hok, -⟩ := h.evaluate w e
  rw [hout]
  cases hseq : seq.evaluate w e with
  | ok series => rw [(hok series).mpr hseq]
  | error error =>
      cases result with
      | ok series => cases hseq.symm.trans ((hok series).mp rfl)
      | error e => rfl

theorem Spreads.targetTasks_keep {ev : Evaluator σ} {seq : Sequential} {s : σ}
    (h : ev.Spreads seq s) (w : Window) (exprs : List Expr) :
    ∀ task ∈ ev.targetTasks w exprs, (outcome task s).2 = s := by
  intro task hm
  obtain ⟨⟨e, slot⟩, -, rfl⟩ := List.mem_map.mp hm
  obtain ⟨result, hout, -⟩ := (h.below slot).evaluate w e
  exact congrArg Prod.snd hout

-- Where a task stands makes no difference to its series.
theorem Spreads.map_targetTasks {ev : Evaluator σ} {seq : Sequential} {s : σ}
    (h : ev.Spreads seq s) (w : Window) (exprs : List Expr) (parts : List (List (Series Float))) :
    ((ev.targetTasks w exprs).map fun task => (outcome task s).1) = parts.map .ok ↔
      (exprs.map fun e => (outcome (ev.evaluate w e) s).1) = parts.map .ok := by
  have hpart : ∀ part : Expr × Nat, (outcome ((ev.below part.2).evaluate w part.1) s).1.toOption
      = (outcome (ev.evaluate w part.1) s).1.toOption := by
    intro part
    rw [(h.below part.2).toOption_evaluate, h.toOption_evaluate]
  have hsame : ((ev.targetTasks w exprs).map fun task => (outcome task s).1).map Except.toOption
      = (exprs.map fun e => (outcome (ev.evaluate w e) s).1).map Except.toOption := by
    rw [targetTasks, List.map_map, List.map_map, List.map_map]
    calc exprs.zipIdx.map _
        = exprs.zipIdx.map fun part => (outcome (ev.evaluate w part.1) s).1.toOption :=
          List.map_congr_left fun part _ => hpart part
      _ = (exprs.zipIdx.map Prod.fst).map fun e => (outcome (ev.evaluate w e) s).1.toOption := by
          rw [List.map_map]
          rfl
      _ = _ := by
          rw [List.zipIdx_map_fst]
          rfl
  rw [← map_toOption_eq_iff, ← map_toOption_eq_iff, hsame]

theorem Spreads.evaluateTargets {ev : Evaluator σ} {seq : Sequential} {s : σ}
    (h : ev.Spreads seq s) (w : Window) {targets : List String} {exprs : List Expr}
    (hparse : targets.mapM parse = .ok exprs) :
    ∃ result, outcome (ev.evaluateTargets w targets) s = (result, s) ∧
      (∀ series, result = .ok series ↔ ∃ parts : List (List (Series Float)),
        (targets.map fun target => (outcome (ev.evaluateTarget w target) s).1) = parts.map .ok ∧
          series = parts.flatten) ∧
      ∀ error, result = .error error → ∃ e ∈ exprs, seq.Reports w e error := by
  have hrun := outcome_evaluateTargets ev w hparse s
  have horder := h.fair [] (ev.targetTasks w exprs).length
  rcases Fanout.runTasks_ok_or_error horder (h.targetTasks_keep w exprs) with
    ⟨parts, hparts, hresult⟩ | ⟨error, ⟨task, hm, herror⟩, hresult⟩
  · rw [targetParts, hresult] at hrun
    refine ⟨.ok parts.flatten, hrun, fun series => ?_, ?_⟩
    · rw [h.map_targetTasks, ← map_evaluateTarget ev w s hparse] at hparts
      constructor
      · intro hseries
        cases hseries
        exact ⟨parts, hparts, rfl⟩
      · rintro ⟨others, hothers, rfl⟩
        rw [hparts] at hothers
        rw [(List.map_inj_right fun _ _ => Except.ok.inj).mp hothers]
    · intro error herror
      cases herror
  · rw [targetParts, hresult] at hrun
    refine ⟨.error error, hrun, fun series => ?_, ?_⟩
    · constructor
      · intro hseries
        cases hseries
      · rintro ⟨parts, hparts, -⟩
        rw [map_evaluateTarget ev w s hparse, ← h.map_targetTasks] at hparts
        have hmem := List.mem_map_of_mem (f := fun task => (outcome task s).1) hm
        rw [hparts, herror] at hmem
        obtain ⟨part, -, hpart⟩ := List.mem_map.mp hmem
        cases hpart
    · intro other hother
      cases hother
      obtain ⟨⟨e, slot⟩, he, rfl⟩ := List.mem_map.mp hm
      obtain ⟨result, hout, -, hreports⟩ := (h.below slot).evaluate w e
      rw [hout] at herror
      refine ⟨e, ?_, hreports error herror⟩
      exact List.fst_mem_of_mem_zipIdx he

-- The order in which tasks complete decides at most which error of the tree is reported.
theorem evaluation_eq_sequential {ev : Evaluator σ} {seq : Sequential} {s : σ}
    (h : ev.Spreads seq s) (w : Window) :
    (∀ e, ∃ result, outcome (ev.evaluate w e) s = (result, s) ∧
      (∀ series, result = .ok series ↔ seq.evaluate w e = .ok series) ∧
      ∀ error, result = .error error → seq.Reports w e error) ∧
    ∀ targets exprs, targets.mapM parse = .ok exprs →
      ∃ result, outcome (ev.evaluateTargets w targets) s = (result, s) ∧
        (∀ series, result = .ok series ↔ ∃ parts : List (List (Series Float)),
          (targets.map fun target => (outcome (ev.evaluateTarget w target) s).1) = parts.map .ok ∧
            series = parts.flatten) ∧
        ∀ error, result = .error error → ∃ e ∈ exprs, seq.Reports w e error :=
  ⟨h.evaluate w, fun _ _ => h.evaluateTargets w⟩

-- Tasks that complete in reverse leave the series in the order of the source.
theorem evaluation_eq_sequential_reversed :
    (Sequential.echo.evaluator .reversed).Spreads Sequential.echo () ∧
    outcome ((Sequential.echo.evaluator .reversed).evaluate ⟨0, 60⟩
        (.call "group" [.series "a", .call "alias" [.series "b", .text "x"]])) ()
      = (.ok [⟨"a", "a", 0, 60, #[]⟩, ⟨"b", "x", 0, 60, #[]⟩], ()) ∧
    ["a", "b"].mapM parse = .ok [.series "a", .series "b"] ∧
    outcome ((Sequential.echo.evaluator .reversed).evaluateTargets ⟨0, 60⟩ ["a", "b"]) ()
      = (.ok [⟨"a", "a", 0, 60, #[]⟩, ⟨"b", "b", 0, 60, #[]⟩], ()) := by
  have hspreads : (Sequential.echo.evaluator .reversed).Spreads Sequential.echo () :=
    Sequential.echo.evaluator_spreads Schedule.reversed_fair ()
  obtain ⟨hone, hall⟩ := evaluation_eq_sequential hspreads ⟨0, 60⟩
  refine ⟨hspreads, ?_, mapM_parse_names, ?_⟩
  · obtain ⟨result, hout, hok, -⟩ :=
      hone (.call "group" [.series "a", .call "alias" [.series "b", .text "x"]])
    rw [hout, (hok _).mpr]
    with_unfolding_all rfl
  · obtain ⟨result, hout, hok, -⟩ := hall _ _ mapM_parse_names
    rw [hout, (hok _).mpr]
    refine ⟨[[⟨"a", "a", 0, 60, #[]⟩], [⟨"b", "b", 0, 60, #[]⟩]], ?_, rfl⟩
    rw [map_evaluateTarget _ _ _ mapM_parse_names]
    with_unfolding_all rfl

end Evaluator

end Cadence
