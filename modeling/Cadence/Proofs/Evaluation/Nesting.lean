import Cadence.Proofs.Evaluation.Sequential
import Cadence.Proofs.Transform.Naming
import Cadence.Proofs.Transform.Nodes
import Cadence.Proofs.Transform.Resampling

namespace Cadence

open Target

variable {σ : Type}

namespace Target.Expr

-- Calls of the functions that scale or offset series or aggregate them, around the leaves.
inductive Nesting : Expr → Prop
  | leaf (pattern : String) : Nesting (.series pattern)
  | mapped {function : String} {e : Expr} (known : function = "offset" ∨ function = "scale") (inner : Nesting e)
      (factor : Float) : Nesting (.call function [e, .number factor])
  | combined {function : String} {a : Aggregation} {args : List Expr}
      (known : (function, a) ∈ Builtin.aggregations) (nonempty : args ≠ []) (inner : ∀ arg ∈ args, Nesting arg) :
      Nesting (.call function args)

def byNode (e : Expr) (numbers : List Float) : Expr := .call "aliasByNode" (e :: numbers.map .number)

theorem mem_argLeaves_iff {args : List Expr} {pattern : String} :
    pattern ∈ argLeaves args ↔ ∃ arg ∈ args, pattern ∈ arg.leaves := by
  induction args with
  | nil => simp [argLeaves]
  | cons arg args ih => simp [argLeaves, ih]

end Target.Expr

namespace Sequential

variable {seq : Sequential} {w : Window}

-- A series that the store has for a leaf.
def Leaf (seq : Sequential) (w : Window) (e : Expr) (s : Series Float) : Prop :=
  ∃ pattern ∈ e.leaves, ∃ series, seq.answer (Evaluator.leafPattern pattern) w = .ok series ∧ s ∈ series

theorem leaf_series_iff {pattern : String} {series : List (Series Float)}
    (hanswer : seq.answer (Evaluator.leafPattern pattern) w = .ok series) (s : Series Float) :
    seq.Leaf w (.series pattern) s ↔ s ∈ series := by
  constructor
  · rintro ⟨other, hother, answer, hsame, hs⟩
    obtain rfl := List.mem_singleton.mp hother
    obtain rfl := Except.ok.inj (hanswer.symm.trans hsame)
    exact hs
  · exact fun hs => ⟨pattern, List.mem_singleton_self pattern, series, hanswer, hs⟩

theorem leaf_call_iff {function : String} {args : List Expr} {s : Series Float} :
    seq.Leaf w (.call function args) s ↔ ∃ arg ∈ args, seq.Leaf w arg s := by
  simp only [Leaf, Expr.leaves, Expr.mem_argLeaves_iff]
  constructor
  · rintro ⟨pattern, ⟨arg, harg, hpattern⟩, hseries⟩
    exact ⟨arg, harg, pattern, hpattern, hseries⟩
  · rintro ⟨arg, harg, pattern, hpattern, hseries⟩
    exact ⟨pattern, ⟨arg, harg, hpattern⟩, hseries⟩

theorem value_call {function : String} {args : List Expr} {values : List Argument} {f : Transform}
    {results : List (Series Float)} (hvalues : seq.values w args = .ok values)
    (hfunction : seq.registry.find? function = some f) (hresults : f values = .ok results) :
    seq.value w (.call function args) = .ok (.series results) := by
  rw [value, hvalues]
  change seq.registry.apply function values = _
  rw [Registry.apply, hfunction]
  exact congrArg (Except.map Argument.series) hresults

-- The series that an expression comes to, named for its leaves.
structure Yields (seq : Sequential) (w : Window) (e : Expr) (results : List (Series Float)) : Prop where
  value : seq.value w e = .ok (.series results)
  named : Named (seq.Leaf w e) results

theorem yields_series {pattern : String} {series : List (Series Float)}
    (hanswer : seq.answer (Evaluator.leafPattern pattern) w = .ok series)
    (hplain : ∀ s, seq.Leaf w (.series pattern) s → s.Plain) : seq.Yields w (.series pattern) series where
  value := by
    rw [Sequential.value, hanswer]
    rfl
  named := .of_plain (leaf_series_iff hanswer) hplain

theorem exists_mapped {function : String} (known : function = "offset" ∨ function = "scale") :
    ∃ op, Registry.builtin.find? function = some (.ofChecked (Builtin.mapValues function op)) := by
  rcases known with rfl | rfl <;> exact ⟨_, rfl⟩

theorem Yields.mapped {function : String} {e : Expr} {results : List (Series Float)}
    (h : seq.Yields w e results) (hbuiltin : seq.registry = .builtin)
    (known : function = "offset" ∨ function = "scale") (factor : Float) :
    ∃ mapped, seq.Yields w (.call function [e, .number factor]) mapped := by
  obtain ⟨op, hop⟩ := exists_mapped known
  have hvalues : seq.values w [e, .number factor] = .ok [.series results, .number factor] := by
    rw [values, h.value]
    rfl
  have hleaf : ∀ s, seq.Leaf w e s ↔ seq.Leaf w (.call function [e, .number factor]) s := by
    intro s
    simp [Leaf, Expr.leaves, Expr.argLeaves]
  refine ⟨results.map (Builtin.mapSeries function op factor), ?_, ?_⟩
  · exact value_call hvalues (hbuiltin ▸ hop) rfl
  · exact (h.named.map_mapSeries function op factor).congr hleaf

theorem exists_values {args : List Expr} (h : ∀ arg ∈ args, ∃ results, seq.Yields w arg results) :
    ∃ lists : List (List (Series Float)), seq.values w args = .ok (lists.map .series) ∧
      lists.length = args.length ∧ Named (fun s => ∃ arg ∈ args, seq.Leaf w arg s) lists.flatten := by
  induction args with
  | nil => exact ⟨[], rfl, rfl, Named.nil.congr (by simp)⟩
  | cons arg args ih =>
      obtain ⟨results, hfirst⟩ := h arg List.mem_cons_self
      obtain ⟨lists, hvalues, hlength, hrest⟩ := ih fun other hm => h other (List.mem_cons_of_mem arg hm)
      refine ⟨results :: lists, ?_, by simp [hlength], (hfirst.named.append hrest).congr (by simp)⟩
      rw [values, hfirst.value, hvalues]
      rfl

theorem exists_combined {function : String} {a : Aggregation} {args : List Expr}
    (h : ∀ arg ∈ args, ∃ results, seq.Yields w arg results) (hbuiltin : seq.registry = .builtin)
    (known : (function, a) ∈ Builtin.aggregations) (hne : args ≠ []) :
    ∃ combined, seq.Yields w (.call function args) combined := by
  obtain ⟨lists, hvalues, hlength, hnamed⟩ := exists_values h
  have hlists : lists ≠ [] := by
    rintro rfl
    exact hne (List.length_eq_zero_iff.mp hlength.symm)
  have hall := allSeries_of_series function hlists
  have hfunction := Builtin.find?_of_mem_aggregations known
  cases hseries : lists.flatten with
  | nil =>
      rw [hseries] at hall hnamed
      refine ⟨[], value_call hvalues (hbuiltin ▸ hfunction) ?_, hnamed.congr fun _ => leaf_call_iff.symm⟩
      rw [Transform.ofChecked, Builtin.combine, hall]
      rfl
  | cons first rest =>
      rw [hseries] at hall hnamed
      refine ⟨_, value_call hvalues (hbuiltin ▸ hfunction) ?_,
        (hnamed.aggregate a function).congr fun _ => leaf_call_iff.symm⟩
      rw [Transform.ofChecked, Builtin.combine_eq_ok a hall (List.cons_ne_nil first rest)]
      rfl

-- By induction on the calls, each of which keeps to the metrics of its arguments.
theorem exists_yields {e : Expr} (he : e.Nesting) (hbuiltin : seq.registry = .builtin)
    (hanswers : ∀ pattern ∈ e.leaves, ∃ series, seq.answer (Evaluator.leafPattern pattern) w = .ok series)
    (hplain : ∀ s, seq.Leaf w e s → s.Plain) : ∃ results, seq.Yields w e results := by
  induction he with
  | leaf pattern =>
      obtain ⟨series, hseries⟩ := hanswers pattern (List.mem_singleton_self pattern)
      exact ⟨series, yields_series hseries hplain⟩
  | mapped known inner factor ih =>
      have hanswers := fun pattern hp =>
        hanswers pattern (Expr.mem_argLeaves_iff.mpr ⟨_, List.mem_cons_self, hp⟩)
      have hplain := fun s hs => hplain s (leaf_call_iff.mpr ⟨_, List.mem_cons_self, hs⟩)
      obtain ⟨results, hresults⟩ := ih hanswers hplain
      exact hresults.mapped hbuiltin known factor
  | combined known nonempty inner ih =>
      refine exists_combined (fun arg harg => ?_) hbuiltin known nonempty
      have hanswers := fun pattern hp => hanswers pattern (Expr.mem_argLeaves_iff.mpr ⟨arg, harg, hp⟩)
      exact ih arg harg hanswers fun s hs => hplain s (leaf_call_iff.mpr ⟨arg, harg, hs⟩)

end Sequential

namespace Evaluator

variable {ev : Evaluator σ} {seq : Sequential} {s : σ} {w : Window}

theorem Spreads.node_call (h : ev.Spreads seq s) {function : String} {args : List Expr}
    {values : List Argument} (hvalues : seq.values w args = .ok values) :
    outcome (ev.node w (.call function args)) s = (seq.registry.apply function values, s) := by
  obtain ⟨result, hout, hadmits⟩ := h.node w (.call function args)
  suffices happly : result = seq.registry.apply function values by rw [hout, happly]
  cases result with
  | ok value =>
      have hvalue : seq.value w (.call function args) = .ok value := hadmits
      rw [Sequential.value, hvalues] at hvalue
      exact hvalue.symm
  | error e =>
      have hraises : seq.Raises w (.call function args) e := hadmits
      cases hraises with
      | call ready failed =>
          obtain rfl := Except.ok.inj (hvalues.symm.trans ready)
          exact failed.symm
      | @argument _ _ arg _ mem raised =>
          obtain ⟨own, hown⟩ := Sequential.exists_value_of_mem hvalues mem
          exact absurd hown (raised.value_ne own)

theorem Spreads.evaluate_call (h : ev.Spreads seq s) {function : String} {args : List Expr}
    {values : List Argument} {f : Transform} (hvalues : seq.values w args = .ok values)
    (hfunction : seq.registry.find? function = some f) :
    outcome (ev.evaluate w (.call function args)) s = (f values, s) := by
  have hout : outcome (ev.node w (.call function args)) s = ((f values).map .series, s) := by
    rw [h.node_call hvalues, Registry.apply, hfunction]
  rw [Evaluator.evaluate]
  cases hresults : f values with
  | ok results =>
      rw [hresults] at hout
      rw [outcome_bind_ok hout, outcome_liftExcept]
      rfl
  | error e =>
      rw [hresults] at hout
      rw [outcome_bind_error hout]

-- Labelled by nodes, a nesting comes to the same series, with labels made of nodes of the leaves that their
-- names follow, or a number has no node there. With no number at all there are too few arguments.
theorem Spreads.evaluate_byNode (h : ev.Spreads seq s) (hbuiltin : ev.registry = .builtin) {e : Expr}
    (he : e.Nesting)
    (hanswers : ∀ pattern ∈ e.leaves, ∃ series, seq.answer (leafPattern pattern) w = .ok series)
    (hplain : ∀ leaf, seq.Leaf w e leaf → leaf.Plain) :
    ∃ results, outcome (ev.evaluate w e) s = (.ok results, s) ∧
      ((∃ leaf, seq.Leaf w e leaf) → results ≠ []) ∧
      (∀ r ∈ results, ∃ leaf, seq.Leaf w e leaf ∧ metricPath r.name = leaf.name) ∧
      ∀ numbers : List Float,
        (∃ labelled, outcome (ev.evaluate w (e.byNode numbers)) s = (.ok labelled, s) ∧
          List.Forall₂ (Relabelled (numbers.map nodeNumber)) results labelled) ∨
        (∃ r ∈ results, ∃ number ∈ numbers.map nodeNumber, OutOfRange (metricPath r.name) number ∧
          outcome (ev.evaluate w (e.byNode numbers)) s
            = (.error (.argument (ArgumentError.nodeOutOfRange number r.name).message), s)) ∨
        numbers = [] ∧ outcome (ev.evaluate w (e.byNode numbers)) s
          = (.error (.argument (ArgumentError.arity "aliasByNode" (.atLeast 2) 1).message), s) := by
  rw [h.registry] at hbuiltin
  obtain ⟨results, hvalue, hnamed⟩ := Sequential.exists_yields he hbuiltin hanswers hplain
  have hresults : outcome (ev.evaluate w e) s = (.ok results, s) := by
    obtain ⟨result, hout, hok, -⟩ := h.evaluate w e
    rw [hout, (hok results).mpr (by rw [Sequential.evaluate, hvalue]; rfl)]
  refine ⟨results, hresults, hnamed.nonempty, hnamed.path, fun numbers => ?_⟩
  have hnumbers : seq.values w (numbers.map .number) = .ok (numbers.map .number) := by
    rw [Sequential.values_eq_mapM, mapM_eq_ok_iff, List.map_map, List.map_map]
    rfl
  have hvalues : seq.values w (e :: numbers.map .number) = .ok (.series results :: numbers.map .number) := by
    rw [Sequential.values, hvalue, hnumbers]
    rfl
  have hfunction : seq.registry.find? "aliasByNode" = some (.ofChecked Builtin.labelByNodes) := by
    rw [hbuiltin]
    rfl
  rw [Expr.byNode, h.evaluate_call hvalues hfunction, Transform.ofChecked]
  rcases Builtin.labelByNodes_of_numbers results numbers with
    ⟨labelled, hok, hall⟩ | ⟨r, hr, number, hnumber, hrange, herror⟩ | ⟨hnone, herror⟩
  · rw [hok]
    exact .inl ⟨labelled, rfl, hall⟩
  · rw [herror]
    exact .inr (.inl ⟨r, hr, number, hnumber, hrange, rfl⟩)
  · rw [herror]
    exact .inr (.inr ⟨hnone, rfl⟩)

-- Calls and leaves beside each other, a factor that is negative and one that is infinite.
theorem evaluate_byNode_mixed :
    ∃ (seq : Sequential) (e : Expr) (results labelled : List (Series Float)),
      e = .call "sumSeries" [.series "p",
        .call "scale" [.call "maxSeries" [.series "p", .call "offset" [.series "q", .number (-1.5)]],
          .number (1 / 0)], .series "q"] ∧
      (seq.evaluator .reversed).Spreads seq () ∧
      outcome ((seq.evaluator .reversed).evaluate ⟨0, 3600⟩ e) () = (.ok results, ()) ∧
      results.map (·.name) =
        ["sumSeries(a.b,c.d.e,scale(maxSeries(a.b,c.d.e,offset(a.b,-1.5),offset(c.d.e,-1.5)),inf),a.b,c.d.e)"] ∧
      (∀ r ∈ results, metricPath r.name = "a.b" ∨ metricPath r.name = "c.d.e") ∧
      outcome ((seq.evaluator .reversed).evaluate ⟨0, 3600⟩ (e.byNode [1, -1])) () = (.ok labelled, ()) ∧
      List.Forall₂ (Relabelled [1, -1]) results labelled ∧ labelled.map (·.label) = ["d.e"] ∧
      ∃ r ∈ results, OutOfRange (metricPath r.name) 3 ∧
        outcome ((seq.evaluator .reversed).evaluate ⟨0, 3600⟩ (e.byNode [3])) ()
          = (.error (.argument (ArgumentError.nodeOutOfRange 3 r.name).message), ()) := by
  let seq : Sequential :=
    ⟨fun _ _ => .ok [⟨"a.b", "a.b", 0, 60, #[]⟩, ⟨"c.d.e", "c.d.e", 0, 60, #[]⟩], .builtin⟩
  let offset : Expr := .call "offset" [.series "q", .number (-1.5)]
  let scale : Expr := .call "scale" [.call "maxSeries" [.series "p", offset], .number (1 / 0)]
  let e : Expr := .call "sumSeries" [.series "p", scale, .series "q"]
  have hspreads : (seq.evaluator .reversed).Spreads seq () := seq.evaluator_spreads Schedule.reversed_fair ()
  have hoffset : offset.Nesting := .mapped (.inl rfl) (.leaf "q") _
  have hscale : scale.Nesting := by
    refine .mapped (.inr rfl) (.combined (a := .max) (by decide) (by simp) fun arg harg => ?_) _
    rcases List.mem_pair.mp harg with rfl | rfl
    · exact .leaf "p"
    · exact hoffset
  have he : e.Nesting := by
    refine .combined (a := .sum) (by decide) (by simp) fun arg harg => ?_
    simp only [List.mem_cons, List.not_mem_nil, or_false] at harg
    rcases harg with rfl | rfl | rfl
    · exact .leaf "p"
    · exact hscale
    · exact .leaf "q"
  have hnames : ∀ leaf, seq.Leaf ⟨0, 3600⟩ e leaf →
      leaf = ⟨"a.b", "a.b", 0, 60, #[]⟩ ∨ leaf = ⟨"c.d.e", "c.d.e", 0, 60, #[]⟩ := by
    rintro leaf ⟨_, _, series, hseries, hleaf⟩
    obtain rfl := Except.ok.inj hseries
    exact List.mem_pair.mp hleaf
  have hplain : ∀ leaf, seq.Leaf ⟨0, 3600⟩ e leaf → leaf.Plain := by
    intro leaf hleaf
    rcases hnames leaf hleaf with rfl | rfl
    · exact ⟨rfl, by simp⟩
    · exact ⟨rfl, by simp⟩
  obtain ⟨results, hresults, -, hpath, hlabel⟩ :=
    hspreads.evaluate_byNode rfl he (fun _ _ => ⟨_, rfl⟩) hplain
  have hmetric : ∀ r ∈ results, metricPath r.name = "a.b" ∨ metricPath r.name = "c.d.e" := by
    intro r hr
    obtain ⟨leaf, hleaf, hname⟩ := hpath r hr
    rw [hname]
    rcases hnames leaf hleaf with rfl | rfl
    · exact .inl rfl
    · exact .inr rfl
  have hname : (outcome ((seq.evaluator .reversed).evaluate ⟨0, 3600⟩ e) ()).1.toOption.map (·.map (·.name)) =
      some ["sumSeries(a.b,c.d.e,scale(maxSeries(a.b,c.d.e,offset(a.b,-1.5),offset(c.d.e,-1.5)),inf),a.b,c.d.e)"] := by
    decide +kernel +zetaReduce
  have hlabels : (outcome ((seq.evaluator .reversed).evaluate ⟨0, 3600⟩ (e.byNode [1, -1])) ()).1.toOption.map
      (·.map (·.label)) = some ["d.e"] := by
    decide +kernel +zetaReduce
  have hbeyond : (outcome ((seq.evaluator .reversed).evaluate ⟨0, 3600⟩ (e.byNode [3])) ()).1.toOption.isNone := by
    decide +kernel +zetaReduce
  have hpicks : [(1 : Float), -1].map nodeNumber = [1, -1] := by decide +kernel
  have hpick : [(3 : Float)].map nodeNumber = [3] := by decide +kernel
  rw [hresults] at hname
  rcases hlabel [1, -1] with ⟨labelled, hok, hall⟩ | ⟨_, _, _, _, _, herror⟩ | ⟨hnone, -⟩
  · rw [hok] at hlabels
    rw [hpicks] at hall
    refine ⟨seq, e, results, labelled, rfl, hspreads, hresults, Option.some.inj hname, hmetric, hok, hall,
      Option.some.inj hlabels, ?_⟩
    rcases hlabel [3] with ⟨_, hok, _⟩ | ⟨r, hr, number, hnumber, hrange, herror⟩ | ⟨hnone, -⟩
    · rw [hok] at hbeyond
      cases hbeyond
    · rw [hpick] at hnumber
      obtain rfl := List.mem_singleton.mp hnumber
      exact ⟨r, hr, hrange, herror⟩
    · cases hnone
  · rw [herror] at hlabels
    cases hlabels
  · cases hnone

end Evaluator

end Cadence
