import Cadence.Proofs.Service.Render
import Cadence.Proofs.Store.Alignment

namespace Cadence

open Keyed Target

variable {db : Database} {schedule : Schedule} {w : Window} {partitions : List Partition}

-- An evaluation does the same as itself, and all of its series are aligned.
theorem agrees_aligned (h : Reached db) (settings : StoreSettings) (hfair : schedule.Fair)
    (hpartitions : w.partitions settings.tablePrefix = .ok partitions) (hlt : w.start < w.stop) :
    Evaluator.Agrees (Grid.Aligned w) w (settings.evaluator schedule) (settings.evaluator schedule) db := by
  have hlow := Window.lowest_le_firstSlot_of_lt hpartitions (Int64.lt_iff_toInt_lt.mp hlt)
  refine ⟨hfair, rfl, Registry.builtin_aligned hlow, ?_⟩
  intro pattern
  obtain ⟨series, hseries, -, haligned⟩ := aligned_series h settings hpartitions hlt pattern
  have hfetch : outcome ((settings.evaluator schedule).fetch pattern w) db = (.ok series, db) := hseries
  refine ⟨rfl, by rw [hfetch], ?_⟩
  rw [hfetch]
  exact haligned

-- From what writers have left, every series of an evaluation is aligned. So are those of the arguments of a
-- call, in whatever order the arguments complete, and the grid of an aggregation keeps them as they are.
theorem evaluate_aligned (h : Reached db) (settings : StoreSettings) (hfair : schedule.Fair)
    (hpartitions : w.partitions settings.tablePrefix = .ok partitions) (hlt : w.start < w.stop) :
    (∀ e series db', outcome ((settings.evaluator schedule).evaluate w e) db = (.ok series, db') →
      ∀ s ∈ series, s.grid.Aligned w) ∧
    ∀ args values db',
      outcome (Fanout.runTasks
          (schedule [] (Evaluator.argTasks (settings.evaluator schedule) w 0 args).length)
          (Evaluator.argTasks (settings.evaluator schedule) w 0 args)) db = (.ok values, db') →
      ∀ function series, allSeries function (Evaluator.argValues args values) = .ok series →
        series ≠ [] → Grid.commonStep series = w.step ∧ (Grid.ofSeries series).Aligned w ∧
          (Grid.ofSeries series).Keeps series := by
  have hagrees := agrees_aligned h settings hfair hpartitions hlt
  have hlow := Window.lowest_le_firstSlot_of_lt hpartitions (Int64.lt_iff_toInt_lt.mp hlt)
  constructor
  · intro e series db' hrun
    have hsound := (hagrees.evaluate e).sound
    rw [hrun] at hsound
    exact hsound
  · intro args values db' hrun function series hseries hne
    have hsound := (hagrees.argTasks args).sound
    have hruns : outcome (Fanout.runTasks
        ((settings.evaluator schedule).schedule []
          (Evaluator.argTasks (settings.evaluator schedule) w 0 args).length)
        (Evaluator.argTasks (settings.evaluator schedule) w 0 args)) db = (.ok values, db') := hrun
    rw [hruns] at hsound
    have haligned := on_allSeries (Evaluator.on_argValues hsound) hseries
    exact ⟨Grid.commonStep_eq haligned hne, Grid.ofSeries_aligned haligned hne hlow⟩

-- A metric that was written, by itself and as the argument of a call.
theorem evaluate_aligned_written :
    ∃ db series,
      Insertion.leaves ⟨⟨"g", 1⟩, ⟨"m", [⟨90, 1⟩]⟩⟩ (Database.empty (some Sample.mergeRule)) = db ∧
      Schedule.reversed.Fair ∧ (⟨0, 3600⟩ : Window).partitions "g" = .ok [⟨"g-1m1h-0", 0⟩] ∧
      outcome ((StoreSettings.evaluator ⟨"g", 1⟩ .reversed).evaluate ⟨0, 3600⟩ (.series "m")) db
        = (.ok series, db) ∧
      (∀ s ∈ series, s.grid.Aligned ⟨0, 3600⟩) ∧
      series ≠ [] ∧ (Grid.ofSeries series).Keeps series := by
  have hreached := Reached.empty.leaves ⟨⟨"g", 1⟩, ⟨"m", [⟨90, 1⟩]⟩⟩
  generalize Insertion.leaves _ _ = db at hreached ⊢
  have hpartitions : (⟨0, 3600⟩ : Window).partitions "g" = .ok [⟨"g-1m1h-0", 0⟩] := rfl
  have hlt : (⟨0, 3600⟩ : Window).start < (⟨0, 3600⟩ : Window).stop := by decide
  have hnames : Names.expand "m" = ["m"] := Names.expand_plain (by decide) (by decide) (by decide)
  have hpattern : Evaluator.leafPattern "m" = "m" := by
    rw [Evaluator.leafPattern, hnames]
    rfl
  obtain ⟨series, hseries, hsome, -⟩ := aligned_series hreached ⟨"g", 1⟩ hpartitions hlt "m"
  have hne : series ≠ [] := hsome (by rw [hnames]; exact List.cons_ne_nil _ _)
  have hfetch : ∀ schedule, outcome ((StoreSettings.evaluator ⟨"g", 1⟩ schedule).fetch
      (Evaluator.leafPattern "m") ⟨0, 3600⟩) db = (.ok series, db) := by
    intro schedule
    rw [hpattern]
    exact hseries
  have hrun := Evaluator.outcome_evaluate_series (hfetch .reversed)
  let tasks := Evaluator.argTasks (StoreSettings.evaluator ⟨"g", 1⟩ .reversed) ⟨0, 3600⟩ 0 [.series "m"]
  have hdone : Fanout.Completes ([0].filterMap fun task => tasks[task]?.map (task, ·)) db
      [(0, .ok (.series series))] db :=
    .cons (Evaluator.outcome_node_series (hfetch (Schedule.reversed.below 0))) .nil
  have htasks : outcome (Fanout.runTasks [0] tasks) db = (.ok [.series series], db) :=
    Fanout.outcome_runTasks_of_completes hdone
  have hall : allSeries "sumSeries" (Evaluator.argValues [.series "m"] [.series series])
      = .ok series := by
    rw [Evaluator.argValues_eq (.task rfl .nil)]
    exact congrArg Except.ok List.flatten_singleton
  obtain ⟨hevaluate, hcalls⟩ :=
    evaluate_aligned hreached ⟨"g", 1⟩ Schedule.reversed_fair hpartitions hlt
  exact ⟨db, series, rfl, Schedule.reversed_fair, hpartitions, hrun, hevaluate _ _ _ hrun, hne,
    (hcalls _ _ _ htasks _ _ hall hne).2.2⟩

end Cadence
