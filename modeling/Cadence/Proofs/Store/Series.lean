import Cadence.Proofs.Evaluation.Safe
import Cadence.Proofs.Store.Fetch
import Cadence.Proofs.Window.Cover

namespace Cadence

open Sample Keyed

variable {σ : Type}

namespace Window

variable {w : Window} {tablePrefix : String} {partitions : List Partition}

theorem firstItem_le_firstSlot (w : Window) : w.firstItem ≤ w.firstSlot := by
  have hdvd : w.step ∣ w.firstItem :=
    Int.dvd_trans w.tier.step_dvd_itemWidth w.itemWidth_dvd_firstItem
  have hround := sub_emod_le_sub_emod w.step_pos w.firstItem_le
  rwa [Int.emod_eq_zero_of_dvd hdvd, Int.sub_zero] at hround

theorem lowest_le_firstSlot_of_lt (h : w.partitions tablePrefix = .ok partitions)
    (hlt : w.start.toInt < w.stop.toInt) : Timestamp.lowest ≤ w.firstSlot :=
  Int.le_trans (lowest_le_firstItem h hlt) w.firstItem_le_firstSlot

theorem lt_of_partitions (h : w.partitions tablePrefix = .ok partitions) (hsome : partitions ≠ []) :
    w.start.toInt < w.stop.toInt := by
  obtain ⟨p, hp⟩ := List.exists_mem_of_ne_nil partitions hsome
  exact ((w.mem_items_iff _).mp ((mem_partitions_iff h p).mp hp).1).1

theorem short_of_partitions (h : w.partitions tablePrefix = .ok partitions) (hsome : partitions ≠ []) :
    w.stop.toInt - w.firstSlot < Timestamp.highest := by
  have hlt := lt_of_partitions h hsome
  have hfew := itemCount_le_of_check hlt (partitions_eq_ok h).1
  have hlast : ¬w.firstItem + w.itemCount * w.tier.itemWidth < w.stop.toInt :=
    fun hmore => absurd ((w.lt_itemCount_iff _).mpr hmore) (Int.lt_irrefl _)
  have hspan : w.itemCount * w.tier.itemWidth ≤ maxPartitions * 31104000 :=
    calc w.itemCount * w.tier.itemWidth
        ≤ maxPartitions * w.tier.itemWidth :=
          Int.mul_le_mul_of_nonneg_right hfew (Int.le_of_lt w.tier.itemWidth_pos)
      _ ≤ _ := Int.mul_le_mul_of_nonneg_left (itemWidth_le w.tier) (by decide)
  have hslot := w.firstItem_le_firstSlot
  have hhigh : maxPartitions * 31104000 < Timestamp.highest := by decide
  omega

theorem bounds_of_mem_setOf {log : List Entry} {name : String} {t : Int}
    (h : t ∈ (w.setOf log partitions name).points) :
    partitions ≠ [] ∧ w.start.toInt ≤ t ∧ t ≤ w.stop.toInt := by
  rw [Std.ExtTreeMap.mem_iff_isSome_getElem?, w.getElem?_setOf] at h
  obtain ⟨value, hvalue⟩ := Option.isSome_iff_exists.mp h
  obtain ⟨p, hp, hshown⟩ := exists_of_lastSome hvalue
  obtain ⟨x, rfl, hstart, hstop, -⟩ := w.shown_eq_some_iff.mp hshown
  exact ⟨List.ne_nil_of_mem hp, Int64.le_iff_toInt_le.mp hstart, Int64.le_iff_toInt_le.mp hstop⟩

theorem exists_toSeries_setOf (h : w.partitions tablePrefix = .ok partitions)
    (hstart : Timestamp.lowest ≤ w.firstSlot) (log : List Entry) (name : String) :
    ∃ series, (w.setOf log partitions name).toSeries w.start.toInt = some series ∧ series.Fits w := by
  refine PointSet.exists_toSeries (w.step_setOf log partitions name) hstart ?_ ?_
  · intro t ht
    exact (bounds_of_mem_setOf ht).2
  · intro hsome
    obtain ⟨first, -, -, -, hfirst, -⟩ := PointSet.exists_bounds hsome
    exact short_of_partitions h (bounds_of_mem_setOf hfirst).1

end Window

variable {db : Database} {tables : List String} {log : List Entry}

theorem FetchUnit.outcome_run (hc : Contents db tables log) (w : Window) (u : FetchUnit) :
    ∃ part, outcome (FetchUnit.run backend w u) db = (.ok part, db) := by
  obtain ⟨part, hpart, -⟩ := FetchUnit.points_eq_ok hc w u
  exact ⟨part, congrArg (·, db) hpart⟩

-- A window with partitions has the series of the names that a pattern stands for.
theorem exists_series_iff (hc : Contents db tables log) {settings : StoreSettings} {w : Window}
    {partitions : List Partition} (hpartitions : w.partitions settings.tablePrefix = .ok partitions)
    (hstart : Timestamp.lowest ≤ w.firstSlot) (pattern : String) :
    ∃ series, outcome (backend.series settings pattern w) db = (.ok series, db) ∧
      (∀ r ∈ series, r.Fits w) ∧
      ∀ r, r ∈ series ↔
        ∃ name ∈ Names.expand pattern, (w.setOf log partitions name).toSeries w.start.toInt = some r := by
  have horder : ∀ count, (List.range count).Perm (List.range count) := fun _ => .refl _
  obtain ⟨sorted, -, hmem, hlist⟩ :=
    PointMap.exists_toList_ofList_map (w.name_setOf log partitions) (Names.expand pattern)
  have hsets : ∀ set ∈ sorted.map (w.setOf log partitions),
      ∃ r, set.toSeries w.start.toInt = some r ∧ r.Fits w :=
    List.forall_mem_map.mpr fun name _ => Window.exists_toSeries_setOf hpartitions hstart log name
  obtain ⟨series, hseries, hfits⟩ := exists_mapM_eq_some hsets
  have hfetch := outcome_series (outcome_fetchMap_eq hc horder hpartitions pattern)
  rw [PointMap.toSeries, hlist, hseries] at hfetch
  refine ⟨series, hfetch, hfits, fun r => ?_⟩
  rw [mapM_eq_some_iff, List.map_map] at hseries
  have hall : some r ∈ series.map some ↔ r ∈ series := by simp
  rw [← hall, ← hseries, List.mem_map]
  simp only [hmem, Function.comp_apply]

theorem safe_series (hc : Contents db tables log) (settings : StoreSettings) {w : Window}
    (hstart : Timestamp.lowest ≤ w.firstSlot) (pattern : String) :
    Safe (fun series => ∀ x ∈ series, x.Fits w) (backend.series settings pattern w)
      (backend.series settings pattern w) db := by
  cases hpartitions : w.partitions settings.tablePrefix with
  | error e =>
      have hpoints : outcome (backend.points settings pattern w) db = (.error (.ofWindow e), db) := by
        rw [Backend.points, outcome_liftAction, outcome_fetchMap_of_error settings _ hpartitions]
        rfl
      have hseries : outcome (backend.series settings pattern w) db = (.error (.ofWindow e), db) :=
        outcome_bind_error hpoints _
      exact ⟨rfl, by rw [hseries], by rw [hseries]; rfl⟩
  | ok partitions =>
      obtain ⟨series, hseries, hfits, -⟩ := exists_series_iff hc hpartitions hstart pattern
      refine ⟨rfl, by rw [hseries], ?_⟩
      rw [hseries]
      exact hfits

end Cadence
