import Cadence.Proofs.Store.Records
import Cadence.Proofs.Store.Series
import Cadence.Proofs.Transform.Alignment

namespace Cadence

open Keyed Sample

variable {w : Window} {tablePrefix : String} {partitions : List Partition} {log : List Entry}

theorem Insertion.slotted_of_mem_entries {i : Insertion} {e : Entry} (he : e ∈ i.entries) :
    e.Slotted i.settings.tablePrefix := by
  obtain ⟨p, hp, rfl⟩ := List.mem_map.mp (i.entries_sublist.subset he)
  exact slotted_of_mem_puts hp _

-- A slot of a tier is a multiple of its step, unless it is the lowest timestamp.
theorem Tier.step_dvd_of_slot {tier : Tier} {t : Timestamp} (h : tier.slot t = t)
    (hlow : Timestamp.lowest < t.toInt) : tier.step ∣ t.toInt := by
  have hfloor := t.toInt_floor tier.step_pos
  have hsame : t.floor tier.step = t := h
  rw [hsame, floorTo] at hfloor
  exact Int.dvd_of_emod_eq_zero (by omega)

namespace Window

-- No table begins at the lowest timestamp, which is a multiple of no step.
theorem lowest_lt_start (h : w.partitions tablePrefix = .ok partitions) (hlt : w.start < w.stop) :
    Timestamp.lowest < w.start.toInt := by
  have hitem := lowest_le_firstItem h (Int64.lt_iff_toInt_lt.mp hlt)
  have hdvd : w.tier.step ∣ w.firstItem :=
    Int.dvd_trans w.tier.step_dvd_itemWidth w.itemWidth_dvd_firstItem
  have hne : w.firstItem ≠ Timestamp.lowest := by
    intro heq
    rw [heq] at hdvd
    revert hdvd
    cases w.tier <;> decide
  have hstart := w.firstItem_le
  omega

-- What a window holds of a name are slots of its tier.
theorem step_dvd_of_mem_setOf (hlog : ∀ e ∈ log, ∃ other, e.Slotted other)
    (h : w.partitions tablePrefix = .ok partitions) (hlt : w.start < w.stop) {name : String} {t : Int}
    (ht : t ∈ (w.setOf log partitions name).points) : w.step ∣ t := by
  have hlow := lowest_lt_start h hlt
  rw [Std.ExtTreeMap.mem_iff_isSome_getElem?, w.getElem?_setOf] at ht
  obtain ⟨value, hvalue⟩ := Option.isSome_iff_exists.mp ht
  obtain ⟨p, hp, hshown⟩ := exists_of_lastSome hvalue
  obtain ⟨x, rfl, hstart, -, bits, hlast, -⟩ := w.shown_eq_some_iff.mp hshown
  obtain ⟨s, hs, rfl, -⟩ := exists_of_lastUnder hlast
  rw [((mem_partitions_iff h p).mp hp).2] at hs
  have hslot := (slots_of_mem_itemSamples hlog hs).1
  have hstart := Int64.le_iff_toInt_le.mp hstart
  exact Tier.step_dvd_of_slot hslot (by omega)

end Window

variable {db : Database}

theorem aligned_series (h : Reached db) (settings : StoreSettings)
    (hpartitions : w.partitions settings.tablePrefix = .ok partitions) (hlt : w.start < w.stop)
    (pattern : String) :
    ∃ series, outcome (backend.series settings pattern w) db = (.ok series, db) ∧
      (Names.expand pattern ≠ [] → series ≠ []) ∧ ∀ s ∈ series, s.grid.Aligned w := by
  obtain ⟨tables, log, hf, hlog⟩ := h.filled_of_entries (P := fun e => ∃ other, e.Slotted other)
    fun i e he => ⟨_, Insertion.slotted_of_mem_entries he⟩
  have horder : ∀ count, (List.range count).Perm (List.range count) := fun _ => .refl _
  have hlow := Window.lowest_le_firstSlot_of_lt hpartitions (Int64.lt_iff_toInt_lt.mp hlt)
  obtain ⟨sorted, -, hmem, hlist⟩ :=
    PointMap.exists_toList_ofList_map (w.name_setOf log partitions) (Names.expand pattern)
  obtain ⟨series, hseries, haligned⟩ : ∃ series,
      (PointMap.ofList ((Names.expand pattern).map (w.setOf log partitions))).toSeries w.start.toInt
        = some series ∧ ∀ r ∈ series, r.grid.Aligned w := by
    refine exists_mapM_eq_some fun set hset => ?_
    rw [hlist] at hset
    obtain ⟨name, -, rfl⟩ := List.mem_map.mp hset
    obtain ⟨r, hr, -⟩ := Window.exists_toSeries_setOf hpartitions hlow log name
    refine ⟨r, hr, PointSet.toSeries_aligned (w.step_setOf log partitions name) (fun t ht => ?_) hr⟩
    obtain ⟨-, hstart, hstop⟩ := Window.bounds_of_mem_setOf ht
    exact ⟨hstart, hstop, Window.step_dvd_of_mem_setOf hlog hpartitions hlt ht⟩
  have hfetch := outcome_series (outcome_fetchMap_eq hf.toContents horder hpartitions pattern)
  rw [hseries] at hfetch
  refine ⟨series, hfetch, fun hnames hnil => ?_, haligned⟩
  obtain ⟨name, hname⟩ := List.exists_mem_of_ne_nil _ hnames
  rw [PointMap.toSeries, mapM_eq_some_iff, hnil, hlist, List.map_map, List.map_nil,
    List.map_eq_nil_iff] at hseries
  exact List.ne_nil_of_mem ((hmem name).mpr hname) hseries

end Cadence
