import Cadence.Proofs.Store.WritePlan

namespace Cadence

open Keyed Cadence.Metric

namespace Metric

-- The samples of a metric in the table and the item of an instant, by their timestamps as they came.
def around (m : Metric) (tier : Tier) (t : Timestamp) : List Sample :=
  m.samples.filter fun s => tier.tableEpoch s.time = tier.tableEpoch t ∧ tier.itemEpoch s.time = tier.itemEpoch t

-- What is put for the samples around an instant: they are rounded down once their item has been found.
def putAround (tablePrefix : String) (m : Metric) (tier : Tier) (t : Timestamp) : Entry where
  table := tier.tableName tablePrefix (tier.tableEpoch t)
  item := tier.itemEpoch t
  name := m.name
  samples := (m.around tier t).map fun s => ⟨s.time.floor tier.step, s.bits⟩

-- The item of a slot tells the table and the item that the timestamp had.
theorem filter_floored (m : Metric) (tier : Tier) (t : Timestamp) :
    (m.floored tier).filter (fun s => tier.itemEpoch s.time = tier.itemEpoch t)
      = (m.around tier t).map fun s => ⟨s.time.floor tier.step, s.bits⟩ := by
  rw [floored, around, List.filter_map]
  congr 1
  refine List.filter_congr fun s _ => ?_
  have hslot : tier.itemEpoch (s.time.floor tier.step) = tier.itemEpoch s.time := tier.itemEpoch_slot s.time
  have htable : tier.itemEpoch s.time = tier.itemEpoch t → tier.tableEpoch s.time = tier.tableEpoch t := by
    intro hitem
    rw [← tier.tableEpoch_itemEpoch s.time, hitem, tier.tableEpoch_itemEpoch]
  simp only [Function.comp_apply, hslot, decide_eq_decide]
  exact ⟨fun hitem => ⟨htable hitem, hitem⟩, And.right⟩

theorem mem_entries_calls (tablePrefix : String) (m : Metric) (e : Entry) :
    e ∈ BackendCall.entries ((m.calls tablePrefix).map (BackendCall.ofWrite m.name))
      ↔ ∃ tier : Tier, ∃ s ∈ m.samples, e = m.putAround tablePrefix tier s.time := by
  have hput : ∀ (tier : Tier) (t : Timestamp),
      (⟨tier.tableName tablePrefix (tier.tableEpoch (tier.itemEpoch t)), tier.itemEpoch t, m.name,
        (m.floored tier).filter fun s => tier.itemEpoch s.time = tier.itemEpoch t⟩ : Entry)
      = m.putAround tablePrefix tier t := by
    intro tier t
    rw [filter_floored, tier.tableEpoch_itemEpoch]
    rfl
  have hentries : BackendCall.entries ((m.calls tablePrefix).map (BackendCall.ofWrite m.name))
      = Tier.all.flatMap fun tier => BackendCall.entries
          ((withTables [] (tierPuts tablePrefix m.samples tier)).map (BackendCall.ofWrite m.name)) := by
    rw [calls_eq_flatMap, List.map_flatMap, BackendCall.entries, List.filterMap_flatMap]
    rfl
  simp only [hentries, List.mem_flatMap, entries_tier, List.mem_map]
  constructor
  · rintro ⟨tier, -, item, hitem, rfl⟩
    obtain ⟨r, hr, rfl⟩ := (mem_itemEpochs tier _ item).mp hitem
    obtain ⟨s, hs, rfl⟩ := List.mem_map.mp hr
    refine ⟨tier, s, hs, ?_⟩
    rw [← hput]
    have hslot : tier.itemEpoch (s.time.floor tier.step) = tier.itemEpoch s.time := tier.itemEpoch_slot s.time
    simp only [hslot]
  · rintro ⟨tier, s, hs, rfl⟩
    refine ⟨tier, tier.mem_all, tier.itemEpoch s.time, ?_, hput tier s.time⟩
    exact (mem_itemEpochs tier _ _).mpr ⟨_, List.mem_map_of_mem hs, tier.itemEpoch_slot s.time⟩

end Metric

-- A backend that never fails is asked for all puts of a metric that has a name.
theorem Backend.Unfailing.exists_write {σ : Type} {b : Backend σ} (h : b.Unfailing) (settings : StoreSettings)
    {m : Metric} (hname : m.name ≠ "") (s : σ) :
    ∃ s', outcome (b.noting.write settings m) (s, [])
      = (.ok (), s', (m.calls settings.tablePrefix).map (BackendCall.ofWrite m.name)) := by
  obtain ⟨s', -, hnoted⟩ := h.performAll m.name (m.calls settings.tablePrefix) s []
  refine ⟨s', ?_⟩
  rw [Backend.write, if_neg hname, outcome_liftAction, hnoted]
  rfl

-- Rounding down to a width and then to a multiple of it is rounding down once, keeps the order and raises
-- nothing. A write, which looks for the tables and the items of slots, finds those of the timestamps.
theorem floor_composes (t : Timestamp) {a b : Int} (ha : 0 < a) (hb : 0 < b) (hdvd : a ∣ b) :
    (t.floor a).floor b = t.floor b ∧
    (t.floor a).floor a = t.floor a ∧
    (∀ u, t ≤ u → t.floor a ≤ u.floor a) ∧
    t.floor a ≤ t ∧
    (∃ below, IsGreatest {i : Int | a ∣ i ∧ i ≤ t.toInt} below ∧
      (t.floor a).toInt = if below < Timestamp.lowest then Timestamp.lowest else below) ∧
    ∀ {σ : Type} (backend : Backend σ), backend.Unfailing → ∀ (settings : StoreSettings) (m : Metric) (s : σ),
      m.name ≠ "" → ∃ s' calls, outcome (backend.noting.write settings m) (s, []) = (.ok (), s', calls) ∧
        ∀ e, e ∈ BackendCall.entries calls
          ↔ ∃ tier, ∃ r ∈ m.samples, e = m.putAround settings.tablePrefix tier r.time := by
  refine ⟨t.floor_floor ha hb hdvd, t.floor_floor ha ha (Int.dvd_refl a), fun u h => Timestamp.floor_mono h ha,
    t.floor_le ha, ⟨_, isGreatest_sub_emod t.toInt ha, t.toInt_floor_eq ha⟩, ?_⟩
  intro σ backend hbackend settings m s hname
  obtain ⟨s', hwritten⟩ := hbackend.exists_write settings hname s
  exact ⟨s', _, hwritten, m.mem_entries_calls settings.tablePrefix⟩

-- A minute is left of the timestamp, an hour is not.
theorem floor_composes_lowest :
    let t : Timestamp := -9223372036854775799
    let m : Metric := ⟨"m", [⟨t, 1⟩, ⟨3719, 2⟩]⟩
    (0 < (60 : Int) ∧ 0 < (3600 : Int) ∧ (60 : Int) ∣ 3600) ∧
      t.floor 60 = -9223372036854775800 ∧ (t.floor 60).floor 3600 = t.floor 3600 ∧
      t.floor 3600 = -9223372036854775808 ∧
      (∃ below, IsGreatest {i : Int | 60 ∣ i ∧ i ≤ t.toInt} below ∧
        (t.floor 60).toInt = if below < Timestamp.lowest then Timestamp.lowest else below) ∧
      ∃ backend : Backend Unit, backend.Unfailing ∧ m.name ≠ "" ∧ ∃ s' calls,
        outcome (backend.noting.write ⟨"g", 1⟩ m) ((), []) = (.ok (), s', calls) ∧
        ∀ e, e ∈ BackendCall.entries calls ↔ ∃ tier, ∃ r ∈ m.samples, e = m.putAround "g" tier r.time := by
  intro t m
  let backend : Backend Unit := ⟨pure (), fun _ => pure (), fun _ _ _ => pure [], fun _ _ _ _ => pure ()⟩
  have hbackend : backend.Unfailing := ⟨fun _ _ => rfl, fun _ _ _ _ _ => rfl⟩
  have hname : m.name ≠ "" := by decide
  obtain ⟨hcompose, -, -, -, hgreatest, hwrite⟩ :=
    floor_composes t (show 0 < (60 : Int) by decide) (show 0 < (3600 : Int) by decide) (by decide)
  exact ⟨⟨by decide, by decide, by decide⟩, by decide, hcompose, by decide, hgreatest, backend, hbackend, hname,
    hwrite backend hbackend ⟨"g", 1⟩ m () hname⟩

end Cadence
