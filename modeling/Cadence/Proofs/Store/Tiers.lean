import Cadence.Proofs.Store.ReadBack

namespace Cadence.Keyed

open Sample Cadence.Metric

-- Whether a tier holds a sample of a metric, in an item of a table that was created.
def Stores (db : Database) (tablePrefix : String) (tier : Tier) (name : String) (s : Sample) : Prop :=
  ∃ epoch item, ensureTable db (tier.tableName tablePrefix epoch) = .ok () ∧
    Holds db (tier.tableName tablePrefix epoch) item name s

-- Samples that were put into the item of their slots and the table of that item.
def Entry.Placed (e : Entry) : Prop :=
  ∃ tablePrefix, ∃ tier : Tier, e.table = tier.tableName tablePrefix (tier.tableEpoch e.item) ∧
    ∀ s ∈ e.samples, tier.itemEpoch s.time = e.item

theorem mem_puts {tablePrefix : String} {m : Metric} {p : ItemPut} (hp : p ∈ m.puts tablePrefix) :
    ∃ tier, p.table = tier.tableName tablePrefix (tier.tableEpoch p.item) ∧
      p.samples = (slotted tier m.samples).filter fun s => tier.itemEpoch s.time = p.item := by
  obtain ⟨tier, -, hp⟩ := List.mem_flatMap.mp hp
  obtain ⟨item, -, rfl⟩ := List.mem_map.mp hp
  exact ⟨tier, rfl, rfl⟩

theorem placed_of_mem_puts {tablePrefix : String} {m : Metric} {p : ItemPut}
    (hp : p ∈ m.puts tablePrefix) (name : String) : (entryOf name p).Placed := by
  obtain ⟨tier, htable, hsamples⟩ := mem_puts hp
  refine ⟨tablePrefix, tier, htable, ?_⟩
  intro s hs
  change s ∈ p.samples at hs
  rw [hsamples] at hs
  exact of_decide_eq_true (List.mem_filter.mp hs).2

theorem placed_of_mem_entries {tablePrefix : String} {ms : List Metric} {e : Entry}
    (he : e ∈ entries tablePrefix ms) : e.Placed := by
  obtain ⟨m, -, he⟩ := List.mem_flatMap.mp he
  obtain ⟨p, hp, rfl⟩ := List.mem_map.mp he
  exact placed_of_mem_puts hp m.name

variable {db : Database} {tables : List String} {log : List Entry}

theorem exists_of_lastAt_itemSamples {t : Timestamp} {table : String} {item : Timestamp}
    {name : String} {bits : UInt64} (h : lastAt t (itemSamples log table item name) = some bits) :
    ∃ e ∈ log, e.IsOf table item name ∧ ∃ s ∈ e.samples, s.time = t := by
  obtain ⟨s, hs, ht, -⟩ := exists_of_lastUnder h
  obtain ⟨e, he, hs⟩ := List.mem_flatMap.mp hs
  obtain ⟨he, hof⟩ := List.mem_filter.mp he
  exact ⟨e, he, by simpa using hof, s, hs, ht⟩

-- What was put last into a slot, at the place that the slot has.
def lastPut (log : List Entry) (tablePrefix : String) (tier : Tier) (name : String) (t : Timestamp) :
    Option UInt64 :=
  lastAt t (itemSamples log (tier.tableName tablePrefix (tier.tableEpoch t)) (tier.itemEpoch t) name)

-- Where all samples lie in their places, a tier holds what was put last into each slot.
theorem stores_iff (hc : Contents db tables log) (hplaced : ∀ e ∈ log, e.Placed)
    (tablePrefix : String) (tier : Tier) (name : String) (s : Sample) :
    Stores db tablePrefix tier name s
      ↔ lastPut log tablePrefix tier name s.time = some s.bits := by
  constructor
  · rintro ⟨epoch, item, hensure, hholds⟩
    have htable : tier.tableName tablePrefix epoch ∈ tables := by
      apply Classical.byContradiction
      intro hnot
      rw [ensureTable_error hc hnot] at hensure
      cases hensure
    have hlast := (holds_iff hc (hc.short _ htable) item name s).mp hholds
    obtain ⟨e, he, ⟨hetable, rfl, -⟩, r, hr, hrtime⟩ := exists_of_lastAt_itemSamples hlast
    obtain ⟨other, tier', hplace, hsamples⟩ := hplaced e he
    obtain ⟨rfl, -, rfl⟩ := Tier.tableName_injective (hplace.symm.trans hetable)
    rwa [← hsamples r hr, hrtime, Tier.tableEpoch_itemEpoch] at hlast
  · intro hlast
    obtain ⟨e, he, ⟨htable, -, -⟩, -⟩ := exists_of_lastAt_itemSamples hlast
    have hcreated := htable ▸ hc.created e he
    exact ⟨_, _, ensureTable_ok hc hcreated, (holds_iff hc (hc.short _ hcreated) _ name s).mpr hlast⟩

theorem stores_entries_iff {tablePrefix : String} {ms : List Metric}
    (hc : Contents db tables (entries tablePrefix ms)) (tier : Tier) (name : String) (s : Sample) :
    Stores db tablePrefix tier name s
      ↔ lastAt s.time (slotted tier (samplesOf name ms)) = some s.bits := by
  have hitem := lastAt_itemSamples_entries tablePrefix ms tier (tier.itemEpoch s.time) name s.time
    s.bits
  rw [Tier.tableEpoch_itemEpoch] at hitem
  rw [stores_iff hc fun e he => placed_of_mem_entries he, lastPut, hitem]
  exact and_iff_right rfl

end Cadence.Keyed

namespace Cadence

open Sample Keyed Cadence.Metric

theorem Tier.step_dvd_step {fine coarse : Tier} (h : [fine, coarse].Sublist Tier.all) :
    fine.step ∣ coarse.step := by
  revert h
  cases fine <;> cases coarse <;> decide

theorem Tier.slot_slot {fine coarse : Tier} (h : fine.step ∣ coarse.step) (t : Timestamp) :
    coarse.slot (fine.slot t) = coarse.slot t :=
  t.floor_floor fine.step_pos coarse.step_pos h

-- The last sample of a coarse slot is also the last one of its own fine slot.
theorem exists_finer_slot {fine coarse : Tier} (h : fine.step ∣ coarse.step) {samples : List Sample}
    {t : Timestamp} {bits : UInt64} (hlast : lastAt t (slotted coarse samples) = some bits) :
    ∃ u, coarse.slot u = t ∧ lastAt u (slotted fine samples) = some bits := by
  obtain ⟨before, last, after, hsamples, rfl, hafter, hbits⟩ :=
    (lastAt_slotted_eq_some_iff coarse samples t bits).mp hlast
  refine ⟨fine.slot last.time, Tier.slot_slot h last.time, ?_⟩
  refine (lastAt_slotted_eq_some_iff fine samples _ bits).mpr
    ⟨before, last, after, hsamples, rfl, ?_, hbits⟩
  intro s hs hsame
  apply hafter s hs
  rw [← Tier.slot_slot h s.time, hsame, Tier.slot_slot h last.time]

theorem exists_coarser_bits {fine coarse : Tier} (h : fine.step ∣ coarse.step)
    {samples : List Sample} {t : Timestamp} {bits : UInt64}
    (hlast : lastAt t (slotted fine samples) = some bits) :
    ∃ others, lastAt (coarse.slot t) (slotted coarse samples) = some others := by
  obtain ⟨before, last, after, hsamples, rfl, -, -⟩ :=
    (lastAt_slotted_eq_some_iff fine samples t bits).mp hlast
  rw [Tier.slot_slot h]
  cases hcoarse : lastAt (coarse.slot last.time) (slotted coarse samples) with
  | some others => exact ⟨others, rfl⟩
  | none =>
      have hmem : last ∈ samples := by simp [hsamples]
      exact absurd rfl ((lastUnder_eq_none_iff _ _ _ _).mp hcoarse _ (List.mem_map_of_mem hmem))

-- After any writes the slots of a coarser tier are the slots of a finer one, rounded down, and the
-- value of a coarse slot is that of a fine slot in it.
theorem coarser_tier_stores {settings : StoreSettings} {ms : List Metric} {db : Database}
    (hwrite : outcome (backend.writeAll settings ms) (Database.empty (some mergeRule))
      = (.ok (), db))
    {fine coarse : Tier} (hfiner : [fine, coarse].Sublist Tier.all) (name : String) :
    (∀ t, (∃ bits, Stores db settings.tablePrefix coarse name ⟨t, bits⟩)
      ↔ ∃ u bits, Stores db settings.tablePrefix fine name ⟨u, bits⟩ ∧ coarse.slot u = t) ∧
    ∀ t bits, Stores db settings.tablePrefix coarse name ⟨t, bits⟩ →
      ∃ u, coarse.slot u = t ∧ Stores db settings.tablePrefix fine name ⟨u, bits⟩ := by
  have hdvd := Tier.step_dvd_step hfiner
  obtain ⟨tables, hc⟩ := contents_of_writes hwrite
  simp only [stores_entries_iff hc]
  refine ⟨?_, fun t bits hlast => exists_finer_slot hdvd hlast⟩
  intro t
  constructor
  · rintro ⟨bits, hlast⟩
    obtain ⟨u, hu, hfine⟩ := exists_finer_slot hdvd hlast
    exact ⟨u, bits, hfine, hu⟩
  · rintro ⟨u, bits, hfine, rfl⟩
    exact exists_coarser_bits hdvd hfine

-- The later of two samples is what the day has; the minute of it has the same.
theorem coarser_tier_stores_day :
    ∃ db, outcome (backend.writeAll ⟨"g", 1⟩ [⟨"m", [⟨30, 1⟩, ⟨400, 2⟩]⟩])
        (Database.empty (some mergeRule)) = (.ok (), db) ∧
      [Tier.minute, Tier.day].Sublist Tier.all ∧ Stores db "g" .day "m" ⟨0, 2⟩ ∧
      ∃ u, Tier.day.slot u = 0 ∧ Stores db "g" .minute "m" ⟨u, 2⟩ := by
  have hwritten : ∃ db, outcome (backend.writeAll ⟨"g", 1⟩ [⟨"m", [⟨30, 1⟩, ⟨400, 2⟩]⟩])
      (Database.empty (some mergeRule)) = (.ok (), db) :=
    exists_writeAll_ok contents_empty (by decide) (by simp)
  obtain ⟨db, hdb⟩ := hwritten
  obtain ⟨tables, hc⟩ := contents_of_writes hdb
  have hday : Stores db "g" .day "m" ⟨0, 2⟩ :=
    (stores_entries_iff hc .day "m" ⟨0, 2⟩).mpr (by decide)
  have hfiner : [Tier.minute, Tier.day].Sublist Tier.all := by decide
  exact ⟨db, hdb, hfiner, hday, (coarser_tier_stores hdb hfiner "m").2 0 2 hday⟩

end Cadence
