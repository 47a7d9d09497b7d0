import Cadence.Proofs.Store.Fetch
import Cadence.Proofs.Store.Write
import Cadence.Proofs.Window

namespace Cadence

open Cadence.Metric Sample Keyed

-- The last sample in a slot is the one behind which nothing else falls into the slot.
theorem lastAt_slotted_eq_some_iff (tier : Tier) (samples : List Sample) (t : Timestamp)
    (bits : UInt64) :
    lastAt t (slotted tier samples) = some bits ↔ ∃ before last after,
      samples = before ++ last :: after ∧ tier.slot last.time = t ∧
        (∀ s ∈ after, tier.slot s.time ≠ t) ∧ last.bits = bits := by
  have hslotted : lastAt t (slotted tier samples)
      = lastUnder (fun s : Sample => tier.slot s.time) Sample.bits t samples := by
    rw [lastAt, lastUnder, slotted, lastSome_map]
    rfl
  rw [hslotted, lastUnder_eq_some_iff_append]

variable {settings : StoreSettings} {db : Database} {tables : List String}

-- What a window shows of one of its partitions is what was written last in the slots there.
theorem shows_entries_iff (ms : List Metric) {w : Window} {partitions : List Partition}
    (hpartitions : w.partitions settings.tablePrefix = .ok partitions) {p : Partition}
    (hp : p ∈ partitions) (name : String) (t : Int) (value : Option Float) :
    w.Shows (itemSamples (entries settings.tablePrefix ms) p.table p.item name) t value
      ↔ ∃ x : Timestamp, x.toInt = t ∧ w.start ≤ x ∧ x ≤ w.stop ∧
        w.partitionOf settings.tablePrefix x = p ∧
        ∃ bits, lastAt x (slotted w.tier (samplesOf name ms)) = some bits ∧
          defined (Float.ofBits bits) = value := by
  have htable := ((Window.mem_partitions_iff hpartitions p).mp hp).2
  have hpartition : ∀ x, w.partitionOf settings.tablePrefix x = p ↔ w.tier.itemEpoch x = p.item := by
    intro x
    cases p
    simp only at htable
    simp only [Window.partitionOf, Partition.mk.injEq, htable]
    constructor
    · exact And.right
    · rintro rfl
      exact ⟨by rw [Tier.tableEpoch_itemEpoch], rfl⟩
  simp only [Window.Shows, htable, lastAt_itemSamples_entries, hpartition]
  constructor
  · rintro ⟨x, hx, hstart, hstop, bits, ⟨hitem, hlast⟩, hvalue⟩
    exact ⟨x, hx, hstart, hstop, hitem, bits, hlast, hvalue⟩
  · rintro ⟨x, hx, hstart, hstop, hitem, bits, hlast, hvalue⟩
    exact ⟨x, hx, hstart, hstop, bits, ⟨hitem, hlast⟩, hvalue⟩

variable {ms : List Metric}

theorem outcome_fetchMap_entries (hc : Contents db tables (entries settings.tablePrefix ms))
    {order : Nat → Fanout.Order} (horder : ∀ count, (order count).Perm (List.range count))
    {w : Window} {partitions : List Partition}
    (hpartitions : w.partitions settings.tablePrefix = .ok partitions) (pattern : String) :
    ∃ m, outcome (backend.fetchMap settings order pattern w) db = (.ok m, db) ∧
      m.Uniform w.step ∧ (∀ name, (m.get? name).isSome ↔ name ∈ Names.expand pattern) ∧
      ∀ name t value, m.at? name t = some value ↔ name ∈ Names.expand pattern ∧
        ∃ x : Timestamp, x.toInt = t ∧ w.start ≤ x ∧ x ≤ w.stop ∧
          w.partitionOf settings.tablePrefix x ∈ partitions ∧
          ∃ bits, lastAt x (slotted w.tier (samplesOf name ms)) = some bits ∧
            defined (Float.ofBits bits) = value := by
  have hshows := fun p (hp : p ∈ partitions) => shows_entries_iff ms hpartitions hp
  obtain ⟨m, hfetch, huniform, hkeys, hat⟩ := outcome_fetchMap hc horder hpartitions
    (fun p hp q hq name t v v' hv hv' => by
      obtain ⟨x, hx, -, -, -, bits, hbits, rfl⟩ := (hshows p hp name t v).mp hv
      obtain ⟨y, hy, -, -, -, bits', hbits', rfl⟩ := (hshows q hq name t v').mp hv'
      have hxy : x = y := Int64.toInt_inj.mp (hx.trans hy.symm)
      rw [hxy, hbits'] at hbits
      rw [Option.some.inj hbits]) pattern
  refine ⟨m, hfetch, huniform, hkeys, ?_⟩
  intro name t value
  rw [hat]
  refine and_congr_right fun _ => ?_
  constructor
  · rintro ⟨p, hp, hshown⟩
    obtain ⟨x, hx, hstart, hstop, rfl, hlast⟩ := (hshows p hp name t value).mp hshown
    exact ⟨x, hx, hstart, hstop, hp, hlast⟩
  · rintro ⟨x, hx, hstart, hstop, hp, hlast⟩
    exact ⟨_, hp, (hshows _ hp name t value).mpr ⟨x, hx, hstart, hstop, rfl, hlast⟩⟩

theorem contents_of_writes
    (hwrite : outcome (backend.writeAll settings ms) (Database.empty (some mergeRule))
      = (.ok (), db)) : ∃ tables, Contents db tables (entries settings.tablePrefix ms) := by
  obtain ⟨tables, hc⟩ := contents_writeAll contents_empty hwrite
  exact ⟨tables, by simpa using hc⟩

-- A sample of the window's tier is fetched unless it lies at a stop that begins an item, or the
-- window is a single instant: its partition is only read when it begins before the stop.
theorem fetchMap_stored
    (hwrite : outcome (backend.writeAll settings ms) (Database.empty (some mergeRule))
      = (.ok (), db))
    {order : Nat → Fanout.Order} (horder : ∀ count, (order count).Perm (List.range count))
    {w : Window} {partitions : List Partition}
    (hpartitions : w.partitions settings.tablePrefix = .ok partitions) {pattern name : String}
    (hname : name ∈ Names.expand pattern) {epoch item : Timestamp} {p : Sample}
    (hstored : Holds db (w.tier.tableName settings.tablePrefix epoch) item name p)
    (hstart : w.start ≤ p.time) (hstop : p.time ≤ w.stop) :
    ∃ m s, outcome (backend.fetchMap settings order pattern w) db = (.ok m, db) ∧
      m.get? name = some s ∧
      s.points[p.time.toInt]?
        = if w.start < w.stop ∧ (p.time < w.stop ∨ ¬w.tier.itemWidth ∣ w.stop.toInt) then
            some (defined (Float.ofBits p.bits))
          else none := by
  obtain ⟨tables, hc⟩ := contents_of_writes hwrite
  obtain ⟨-, -, hlast⟩ := (holds_tier_iff hc w.tier epoch item name p).mp hstored
  obtain ⟨m, hfetch, -, hkeys, hat⟩ := outcome_fetchMap_entries hc horder hpartitions pattern
  obtain ⟨s, hs⟩ := Option.isSome_iff_exists.mp ((hkeys name).mpr hname)
  have hpoint : m.at? name p.time.toInt = s.points[p.time.toInt]? := by
    rw [PointMap.at?, hs, Option.bind_some]
  have hread := Window.partitionOf_mem_iff hpartitions hstart hstop
  refine ⟨m, s, hfetch, hs, ?_⟩
  rw [← hpoint]
  split
  · rename_i hcond
    exact (hat name _ _).mpr
      ⟨hname, p.time, rfl, hstart, hstop, hread.mpr hcond, p.bits, hlast, rfl⟩
  · rename_i hcond
    rw [Option.eq_none_iff_forall_ne_some]
    intro value hvalue
    obtain ⟨-, x, hx, -, -, hp, -⟩ := (hat name _ value).mp hvalue
    rw [Int64.toInt_inj.mp hx] at hp
    exact hcond (hread.mp hp)

-- A sample at the end of the first hour is not fetched with that hour.
theorem fetchMap_stored_at_stop :
    ∃ db m s,
      outcome (backend.writeAll ⟨"g", 1⟩ [⟨"m", [⟨3600, 1⟩]⟩]) (Database.empty (some mergeRule))
        = (.ok (), db) ∧
      Holds db (Tier.minute.tableName "g" 0) 3600 "m" ⟨3600, 1⟩ ∧
      outcome (backend.fetchMap ⟨"g", 1⟩ List.range "m" ⟨0, 3600⟩) db = (.ok m, db) ∧
      m.get? "m" = some s ∧ s.points[(3600 : Int)]? = none := by
  have hwritten : ∃ db,
      outcome (backend.writeAll ⟨"g", 1⟩ [⟨"m", [⟨3600, 1⟩]⟩]) (Database.empty (some mergeRule))
        = (.ok (), db) :=
    exists_writeAll_ok contents_empty (by decide) (by simp)
  obtain ⟨db, hdb⟩ := hwritten
  obtain ⟨tables, hc⟩ := contents_of_writes hdb
  have hstored : Holds db (Tier.minute.tableName "g" 0) 3600 "m" ⟨3600, 1⟩ :=
    (holds_tier_iff hc .minute 0 3600 "m" ⟨3600, 1⟩).mpr ⟨rfl, rfl, by decide⟩
  have hpartitions : (⟨0, 3600⟩ : Window).partitions "g" = .ok [⟨"g-1m1h-0", 0⟩] := rfl
  have hname : "m" ∈ Names.expand "m" :=
    Names.mem_expand_plain (by decide) (by decide) (by decide)
  obtain ⟨m, s, hfetch, hs, hpoint⟩ := fetchMap_stored hdb (fun _ => List.Perm.refl _) hpartitions
    hname hstored (by decide) (by decide)
  refine ⟨db, m, s, hdb, hstored, hfetch, hs, ?_⟩
  rwa [if_neg (by decide)] at hpoint

end Cadence
