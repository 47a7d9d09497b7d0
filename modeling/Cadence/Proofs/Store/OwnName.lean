import Cadence.Proofs.Names.Own
import Cadence.Proofs.PointSet.Grid
import Cadence.Proofs.Store.Alignment
import Cadence.Proofs.Store.Splits

namespace Cadence

open Keyed Sample Cadence.Metric

variable {w : Window} {tablePrefix : String} {partitions : List Partition} {log : List Entry} {name : String}

namespace PointSet

variable {s : PointSet}

theorem name_of_toSeries {emptyStart : Int} {series : Series Float}
    (h : s.toSeries emptyStart = some series) : series.name = s.name := by
  unfold toSeries at h
  dsimp only at h
  split at h
  · obtain ⟨start, -, h⟩ := Option.bind_eq_some_iff.mp h
    obtain ⟨slots, -, h⟩ := Option.bind_eq_some_iff.mp h
    obtain ⟨values, -, h⟩ := Option.bind_eq_some_iff.mp h
    rw [← Option.some.inj h]
    rfl
  · obtain ⟨start, -, h⟩ := Option.bind_eq_some_iff.mp h
    rw [← Option.some.inj h]
    rfl

theorem defined_bind_defined (x : Float) : (defined x).bind defined = defined x := by
  cases h : defined x with
  | none => rfl
  | some y =>
      rw [Option.bind_some]
      unfold defined at h
      split at h
      · cases h
      · rename_i hnumber
        cases h
        exact if_neg hnumber

end PointSet

namespace Window

-- What a window holds of a name in a slot that it reads is what was put there last.
theorem getElem?_setOf_lastPut (hlog : ∀ e ∈ log, ∃ other, e.Slotted other)
    (h : w.partitions tablePrefix = .ok partitions) {x : Timestamp} (hstart : w.start ≤ x)
    (hstop : x ≤ w.stop) (hread : w.partitionOf tablePrefix x ∈ partitions) {bits : UInt64}
    (hlast : lastPut log tablePrefix w.tier name x = some bits) :
    (w.setOf log partitions name).points[x.toInt]? = some (defined (Float.ofBits bits)) := by
  have hshown : ∀ p ∈ partitions, ∀ value,
      w.shown (itemSamples log p.table p.item name) x.toInt = some value → value = defined (Float.ofBits bits) := by
    intro p hp value hvalue
    have htable := ((mem_partitions_iff h p).mp hp).2
    obtain ⟨y, hy, -, -, found, hfound, rfl⟩ := w.shown_eq_some_iff.mp hvalue
    obtain rfl : y = x := Int64.toInt_inj.mp hy
    obtain ⟨s, hs, hsame, -⟩ := exists_of_lastUnder hfound
    rw [htable] at hs
    obtain ⟨-, hitem, -⟩ := slots_of_mem_itemSamples hlog hs
    rw [hsame] at hitem
    rw [htable, ← hitem, Tier.tableEpoch_itemEpoch] at hfound
    rw [lastPut, hfound] at hlast
    rw [Option.some.inj hlast]
  rw [getElem?_setOf, lastSome_eq_some_iff fun p hp q hq b c hb hc => by rw [hshown p hp b hb, hshown q hq c hc]]
  exact ⟨_, hread, w.shown_eq_some_iff.mpr ⟨x, rfl, hstart, hstop, bits, hlast, rfl⟩⟩

end Window

theorem Insertion.exists_lastPut {i : Insertion} (hname : i.metric.name ≠ "") (hfits : i.Fits) {s : Sample}
    (hs : s ∈ i.metric.samples) (tier : Tier) (before after : List Entry) :
    ∃ bits, lastPut (before ++ i.entries ++ after) i.settings.tablePrefix tier i.metric.name
      (tier.slot s.time) = some bits := by
  have hput : (⟨tier.slot s.time, s.bits⟩ : Sample) ∈ itemSamples i.entries
      (tier.tableName i.settings.tablePrefix (tier.tableEpoch (tier.slot s.time)))
      (tier.itemEpoch (tier.slot s.time)) i.metric.name := by
    rw [entries_of_fits hfits hname, ← Tier.tableEpoch_itemEpoch, itemSamples_metric, if_pos rfl]
    exact List.mem_filter.mpr ⟨List.mem_map_of_mem hs, decide_eq_true rfl⟩
  rw [← Option.ne_none_iff_exists', lastPut, lastAt, ne_eq, lastUnder_eq_none_iff]
  intro hnone
  refine hnone ⟨tier.slot s.time, s.bits⟩ ?_ rfl
  rw [itemSamples_append, itemSamples_append]
  exact List.mem_append_left _ (List.mem_append_right _ hput)

variable {db db' : Database} {i : Insertion} {later : List Insertion}

-- What storage holds behind a write that has succeeded and others since.
theorem Reached.filled_behind (h : Reached db)
    (hlater : Turns Access.perform (later.map Insertion.accesses) (i.leaves db) db') :
    ∃ tables before after, Filled db' tables (before ++ i.entries ++ after) ∧
      ∀ e ∈ before ++ i.entries ++ after, e.Placed ∧ ∃ other, e.Slotted other := by
  have hP : ∀ (i : Insertion), ∀ e ∈ i.entries, e.Placed ∧ ∃ other, e.Slotted other := fun i e he =>
    ⟨Insertion.placed_of_mem_entries he, _, Insertion.slotted_of_mem_entries he⟩
  obtain ⟨tables, log, hf, hlog⟩ := h.filled_of_entries hP
  obtain ⟨tables', hleaves, -⟩ := filled_leaves hf i
  obtain ⟨es, tables'', hes, hdb', -⟩ := filled_of_turns hleaves hlater
  refine ⟨tables'', log, es, hdb', forall_mem_append hP ?_ hes⟩
  intro e he
  rcases List.mem_append.mp he with he | he
  · exact hlog e he
  · exact hP i e he

-- A slot that has been put is a slot of the series.
theorem Window.exists_slot_toSeries (hlog : ∀ e ∈ log, ∃ other, e.Slotted other)
    (h : w.partitions tablePrefix = .ok partitions) (hlt : w.start < w.stop) {x : Timestamp}
    (hstart : w.start ≤ x) (hstop : x < w.stop) {bits : UInt64}
    (hlast : lastPut log tablePrefix w.tier name x = some bits) :
    ∃ r, (w.setOf log partitions name).toSeries w.start.toInt = some r ∧
      ∃ slot : Nat, r.instant slot = x.toInt ∧ r.values[slot]? = some (defined (Float.ofBits bits)) := by
  have hstop' := Int64.le_of_lt hstop
  have hread := (partitionOf_mem_iff h hstart hstop').mpr ⟨hlt, .inl hstop⟩
  have hpoint := getElem?_setOf_lastPut hlog h hstart hstop' hread hlast
  have hlow := lowest_le_firstSlot_of_lt h (Int64.lt_iff_toInt_lt.mp hlt)
  obtain ⟨r, hr, -⟩ := exists_toSeries_setOf h hlow log name
  have hstep : 0 < (w.setOf log partitions name).step := by
    rw [w.step_setOf]
    exact w.step_pos
  have hdvd : ∀ t ∈ (w.setOf log partitions name).points, (w.setOf log partitions name).step ∣ t := by
    rw [w.step_setOf]
    exact fun t => step_dvd_of_mem_setOf hlog h hlt
  have hmem : x.toInt ∈ (w.setOf log partitions name).points := by
    rw [Std.ExtTreeMap.mem_iff_isSome_getElem?, hpoint]
    rfl
  have hlaid := PointSet.laidOut_toSeries hstep (PointSet.ne_empty_of_mem hmem) hr
  obtain ⟨slot, hslot⟩ := hlaid.exists_slot hstep hdvd hmem
  refine ⟨r, hr, slot, hslot.symm, ?_⟩
  rw [hlaid.value_eq hstep hdvd hmem hslot, PointSet.value?, hpoint, Option.join_some,
    PointSet.defined_bind_defined]

-- A metric that has been written is read back under its name, whatever has been written since: each of its
-- samples has its slot in the series, which holds what was written there last. That is so if and only if the
-- name is unmarked.
theorem series_ownName (hdb : Reached db)
    (hwrite : (outcome (backend.write i.settings i.metric) db).1 = .ok ())
    (hlater : Turns Access.perform (later.map Insertion.accesses) (i.leaves db) db')
    (hpartitions : w.partitions i.settings.tablePrefix = .ok partitions) (hlt : w.start < w.stop)
    {s : Sample} (hs : s ∈ i.metric.samples) (hstart : w.start ≤ w.tier.slot s.time)
    (hstop : w.tier.slot s.time < w.stop) :
    ∃ series, outcome (backend.series i.settings i.metric.name w) db' = (.ok series, db') ∧
      (Names.Unmarked i.metric.name.toList → ∃ r ∈ series, r.name = i.metric.name ∧
        ∃ (slot : Nat) (bits : UInt64), r.instant slot = (w.tier.slot s.time).toInt ∧
          r.values[slot]? = some (defined (Float.ofBits bits)) ∧
          Stores db' i.settings.tablePrefix w.tier i.metric.name ⟨w.tier.slot s.time, bits⟩) ∧
      (¬Names.Unmarked i.metric.name.toList → ∀ r ∈ series, r.name ≠ i.metric.name) := by
  obtain ⟨_, _, hf, -⟩ := hdb.filled
  obtain ⟨hname, hfits⟩ := (Insertion.ok_write_iff i hf.rule).mp hwrite
  obtain ⟨tables, before, after, hf', hlog⟩ := hdb.filled_behind hlater
  obtain ⟨bits, hlast⟩ := Insertion.exists_lastPut hname hfits hs w.tier before after
  have hlow := Window.lowest_le_firstSlot_of_lt hpartitions (Int64.lt_iff_toInt_lt.mp hlt)
  obtain ⟨series, hseries, -, hmem⟩ := exists_series_iff hf'.toContents hpartitions hlow i.metric.name
  refine ⟨series, hseries, fun hunmarked => ?_, fun hmarked r hr hsame => ?_⟩
  · obtain ⟨r, hr, slot, hinstant, hvalue⟩ :=
      Window.exists_slot_toSeries (fun e he => (hlog e he).2) hpartitions hlt hstart hstop hlast
    refine ⟨r, (hmem r).mpr ⟨_, (Names.mem_expand_self_iff hname).mpr hunmarked, hr⟩, ?_, slot, bits,
      hinstant, hvalue, ?_⟩
    · rw [PointSet.name_of_toSeries hr, w.name_setOf]
    · exact (stores_iff hf'.toContents (fun e he => (hlog e he).1) _ w.tier _ _).mpr hlast
  · obtain ⟨name, hexpand, hr⟩ := (hmem r).mp hr
    rw [PointSet.name_of_toSeries hr, w.name_setOf] at hsame
    subst hsame
    exact hmarked ((Names.mem_expand_self_iff hname).mp hexpand)

-- A name with a brace that does not close, and a later write of the same minute.
theorem series_ownName_unclosed :
    ∃ db series, outcome (backend.series ⟨"g", 1⟩ "m\x7bx,y" ⟨0, 3600⟩) db = (.ok series, db) ∧
      ∃ r ∈ series, r.name = "m\x7bx,y" ∧ ∃ slot : Nat, r.instant slot = 60 ∧ slot < r.values.size := by
  let i : Insertion := ⟨⟨"g", 1⟩, ⟨"m\x7bx,y", [⟨0, 1⟩, ⟨90, 2⟩]⟩⟩
  let j : Insertion := ⟨⟨"g", 1⟩, ⟨"m\x7bx,y", [⟨60, 3⟩]⟩⟩
  have hroom : (Text.Utf8.encode "g").length + 104 ≤ Key.maxTableLength := by decide
  have hwrite : (outcome (backend.write i.settings i.metric) (Database.empty (some mergeRule))).1 = .ok () :=
    (Insertion.ok_write_iff i rfl).mpr ⟨by decide, fun _ p hp => short_of_mem_puts hroom hp⟩
  have hpartitions : (⟨0, 3600⟩ : Window).partitions "g" = .ok [⟨"g-1m1h-0", 0⟩] := rfl
  obtain ⟨series, hseries, hown, -⟩ := series_ownName (i := i) .empty hwrite (j.turns_alone _)
    hpartitions (by decide) (s := ⟨90, 2⟩) (by simp [i]) (by decide) (by decide)
  have hunmarked : Names.Unmarked i.metric.name.toList := by
    have hchars : i.metric.name.toList = ['m'] ++ '\x7b' :: ['x', ',', 'y'] := by decide
    rw [hchars]
    exact .unclosed (by decide) (by decide) (by decide)
  obtain ⟨r, hr, hname, slot, bits, hinstant, hvalue, -⟩ := hown hunmarked
  exact ⟨_, series, hseries, r, hr, hname, slot, hinstant, (Array.getElem?_eq_some_iff.mp hvalue).1⟩

-- A name with a comma is written and is not read back.
theorem comma_not_ownName : ∃ i : Insertion, i = ⟨⟨"g", 1⟩, ⟨"a,b", [⟨0, 0x3ff0000000000000⟩]⟩⟩ ∧
    (outcome (backend.write i.settings i.metric) (Database.empty (some mergeRule))).1 = .ok () ∧
    (⟨0, 60⟩ : Window).partitions "g" = .ok [⟨"g-1m1h-0", 0⟩] ∧ Tier.minute.slot 0 = 0 ∧
    ∃ series, outcome (backend.series i.settings i.metric.name ⟨0, 60⟩)
        (i.leaves (Database.empty (some mergeRule))) = (.ok series, i.leaves (Database.empty (some mergeRule))) ∧
      ∀ r ∈ series, r.name ≠ i.metric.name := by
  let i : Insertion := ⟨⟨"g", 1⟩, ⟨"a,b", [⟨0, 0x3ff0000000000000⟩]⟩⟩
  have hroom : (Text.Utf8.encode "g").length + 104 ≤ Key.maxTableLength := by decide
  have hwrite : (outcome (backend.write i.settings i.metric) (Database.empty (some mergeRule))).1 = .ok () :=
    (Insertion.ok_write_iff i rfl).mpr ⟨by decide, fun _ p hp => short_of_mem_puts hroom hp⟩
  have hpartitions : (⟨0, 60⟩ : Window).partitions "g" = .ok [⟨"g-1m1h-0", 0⟩] := rfl
  obtain ⟨tables, hf, -⟩ := filled_leaves filled_empty i
  have hlow : Timestamp.lowest ≤ (⟨0, 60⟩ : Window).firstSlot := by decide
  have hprefix : i.settings.tablePrefix = "g" := rfl
  rw [← hprefix] at hpartitions
  obtain ⟨series, hseries, -, hmem⟩ := exists_series_iff hf.toContents hpartitions hlow i.metric.name
  refine ⟨i, rfl, hwrite, hpartitions, by decide, series, hseries, fun r hr hsame => ?_⟩
  obtain ⟨name, hexpand, hr⟩ := (hmem r).mp hr
  rw [PointSet.name_of_toSeries hr, Window.name_setOf] at hsame
  subst hsame
  have htop := Names.topLevel_unmarked ((Names.mem_expand_self_iff (by decide)).mp hexpand)
  exact absurd htop (by decide)

end Cadence
