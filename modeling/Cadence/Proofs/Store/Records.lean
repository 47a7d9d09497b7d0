import Cadence.Proofs.Store.Faults

namespace Cadence.Sample

theorem ascending_ofSet (set : Set) : (ofSet set).Pairwise (·.time < ·.time) := by
  rw [ofSet, List.pairwise_map]
  refine Std.ExtTreeMap.ordered_keys_toList.imp ?_
  intro a b hab
  exact compareOfLessAndEq_eq_lt.mp hab

theorem mem_of_mem_union_nil {samples : List Sample} {s : Sample} (h : s ∈ union [] samples) :
    s ∈ samples := by
  obtain ⟨r, hr, htime, hbits⟩ := exists_of_lastUnder ((mem_union_nil samples s).mp h)
  cases r
  cases s
  simp only at htime hbits
  rwa [← htime, ← hbits]

theorem union_nil_ne_nil {samples : List Sample} (h : samples ≠ []) : union [] samples ≠ [] := by
  obtain ⟨s, hs⟩ := List.exists_mem_of_ne_nil samples h
  cases hlast : lastAt s.time samples with
  | none => exact absurd rfl ((lastUnder_eq_none_iff _ _ _ _).mp hlast s hs)
  | some bits => exact List.ne_nil_of_mem ((mem_union_nil samples ⟨s.time, bits⟩).mpr hlast)

end Cadence.Sample

namespace Cadence.Keyed

open Sample Cadence.Metric

structure IsMarker (key value : Bytes) (table : String) : Prop where
  key_eq : key = Key.ofTable table
  blank : value = []

-- What a record has to be that is the item of a name. Its key is no other item's whose table's name has a
-- length that fits two bytes.
structure IsItem (db : Database) (tablePrefix : String) (key value : Bytes) (table : String)
    (item : Timestamp) (name : String) : Prop where
  key_eq : key = Key.ofItem table item name
  short : Key.Short table
  unique : ∀ t i n, Key.Short t → key = Key.ofItem t i n → t = table ∧ i = item ∧ n = name
  marked : db.get? (Key.ofTable table) = some []
  whole : value ≠ [] ∧ value.length % width = 0
  samples : ∃ samples, decode value = .ok samples ∧ samples.Pairwise (·.time < ·.time) ∧
    ∃ tier : Tier, ∃ epoch, table = tier.tableName tablePrefix epoch ∧
      ∀ s ∈ samples, tier.slot s.time = s.time ∧ tier.itemEpoch s.time = item ∧
        tier.tableName tablePrefix (tier.tableEpoch s.time) = table

def Kept (tablePrefix : String) (db : Database) : Prop :=
  ∀ key value, db.get? key = some value →
    (∃ table, IsMarker key value table) ∨
      ∃ table item name, IsItem db tablePrefix key value table item name

-- Samples in slots of a tier, and in the item and the table of these slots.
def Entry.Slotted (tablePrefix : String) (e : Entry) : Prop :=
  e.samples ≠ [] ∧ ∃ tier : Tier, e.table = tier.tableName tablePrefix (tier.tableEpoch e.item) ∧
    ∀ s ∈ e.samples, tier.slot s.time = s.time ∧ tier.itemEpoch s.time = e.item

theorem slotted_of_mem_puts {tablePrefix : String} {m : Metric} {p : ItemPut}
    (hp : p ∈ m.puts tablePrefix) (name : String) : (entryOf name p).Slotted tablePrefix := by
  obtain ⟨tier, -, hp⟩ := List.mem_flatMap.mp hp
  obtain ⟨item, hitem, rfl⟩ := List.mem_map.mp hp
  obtain ⟨s, hs, hepoch⟩ := (mem_itemEpochs _ _ _).mp hitem
  refine ⟨?_, tier, rfl, ?_⟩
  · exact List.ne_nil_of_mem (List.mem_filter.mpr ⟨hs, decide_eq_true hepoch⟩)
  · intro r hr
    obtain ⟨hr, hepoch⟩ := List.mem_filter.mp hr
    obtain ⟨u, -, rfl⟩ := List.mem_map.mp hr
    exact ⟨Tier.slot_slot (Int.dvd_refl _) u.time, of_decide_eq_true hepoch⟩

variable {db : Database} {tables : List String} {log : List Entry} {tablePrefix : String}

-- What was put into an item of a table are slots of the tier that the table belongs to.
theorem slots_of_mem_itemSamples (hlog : ∀ e ∈ log, ∃ other, e.Slotted other) {tier : Tier}
    {epoch item : Timestamp} {name : String} {s : Sample}
    (hs : s ∈ itemSamples log (tier.tableName tablePrefix epoch) item name) :
    tier.slot s.time = s.time ∧ tier.itemEpoch s.time = item ∧
      tier.tableName tablePrefix (tier.tableEpoch s.time) = tier.tableName tablePrefix epoch := by
  obtain ⟨e, hfilter, hmem⟩ := List.mem_flatMap.mp hs
  obtain ⟨he, hof⟩ := List.mem_filter.mp hfilter
  obtain ⟨htable, rfl, -⟩ := of_decide_eq_true hof
  obtain ⟨own, -, other, hother, hslots⟩ := hlog e he
  obtain ⟨rfl, rfl, rfl⟩ := Tier.tableName_injective (hother.symm.trans htable)
  obtain ⟨hslot, hitem⟩ := hslots s hmem
  refine ⟨hslot, hitem, ?_⟩
  rw [← hitem, Tier.tableEpoch_itemEpoch]

theorem isItem_of_mem (hf : Filled db tables log) (hlog : ∀ e ∈ log, e.Slotted tablePrefix) {e : Entry}
    (he : e ∈ log) {value : Bytes} (hget : db.get? (Key.ofItem e.table e.item e.name) = some value) :
    IsItem db tablePrefix (Key.ofItem e.table e.item e.name) value e.table e.item e.name := by
  have hshort := hf.short e.table (hf.created e he)
  have hof : ∃ f ∈ log, f.IsOf e.table e.item e.name := ⟨e, he, rfl, rfl, rfl⟩
  let samples := union [] (itemSamples log e.table e.item e.name)
  have hvalue : value = encode samples := by
    rw [hf.item _ _ _ hshort, record?, if_pos hof] at hget
    exact (Option.some.inj hget).symm
  obtain ⟨hsome, tier, htable, -⟩ := hlog e he
  obtain ⟨s, hs⟩ := List.exists_mem_of_ne_nil _ hsome
  have hput : s ∈ itemSamples log e.table e.item e.name :=
    List.mem_flatMap.mpr ⟨e, List.mem_filter.mpr ⟨he, decide_eq_true ⟨rfl, rfl, rfl⟩⟩, hs⟩
  have hsamples : 0 < samples.length :=
    List.length_pos_of_ne_nil (union_nil_ne_nil (List.ne_nil_of_mem hput))
  have hlength : value.length = width * samples.length := by rw [hvalue, length_encode]
  refine ⟨rfl, hshort, ?_, ?_, ⟨?_, ?_⟩, samples, ?_, ascending_ofSet _, tier, _, htable, ?_⟩
  · intro t i n ht hkey
    exact Key.ofItem_injective ht hshort hkey.symm
  · obtain ⟨marker, hmarker⟩ :=
      Option.isSome_iff_exists.mp ((hf.marker e.table).mpr (hf.created e he))
    rw [hmarker, hf.blank e.table marker hmarker]
  · apply List.ne_nil_of_length_pos
    rw [hlength]
    exact Nat.mul_pos (by decide) hsamples
  · rw [hlength, Nat.mul_mod_right]
  · rw [hvalue, decode_encode]
  · intro s hs
    have hs := mem_of_mem_union_nil hs
    rw [htable] at hs
    rw [htable]
    exact slots_of_mem_itemSamples (fun e he => ⟨tablePrefix, hlog e he⟩) hs

theorem Filled.kept (hf : Filled db tables log) (hlog : ∀ e ∈ log, e.Slotted tablePrefix) :
    Kept tablePrefix db := by
  intro key value hget
  rcases hf.only key value hget with ⟨table, rfl⟩ | ⟨e, he, rfl⟩
  · exact .inl ⟨table, rfl, hf.blank table value hget⟩
  · exact .inr ⟨e.table, e.item, e.name, isItem_of_mem hf hlog he hget⟩

end Cadence.Keyed

namespace Cadence

open Keyed Cadence.Metric Sample

variable {db : Database} {tables : List String} {log : List Entry}

-- A write that meets faults puts some of what it puts without them.
theorem filled_leavesUnder (hf : Filled db tables log) (i : Insertion) (faults : Faults) :
    ∃ tables' es, Filled (i.leavesUnder faults db) tables' (log ++ es) ∧
      es.Sublist ((i.metric.puts i.settings.tablePrefix).map (entryOf i.metric.name)) := by
  have hprefix := i.accessesUnder_isPrefix faults
  have hready := (i.ready_accesses tables).of_isPrefix hprefix
  have hturns : Turns Access.perform [i.accessesUnder faults] db (i.leavesUnder faults db) := by
    rw [Insertion.leavesUnder_eq_accesses]
    exact .cons rfl (.done (by simp))
  obtain ⟨trace, tables', htrace, hdb', -⟩ := hturns.filled hf (by simpa using hready)
  rw [List.map_singleton] at htrace
  rw [htrace.eq_of_singleton] at hdb'
  refine ⟨tables', _, hdb', ?_⟩
  have hgranted : (Access.granted (i.accessesUnder faults)).Sublist (Access.granted i.accesses) :=
    (Access.granted_isPrefix hprefix).sublist
  exact (hgranted.filterMap _).trans i.entries_sublist

-- What writes leave one after the other, each with the faults that it meets.
def StoreSettings.leaves (settings : StoreSettings) (writes : List (Metric × Faults)) (db : Database) :
    Database :=
  writes.foldl (fun db w => (Insertion.mk settings w.1).leavesUnder w.2 db) db

theorem StoreSettings.filled_leaves (settings : StoreSettings) (writes : List (Metric × Faults))
    (hf : Filled db tables log) (hlog : ∀ e ∈ log, e.Slotted settings.tablePrefix) :
    ∃ tables' log', Filled (settings.leaves writes db) tables' log' ∧
      ∀ e ∈ log', e.Slotted settings.tablePrefix := by
  induction writes generalizing db tables log with
  | nil => exact ⟨tables, log, hf, hlog⟩
  | cons w writes ih =>
      obtain ⟨tables', es, hnext, hes⟩ := filled_leavesUnder hf ⟨settings, w.1⟩ w.2
      refine ih hnext ?_
      intro e he
      rcases List.mem_append.mp he with he | he
      · exact hlog e he
      · obtain ⟨p, hp, rfl⟩ := List.mem_map.mp (hes.subset he)
        exact slotted_of_mem_puts hp _

theorem kept_leaves (settings : StoreSettings) (writes : List (Metric × Faults)) :
    Kept settings.tablePrefix (settings.leaves writes (Database.empty (some mergeRule))) := by
  obtain ⟨tables, log, hf, hlog⟩ := settings.filled_leaves writes filled_empty (by simp)
  exact hf.kept hlog

end Cadence
