import Cadence.Proofs.Store.Retry

namespace Cadence

open Keyed Sample Cadence.Metric

namespace Sample

-- Merges samples into a stored value. Where there are none, nothing is merged.
def mergeSome (stored : Option Bytes) (added : List Sample) : Option Bytes :=
  if added = [] then stored else some (mergeRule stored (encode added))

theorem union_append (stored xs ys : List Sample) :
    union (union stored xs) ys = union stored (xs ++ ys) := by
  apply union_congr
  intro t
  rw [lastAt_union, lastAt_append, Option.or_assoc]

theorem mergeSome_append (stored : Option Bytes) (xs ys : List Sample) :
    mergeSome (mergeSome stored xs) ys = mergeSome stored (xs ++ ys) := by
  by_cases hxs : xs = []
  · rw [hxs, mergeSome, mergeSome, if_pos rfl, List.nil_append]
    rfl
  by_cases hys : ys = []
  · rw [hys, List.append_nil, mergeSome, if_pos rfl]
  · have hall : xs ++ ys ≠ [] := fun h => hxs (List.append_eq_nil_iff.mp h).1
    rw [mergeSome, mergeSome, mergeSome, if_neg hxs, if_neg hys, if_neg hall, mergeRule_encode,
      mergeRule_encode, mergeRule_encode, readable_encode, union_append]

end Sample

namespace Keyed

namespace Change

variable {cs : List Change}

theorem get?_makeAll_of_mem (h : cs.Pairwise (·.key ≠ ·.key)) {c : Change} (hc : c ∈ cs)
    (db : Database) : (makeAll db cs).get? c.key = some (c.value (db.get? c.key)) := by
  obtain ⟨front, back, rfl⟩ := List.append_of_mem hc
  have hfront : front.find? (·.key = c.key) = none := by
    rw [List.find?_eq_none]
    intro d hd
    have hne := (List.pairwise_append.mp h).2.2 d hd c List.mem_cons_self
    simpa using hne
  rw [get?_makeAll h, List.find?_append, hfront]
  simp

theorem get?_makeAll_of_ne (h : cs.Pairwise (·.key ≠ ·.key)) {key : Bytes}
    (hne : ∀ c ∈ cs, c.key ≠ key) (db : Database) : (makeAll db cs).get? key = db.get? key := by
  have hnone : cs.find? (·.key = key) = none := by
    rw [List.find?_eq_none]
    simpa using hne
  rw [get?_makeAll h, hnone]
  rfl

end Change

namespace Access

theorem mem_changes {accesses : List Access} {c : Change} :
    c ∈ changes accesses ↔
      (∃ table ∈ (granted accesses).filterMap created?, (create table).change? = some c) ∨
      ∃ e ∈ (granted accesses).filterMap entry?, (merge e).change? = some c := by
  simp only [changes, List.mem_filterMap]
  constructor
  · rintro ⟨access, hmem, hc⟩
    cases access with
    | create table => exact .inl ⟨table, ⟨_, hmem, rfl⟩, hc⟩
    | lookup table => cases hc
    | merge e => exact .inr ⟨e, ⟨_, hmem, rfl⟩, hc⟩
  · rintro (⟨table, ⟨access, hmem, htable⟩, hc⟩ | ⟨e, ⟨access, hmem, he⟩, hc⟩)
    · cases access <;> cases htable
      exact ⟨_, hmem, hc⟩
    · cases access <;> cases he
      exact ⟨_, hmem, hc⟩

end Access

end Keyed

namespace Insertion

variable {i j k : Insertion} {db : Database}

theorem leaves_eq_makeAll (i : Insertion) (hrule : db.rule = some mergeRule) :
    i.leaves db = Change.makeAll db (Access.changes i.accesses) := by
  obtain ⟨result, hwrite⟩ := i.exists_outcome_write
  exact congrArg Prod.snd (hwrite db hrule)

theorem short_of_mem_entries {e : Entry} (he : e ∈ i.entries) : Key.Short e.table := by
  obtain ⟨access, hmem, haccess⟩ := List.mem_filterMap.mp he
  cases access <;> cases haccess
  exact Access.short_of_merge (by simp) (i.ready_accesses []) hmem

theorem samples_ne_nil_of_mem_entries {e : Entry} (he : e ∈ i.entries) : e.samples ≠ [] := by
  obtain ⟨p, hp, rfl⟩ := List.mem_map.mp (i.entries_sublist.subset he)
  obtain ⟨tier, -, hp⟩ := List.mem_flatMap.mp hp
  obtain ⟨item, hitem, rfl⟩ := List.mem_map.mp hp
  exact filter_ne_nil_of_mem_itemEpochs hitem

theorem itemSamples_of_mem_entries {e : Entry} (he : e ∈ i.entries) :
    itemSamples i.entries e.table e.item e.name = e.samples := by
  have hmem : e ∈ i.entries.filter (·.IsOf e.table e.item e.name) :=
    List.mem_filter.mpr ⟨he, decide_eq_true ⟨rfl, rfl, rfl⟩⟩
  have hone := i.length_filter_entries_le_one e.table e.item e.name
  obtain ⟨f, hf⟩ := List.length_eq_one_iff.mp (Nat.le_antisymm hone (List.length_pos_of_mem hmem))
  rw [hf, List.mem_singleton] at hmem
  rw [itemSamples, hf, hmem, List.flatMap_singleton]

-- A write marks the tables that it creates,
theorem get?_leaves_table (i : Insertion) (hrule : db.rule = some mergeRule) (table : String) :
    (i.leaves db).get? (Key.ofTable table)
      = if table ∈ i.created then some [] else db.get? (Key.ofTable table) := by
  rw [i.leaves_eq_makeAll hrule]
  split
  · rename_i hcreated
    exact Change.get?_makeAll_of_mem i.pairwise_changes
      (Access.mem_changes.mpr (.inl ⟨table, hcreated, rfl⟩)) db
  · rename_i hcreated
    refine Change.get?_makeAll_of_ne i.pairwise_changes ?_ db
    intro c hc hkey
    rcases Access.mem_changes.mp hc with ⟨other, hother, hc⟩ | ⟨e, -, hc⟩
    · cases hc
      exact hcreated (Key.ofTable_injective hkey ▸ hother)
    · cases hc
      exact Key.ofTable_ne_ofItem _ _ _ _ hkey.symm

-- merges into each item what it puts there,
theorem get?_leaves_item (i : Insertion) (hrule : db.rule = some mergeRule) {table : String}
    (hshort : Key.Short table) (item : Timestamp) (name : String) :
    (i.leaves db).get? (Key.ofItem table item name)
      = mergeSome (db.get? (Key.ofItem table item name)) (itemSamples i.entries table item name) := by
  rw [i.leaves_eq_makeAll hrule]
  by_cases hput : ∃ e ∈ i.entries, e.IsOf table item name
  · obtain ⟨e, he, rfl, rfl, rfl⟩ := hput
    rw [itemSamples_of_mem_entries he, mergeSome, if_neg (samples_ne_nil_of_mem_entries he)]
    exact Change.get?_makeAll_of_mem i.pairwise_changes
      (Access.mem_changes.mpr (.inr ⟨e, he, rfl⟩)) db
  · rw [itemSamples_eq_nil fun e he hof => hput ⟨e, he, hof⟩, mergeSome, if_pos rfl]
    refine Change.get?_makeAll_of_ne i.pairwise_changes ?_ db
    intro c hc hkey
    rcases Access.mem_changes.mp hc with ⟨other, -, hc⟩ | ⟨e, he, hc⟩
    · cases hc
      exact Key.ofTable_ne_ofItem _ _ _ _ hkey
    · cases hc
      obtain ⟨htable, hitem, hname⟩ := Key.ofItem_injective (short_of_mem_entries he) hshort hkey
      exact hput ⟨e, he, htable, hitem, hname⟩

-- and leaves all other records as they are.
theorem get?_leaves_of_ne (i : Insertion) (hrule : db.rule = some mergeRule) {key : Bytes}
    (htable : ∀ table, key ≠ Key.ofTable table)
    (hitem : ∀ table item name, Key.Short table → key ≠ Key.ofItem table item name) :
    (i.leaves db).get? key = db.get? key := by
  rw [i.leaves_eq_makeAll hrule]
  refine Change.get?_makeAll_of_ne i.pairwise_changes ?_ db
  intro c hc hkey
  rcases Access.mem_changes.mp hc with ⟨table, -, hc⟩ | ⟨e, he, hc⟩
  · cases hc
    exact htable table hkey.symm
  · cases hc
    exact hitem _ _ _ (short_of_mem_entries he) hkey.symm

theorem rule_leaves (i : Insertion) (hrule : db.rule = some mergeRule) :
    (i.leaves db).rule = some mergeRule := by
  rw [i.leaves_eq_makeAll hrule, Change.rule_makeAll, hrule]

-- Two writes leave what a third one leaves that creates their tables and puts into each item what they put
-- there.
theorem leaves_leaves (hcreated : ∀ table, table ∈ k.created ↔ table ∈ i.created ∨ table ∈ j.created)
    (hsamples : ∀ table item name, itemSamples k.entries table item name
      = itemSamples i.entries table item name ++ itemSamples j.entries table item name)
    (hrule : db.rule = some mergeRule) : j.leaves (i.leaves db) = k.leaves db := by
  have hmid := i.rule_leaves hrule
  apply ext_get?
  · intro key
    by_cases htable : ∃ table, key = Key.ofTable table
    · obtain ⟨table, rfl⟩ := htable
      rw [j.get?_leaves_table hmid, i.get?_leaves_table hrule, k.get?_leaves_table hrule]
      by_cases hi : table ∈ i.created <;> by_cases hj : table ∈ j.created <;> simp [hcreated, hi, hj]
    by_cases hitem : ∃ table item name, Key.Short table ∧ key = Key.ofItem table item name
    · obtain ⟨table, item, name, hshort, rfl⟩ := hitem
      rw [j.get?_leaves_item hmid hshort, i.get?_leaves_item hrule hshort,
        k.get?_leaves_item hrule hshort, hsamples, mergeSome_append]
    · have htable : ∀ table, key ≠ Key.ofTable table := fun table h => htable ⟨table, h⟩
      have hitem : ∀ table item name, Key.Short table → key ≠ Key.ofItem table item name :=
        fun table item name hshort h => hitem ⟨table, item, name, hshort, h⟩
      rw [j.get?_leaves_of_ne hmid htable hitem, i.get?_leaves_of_ne hrule htable hitem,
        k.get?_leaves_of_ne hrule htable hitem]
  · rw [j.rule_leaves hmid, k.rule_leaves hrule]

-- A write succeeds in every state, or in none.
theorem ok_write_iff (i : Insertion) (hrule : db.rule = some mergeRule) :
    (outcome (backend.write i.settings i.metric) db).1 = .ok () ↔ i.metric.name ≠ "" ∧ i.Fits := by
  obtain ⟨result, hwrite⟩ := i.exists_outcome_write
  rw [hwrite db hrule]
  have hempty := hwrite (Database.empty (some mergeRule)) rfl
  constructor
  · rintro rfl
    obtain ⟨hname, hall⟩ := write_eq_ok hempty
    obtain ⟨tables, hc⟩ := contents_performAll contents_empty hall
    rw [filterMap_calls, List.nil_append] at hc
    exact ⟨hname, fun _ p hp => hc.short _ (hc.created _ (List.mem_map_of_mem hp))⟩
  · rintro ⟨hname, hfits⟩
    have hnone : ∀ table ∈ ([] : List String), table ∈ ([] : List String) := fun _ h => h
    obtain ⟨db', hall⟩ := exists_performAll_ok contents_empty hnone (hfits hname) i.metric.name
    change outcome (backend.performAll _ (i.metric.calls i.settings.tablePrefix)) _ = _ at hall
    have hok : outcome (backend.write i.settings i.metric) (Database.empty (some mergeRule))
        = (.ok (), db') := by
      rw [Backend.write, if_neg hname, outcome_liftAction, hall]
      rfl
    exact congrArg Prod.fst (hempty.symm.trans hok)

end Insertion

namespace Metric

variable {tablePrefix name : String}

theorem exists_put_table {m : Metric} {table : String} :
    (∃ p ∈ m.puts tablePrefix, p.table = table) ↔
      ∃ tier : Tier, ∃ s ∈ m.samples,
        tier.tableName tablePrefix (tier.tableEpoch (tier.slot s.time)) = table := by
  constructor
  · rintro ⟨p, hp, rfl⟩
    obtain ⟨tier, -, hp⟩ := List.mem_flatMap.mp hp
    obtain ⟨item, hitem, rfl⟩ := List.mem_map.mp hp
    obtain ⟨r, hr, rfl⟩ := (mem_itemEpochs tier _ item).mp hitem
    obtain ⟨s, hs, rfl⟩ := List.mem_map.mp hr
    exact ⟨tier, s, hs, by rw [Tier.tableEpoch_itemEpoch]⟩
  · rintro ⟨tier, s, hs, rfl⟩
    have hslot : ({ s with time := tier.slot s.time } : Sample) ∈ slotted tier m.samples :=
      List.mem_map_of_mem hs
    have hitem := (mem_itemEpochs tier _ _).mpr ⟨_, hslot, rfl⟩
    refine ⟨_, List.mem_flatMap.mpr ⟨tier, by cases tier <;> decide, List.mem_map_of_mem hitem⟩, ?_⟩
    rw [Tier.tableEpoch_itemEpoch]

theorem itemSamples_puts_append (xs ys : List Sample) (table : String) (item : Timestamp) (other : String) :
    itemSamples ((puts tablePrefix ⟨name, xs ++ ys⟩).map (entryOf name)) table item other
      = itemSamples ((puts tablePrefix ⟨name, xs⟩).map (entryOf name)) table item other
        ++ itemSamples ((puts tablePrefix ⟨name, ys⟩).map (entryOf name)) table item other := by
  by_cases htable : ∃ tier : Tier, table = tier.tableName tablePrefix (tier.tableEpoch item)
  · obtain ⟨tier, rfl⟩ := htable
    have hitem := fun samples => itemSamples_metric tablePrefix ⟨name, samples⟩ tier item other
    rw [hitem, hitem, hitem]
    split
    · rw [slotted, List.map_append, List.filter_append]
      rfl
    · rfl
  · have hnone : ∀ samples, itemSamples ((puts tablePrefix ⟨name, samples⟩).map (entryOf name)) table item
        other = [] := by
      intro samples
      apply itemSamples_eq_nil
      rintro e he ⟨rfl, rfl, -⟩
      obtain ⟨p, hp, rfl⟩ := List.mem_map.mp he
      obtain ⟨tier, hplace, -⟩ := mem_puts hp
      exact htable ⟨tier, hplace⟩
    rw [hnone, hnone, hnone, List.append_nil]

end Metric

namespace Insertion

variable {settings : StoreSettings} {name : String} {db : Database}

theorem fits_iff {i : Insertion} : i.Fits ↔ (i.metric.name ≠ "" → ∀ tier : Tier, ∀ s ∈ i.metric.samples,
    Key.Short (tier.tableName i.settings.tablePrefix (tier.tableEpoch (tier.slot s.time)))) := by
  refine forall_congr' fun _ => ?_
  constructor
  · intro h tier s hs
    obtain ⟨p, hp, htable⟩ := exists_put_table.mpr ⟨tier, s, hs, rfl⟩
    exact htable ▸ h p hp
  · intro h p hp
    obtain ⟨tier, s, hs, htable⟩ := exists_put_table.mp ⟨p, hp, rfl⟩
    exact htable ▸ h tier s hs

theorem Fits.mono {part whole : List Sample} (hsub : part ⊆ whole)
    (h : (Insertion.mk settings ⟨name, whole⟩).Fits) : (Insertion.mk settings ⟨name, part⟩).Fits := by
  rw [fits_iff] at h ⊢
  exact fun hname tier s hs => h hname tier s (hsub hs)

theorem leaves_unnamed {i : Insertion} (h : i.metric.name = "") (db : Database) : i.leaves db = db := by
  rw [leaves, Backend.write, if_pos h]
  rfl

theorem leaves_nil (settings : StoreSettings) (name : String) (db : Database) :
    (Insertion.mk settings ⟨name, []⟩).leaves db = db := by
  rw [leaves_eq, calls]
  split <;> rfl

theorem leaves_append {xs ys : List Sample} (hfits : (Insertion.mk settings ⟨name, xs ++ ys⟩).Fits)
    (hrule : db.rule = some mergeRule) :
    (Insertion.mk settings ⟨name, ys⟩).leaves ((Insertion.mk settings ⟨name, xs⟩).leaves db)
      = (Insertion.mk settings ⟨name, xs ++ ys⟩).leaves db := by
  by_cases hname : name = ""
  · rw [leaves_unnamed hname, leaves_unnamed hname, leaves_unnamed hname]
  have hxs := hfits.mono (List.subset_append_left xs ys)
  have hys := hfits.mono (List.subset_append_right xs ys)
  apply leaves_leaves _ _ hrule
  · intro table
    rw [mem_created_of_fits hfits hname, mem_created_of_fits hxs hname, mem_created_of_fits hys hname,
      exists_put_table, exists_put_table, exists_put_table]
    simp only [List.mem_append, or_and_right, exists_or]
  · intro table item other
    rw [entries_of_fits hfits hname, entries_of_fits hxs hname, entries_of_fits hys hname]
    exact itemSamples_puts_append xs ys table item other

-- What the writes of the parts of some samples leave, one after the other.
def leavesInParts (settings : StoreSettings) (name : String) (parts : List (List Sample))
    (db : Database) : Database :=
  parts.foldl (fun db part => (Insertion.mk settings ⟨name, part⟩).leaves db) db

theorem leavesInParts_eq {parts : List (List Sample)}
    (hfits : (Insertion.mk settings ⟨name, parts.flatten⟩).Fits) (hrule : db.rule = some mergeRule) :
    leavesInParts settings name parts db = (Insertion.mk settings ⟨name, parts.flatten⟩).leaves db := by
  induction parts generalizing db with
  | nil => exact (leaves_nil settings name db).symm
  | cons part parts ih =>
      have hrest := hfits.mono (List.subset_append_right part parts.flatten)
      change leavesInParts settings name parts ((Insertion.mk settings ⟨name, part⟩).leaves db) = _
      rw [ih hrest (rule_leaves _ hrule)]
      exact leaves_append hfits hrule

-- Where a metric's samples are split does not matter, as long as all its tables have names that are short
-- enough: two writes, or any number of them, leave the bytes that one write of all samples leaves, and if
-- the metric has a name all of them succeed.
theorem leaves_in_parts (settings : StoreSettings) (name : String) {db : Database}
    (hrule : db.rule = some mergeRule) :
    (∀ xs ys, (Insertion.mk settings ⟨name, xs ++ ys⟩).Fits →
      (Insertion.mk settings ⟨name, ys⟩).leaves ((Insertion.mk settings ⟨name, xs⟩).leaves db)
        = (Insertion.mk settings ⟨name, xs ++ ys⟩).leaves db) ∧
    ∀ parts : List (List Sample), (Insertion.mk settings ⟨name, parts.flatten⟩).Fits →
      leavesInParts settings name parts db = (Insertion.mk settings ⟨name, parts.flatten⟩).leaves db ∧
      (name ≠ "" → ∀ part ∈ parts, ∀ other : Database, other.rule = some mergeRule →
        (outcome (backend.write settings ⟨name, part⟩) other).1 = .ok ()) := by
  refine ⟨fun xs ys hfits => leaves_append hfits hrule, fun parts hfits => ?_⟩
  refine ⟨leavesInParts_eq hfits hrule, fun hname part hpart other hother => ?_⟩
  have hpartFits := hfits.mono fun s hs => List.mem_flatten.mpr ⟨part, hpart, hs⟩
  exact (ok_write_iff (Insertion.mk settings ⟨name, part⟩) hother).mpr ⟨hname, hpartFits⟩

-- Parts that share a slot and an empty one, above an item whose bytes are no samples.
theorem leaves_in_parts_undecodable :
    ∃ db : Database, db.get? (Key.ofItem "g-1m1h-0" 0 "m") = some [1, 2, 3] ∧
      leavesInParts ⟨"g", 1⟩ "m" [[⟨30, 1⟩, ⟨400, 2⟩], [], [⟨59, 3⟩]] db
        = (Insertion.mk ⟨"g", 1⟩ ⟨"m", [⟨30, 1⟩, ⟨400, 2⟩, ⟨59, 3⟩]⟩).leaves db := by
  let db := (Database.empty (some mergeRule)).put (Key.ofItem "g-1m1h-0" 0 "m", [1, 2, 3])
  have hrule : db.rule = some mergeRule := rfl
  have hstored : db.get? (Key.ofItem "g-1m1h-0" 0 "m") = some [1, 2, 3] := by
    rw [get?_put, if_pos rfl]
  have hroom : (Text.Utf8.encode "g").length + 104 ≤ Key.maxTableLength := by decide
  have hparts := (leaves_in_parts ⟨"g", 1⟩ "m" hrule).2 [[⟨30, 1⟩, ⟨400, 2⟩], [], [⟨59, 3⟩]]
    fun _ _ hp => short_of_mem_puts hroom hp
  exact ⟨db, hstored, hparts.1⟩

theorem length_encode_replicate (count : Nat) :
    (Text.Utf8.encode (String.ofList (List.replicate count 'g'))).length = count := by
  have hsize : 'g'.utf8Size = 1 := rfl
  simp [Text.Utf8.encode, hsize]

-- A write stops at the first table whose name is too long, here at its second one.
theorem created_of_long {tablePrefix : String} {limit : Nat} {m : Metric} {p q : ItemPut}
    {rest : List ItemPut} (hname : m.name ≠ "") (hputs : m.puts tablePrefix = p :: q :: rest)
    (hp : Key.Short p.table) (hq : ¬Key.Short q.table) :
    (Insertion.mk ⟨tablePrefix, limit⟩ m).created = [p.table] := by
  have hne : q.table ∉ [p.table] := by
    intro hmem
    rw [List.mem_singleton.mp hmem] at hq
    exact hq hp
  have hcalls : m.calls tablePrefix = .createTable p.table :: .put p.table p.item p.samples ::
      .createTable q.table :: .put q.table q.item q.samples ::
        withTables [q.table, p.table] rest := by
    change withTables [] (m.puts tablePrefix) = _
    rw [hputs, withTables, if_neg List.not_mem_nil, withTables, if_neg hne]
  have hgranted : Access.granted (Insertion.mk ⟨tablePrefix, limit⟩ m).accesses
      = [.create p.table, .lookup p.table, .merge ⟨p.table, p.item, m.name, p.samples⟩] := by
    have hfirst : (Access.create p.table).Granted := hp
    have hsecond : ¬(Access.create q.table).Granted := hq
    rw [accesses_eq, if_neg hname, hcalls]
    exact (granted_cons hfirst _).trans
      (congrArg _ (congrArg _ (congrArg _ (granted_cons_refused hsecond _))))
  rw [created, hgranted]
  rfl

-- There is room for the table of the first day, but not for that of the second. The tables of the coarser
-- tiers come after both, and a write of both days leaves none of them.
theorem leaves_ne_of_length {tablePrefix : String}
    (h : (Text.Utf8.encode tablePrefix).length = 65528) :
    (Insertion.mk ⟨tablePrefix, 1⟩ ⟨"m", [⟨86400, 2⟩]⟩).leaves
        ((Insertion.mk ⟨tablePrefix, 1⟩ ⟨"m", [⟨0, 1⟩]⟩).leaves (Database.empty (some mergeRule)))
      ≠ (Insertion.mk ⟨tablePrefix, 1⟩ ⟨"m", [⟨0, 1⟩] ++ [⟨86400, 2⟩]⟩).leaves
        (Database.empty (some mergeRule)) := by
  have hfirst : ∀ tier : Tier, Key.Short (tier.tableName tablePrefix 0) := by
    have hzero : (Text.Utf8.encode (toString (0 : Timestamp).toInt)).length = 1 := by decide
    intro tier
    rw [Key.Short, tier.length_encode_tableName_eq, h, hzero]
    decide
  have hsecond : ¬Key.Short (Tier.minute.tableName tablePrefix 86400) := by
    have hday : (Text.Utf8.encode (toString (86400 : Timestamp).toInt)).length = 5 := by decide
    rw [Key.Short, Tier.length_encode_tableName_eq, h, hday]
    decide
  have hfits : (Insertion.mk ⟨tablePrefix, 1⟩ ⟨"m", [⟨0, 1⟩]⟩).Fits := by
    rw [fits_iff]
    intro _ tier s hs
    have hepoch : tier.tableEpoch (tier.slot 0) = 0 := by cases tier <;> decide
    rw [List.mem_singleton.mp hs, hepoch]
    exact hfirst tier
  have hputs : ∃ samples more rest, puts tablePrefix ⟨"m", [⟨0, 1⟩] ++ [⟨86400, 2⟩]⟩
      = ⟨Tier.minute.tableName tablePrefix 0, 0, samples⟩
        :: ⟨Tier.minute.tableName tablePrefix 86400, 86400, more⟩ :: rest := ⟨_, _, _, rfl⟩
  have hname : "m" ≠ "" := by decide
  obtain ⟨samples, more, rest, hputs⟩ := hputs
  have hstopped : (Insertion.mk ⟨tablePrefix, 1⟩ ⟨"m", [⟨0, 1⟩] ++ [⟨86400, 2⟩]⟩).created
      = [Tier.minute.tableName tablePrefix 0] :=
    created_of_long hname hputs (hfirst .minute) hsecond
  -- the marker of the first table of the second tier is on one side only
  let table := Tier.fiveMinute.tableName tablePrefix 0
  have hput : ∃ p ∈ puts tablePrefix ⟨"m", [⟨0, 1⟩]⟩, p.table = table :=
    exists_put_table.mpr ⟨.fiveMinute, ⟨0, 1⟩, List.mem_singleton_self _, rfl⟩
  have hcreated := (mem_created_of_fits hfits hname table).mpr hput
  have hnot : table ∉ (Insertion.mk ⟨tablePrefix, 1⟩ ⟨"m", [⟨0, 1⟩] ++ [⟨86400, 2⟩]⟩).created := by
    rw [hstopped, List.mem_singleton]
    exact fun htable => absurd (Tier.tableName_injective htable).1 (by decide)
  have hrule : (Database.empty (some mergeRule)).rule = some mergeRule := rfl
  intro hsame
  have hget := congrArg (Database.get? · (Key.ofTable table)) hsame
  simp only [get?_leaves_table _ (rule_leaves _ hrule), get?_leaves_table _ hrule, if_pos hcreated,
    if_neg hnot, ite_self] at hget
  have hempty : (Database.empty (some mergeRule)).get? (Key.ofTable table) = none := by
    simp [Database.empty, Database.get?]
  rw [hempty] at hget
  cases hget

theorem leaves_append_ne :
    ∃ tablePrefix, tablePrefix = String.ofList (List.replicate 65528 'g') ∧
      (Insertion.mk ⟨tablePrefix, 1⟩ ⟨"m", [⟨86400, 2⟩]⟩).leaves
          ((Insertion.mk ⟨tablePrefix, 1⟩ ⟨"m", [⟨0, 1⟩]⟩).leaves (Database.empty (some mergeRule)))
        ≠ (Insertion.mk ⟨tablePrefix, 1⟩ ⟨"m", [⟨0, 1⟩] ++ [⟨86400, 2⟩]⟩).leaves
          (Database.empty (some mergeRule)) :=
  ⟨_, rfl, leaves_ne_of_length (length_encode_replicate 65528)⟩

end Insertion

end Cadence
