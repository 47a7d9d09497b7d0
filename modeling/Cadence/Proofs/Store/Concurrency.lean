import Cadence.Proofs.Store.Writers

namespace Cadence

open Keyed Cadence.Metric Sample

namespace Keyed

def Entry.valueAt? (table : String) (item : Timestamp) (name : String) (t : Timestamp) (e : Entry) :
    Option UInt64 :=
  if e.IsOf table item name then lastAt t e.samples else none

theorem lastAt_itemSamples (log : List Entry) (table : String) (item : Timestamp) (name : String)
    (t : Timestamp) :
    lastAt t (itemSamples log table item name) = lastSome (Entry.valueAt? table item name t) log := by
  induction log with
  | nil => rfl
  | cons e log ih =>
      rw [lastSome_cons, ← ih, ← List.singleton_append, itemSamples_append, lastAt_append]
      by_cases hof : e.IsOf table item name
      · simp [Entry.valueAt?, itemSamples, hof]
      · have hnil : itemSamples [e] table item name = [] := itemSamples_eq_nil (by simpa using hof)
        have hnone : lastAt t [] = none := rfl
        rw [hnil, hnone, Entry.valueAt?, if_neg hof]

theorem lastPut_append (log more : List Entry) (tablePrefix : String) (tier : Tier) (name : String)
    (t : Timestamp) :
    lastPut (log ++ more) tablePrefix tier name t
      = (lastPut more tablePrefix tier name t).or (lastPut log tablePrefix tier name t) := by
  rw [lastPut, itemSamples_append, lastAt_append]
  rfl

-- The values under an instant decide what an item holds, once something was put into it.
theorem record?_congr_values {log log' : List Entry} {table : String} {item : Timestamp}
    {name : String}
    (hput : (∃ e ∈ log, e.IsOf table item name) ↔ ∃ e ∈ log', e.IsOf table item name)
    (hvalues : ∀ t, lastAt t (itemSamples log table item name)
      = lastAt t (itemSamples log' table item name)) :
    record? log table item name = record? log' table item name := by
  have hunion : union [] (itemSamples log table item name)
      = union [] (itemSamples log' table item name) :=
    union_congr fun t => by rw [hvalues t]
  simp only [record?, hput, hunion]

theorem record?_congr_filter {log log' : List Entry} {table : String} {item : Timestamp}
    {name : String}
    (h : log.filter (·.IsOf table item name) = log'.filter (·.IsOf table item name)) :
    record? log table item name = record? log' table item name := by
  apply record?_congr_values
  · have hmem : ∀ xs : List Entry, (∃ e ∈ xs, e.IsOf table item name)
        ↔ ∃ e, e ∈ xs.filter (·.IsOf table item name) := by simp
    rw [hmem, hmem, h]
  · simp only [itemSamples, h, implies_true]

end Keyed

variable {db db' : Database} {insertions : List Insertion} {es es' : List Entry}

section Slots

variable {tablePrefix : String} {tier : Tier} {name : String} {t : Timestamp} {bits : UInt64}

theorem lastPut_eq_none_iff (hes : Interleaves (insertions.map Insertion.entries) es) :
    lastPut es tablePrefix tier name t = none
      ↔ ∀ i ∈ insertions, ¬i.Writes tablePrefix tier name t := by
  simp only [Insertion.not_writes_iff, lastPut, lastAt_itemSamples, hes.lastSome_eq_none_iff,
    List.forall_mem_map]

theorem exists_gives_of_lastPut (hes : Interleaves (insertions.map Insertion.entries) es)
    (h : lastPut es tablePrefix tier name t = some bits) :
    ∃ i ∈ insertions, i.Gives tablePrefix tier name ⟨t, bits⟩ := by
  rw [lastPut, lastAt_itemSamples] at h
  obtain ⟨l, hl, hlast⟩ := hes.exists_of_lastSome h
  obtain ⟨i, hi, rfl⟩ := List.mem_map.mp hl
  refine ⟨i, hi, (i.gives_iff _).mpr ?_⟩
  rw [lastPut, lastAt_itemSamples, hlast]

end Slots

-- Writers without a slot in common give no item different values at the same instant.
theorem pairwise_values (hapart : insertions.Pairwise Insertion.Apart) (table : String)
    (item : Timestamp) (name : String) (t : Timestamp) :
    (insertions.map Insertion.entries).Pairwise fun l r => ∀ b c,
      lastSome (Entry.valueAt? table item name t) l = some b →
      lastSome (Entry.valueAt? table item name t) r = some c → b = c := by
  simp only [← lastAt_itemSamples, List.pairwise_map]
  refine hapart.imp ?_
  intro x y hnone b c hb hc
  obtain ⟨tablePrefix, tier, htable, hgives⟩ := x.gives_of_lastAt hb
  obtain ⟨other, tier', htable', hgives'⟩ := y.gives_of_lastAt hc
  obtain ⟨rfl, rfl, -⟩ := Tier.tableName_injective (htable.symm.trans htable')
  exact absurd ⟨⟨b, hgives⟩, ⟨c, hgives'⟩⟩ (hnone tablePrefix tier name t)

theorem record?_eq_of_apart (hapart : insertions.Pairwise Insertion.Apart)
    (hes : Interleaves (insertions.map Insertion.entries) es)
    (hes' : Interleaves (insertions.map Insertion.entries) es') (log : List Entry) (table : String)
    (item : Timestamp) (name : String) :
    record? (log ++ es) table item name = record? (log ++ es') table item name := by
  apply record?_congr_values
  · simp only [List.mem_append, hes.mem_iff, hes'.mem_iff]
  · intro t
    have hagree := pairwise_values hapart table item name t
    rw [itemSamples_append, itemSamples_append, lastAt_append, lastAt_append]
    congr 1
    apply Option.ext
    intro bits
    rw [lastAt_itemSamples, lastAt_itemSamples, hes.lastSome_eq_some_iff hagree,
      hes'.lastSome_eq_some_iff hagree]

theorem eq_of_apart {other : Database} (hdb : Reached db)
    (hapart : insertions.Pairwise Insertion.Apart)
    (h : Turns Access.perform (insertions.map Insertion.accesses) db db')
    (hother : Turns Access.perform (insertions.map Insertion.accesses) db other) : other = db' := by
  obtain ⟨tables, log, hf, -⟩ := hdb.filled
  obtain ⟨es, _, hes, hdb', htables⟩ := filled_of_turns hf h
  obtain ⟨es', _, hes', hother', htables'⟩ := filled_of_turns hf hother
  refine hother'.eq hdb' (fun table => ?_) (record?_eq_of_apart hapart hes' hes log)
  rw [htables', htables]

-- No order of the accesses of some writers loses a sample or makes one up: the slots that are stored
-- are the old ones and the written ones, and a slot has its old value or one that it was given. If no
-- two writers write a slot in common, the order does not matter at all.
theorem stores_turns (hdb : Reached db)
    (h : Turns Access.perform (insertions.map Insertion.accesses) db db') :
    (∀ tablePrefix tier name t,
      ((∃ bits, Stores db' tablePrefix tier name ⟨t, bits⟩)
        ↔ (∃ bits, Stores db tablePrefix tier name ⟨t, bits⟩) ∨
          ∃ i ∈ insertions, i.Writes tablePrefix tier name t) ∧
      ((∀ i ∈ insertions, ¬i.Writes tablePrefix tier name t) → ∀ bits,
        Stores db' tablePrefix tier name ⟨t, bits⟩ ↔ Stores db tablePrefix tier name ⟨t, bits⟩) ∧
      ((∃ i ∈ insertions, i.Writes tablePrefix tier name t) → ∀ bits,
        Stores db' tablePrefix tier name ⟨t, bits⟩ →
          ∃ i ∈ insertions, i.Gives tablePrefix tier name ⟨t, bits⟩)) ∧
    (insertions.Pairwise Insertion.Apart →
      ∀ other, Turns Access.perform (insertions.map Insertion.accesses) db other → other = db') := by
  obtain ⟨tables, log, hf, hplaced⟩ := hdb.filled
  obtain ⟨es, tables', hes, hdb', htables⟩ := filled_of_turns hf h
  refine ⟨fun tablePrefix tier name t => ?_, fun hapart other hother => ?_⟩
  · simp only [stores_iff hdb'.toContents (placed_append hplaced hes),
      stores_iff hf.toContents hplaced, lastPut_append]
    cases hlast : lastPut es tablePrefix tier name t with
    | none =>
        have hnone := (lastPut_eq_none_iff hes).mp hlast
        refine ⟨(or_iff_left ?_).symm, fun _ _ => Iff.rfl, ?_⟩
        · rintro ⟨i, hi, hwrites⟩
          exact hnone i hi hwrites
        · rintro ⟨i, hi, hwrites⟩
          exact absurd hwrites (hnone i hi)
    | some bits =>
        obtain ⟨i, hi, hgives⟩ := exists_gives_of_lastPut hes hlast
        have hwrites : i.Writes tablePrefix tier name t := ⟨bits, hgives⟩
        refine ⟨iff_of_true ⟨bits, rfl⟩ (.inr ⟨i, hi, hwrites⟩), ?_, ?_⟩
        · exact fun hnone => absurd hwrites (hnone i hi)
        · intro _ other hother
          cases hother
          exact ⟨i, hi, hgives⟩
  · exact eq_of_apart hdb hapart h hother

def Insertion.ofSample (s : Sample) : Insertion := ⟨⟨"g", 1⟩, ⟨"m", [s]⟩⟩

theorem Insertion.gives_ofSample_iff (r s : Sample) {tablePrefix : String} {tier : Tier}
    {name : String} : (ofSample r).Gives tablePrefix tier name s
      ↔ tablePrefix = "g" ∧ name = "m" ∧ tier.slot r.time = s.time ∧ r.bits = s.bits := by
  have hname : "m" ≠ "" := by decide
  have hroom : (Text.Utf8.encode "g").length + 104 ≤ Key.maxTableLength := by decide
  rw [gives_iff_of_room hname hroom]
  simp [ofSample, slotted, lastAt, lastUnder, lastSome_singleton]

-- Two writers share an item of the day tier, but no slot: one overwrites a sample and the other adds one.
theorem stores_turns_days :
    ∃ db db', Reached db ∧
      Turns Access.perform
        ([.ofSample ⟨0, 1⟩, .ofSample ⟨86400, 2⟩].map Insertion.accesses) db db' ∧
      Stores db "g" .day "m" ⟨0, 7⟩ ∧ Stores db' "g" .day "m" ⟨0, 1⟩ ∧
      ∀ other, Turns Access.perform
        ([.ofSample ⟨0, 1⟩, .ofSample ⟨86400, 2⟩].map Insertion.accesses) db other → other = db' := by
  let a := Insertion.ofSample ⟨0, 1⟩
  let b := Insertion.ofSample ⟨86400, 2⟩
  let old := Insertion.ofSample ⟨0, 7⟩
  have hreached := Reached.empty.leaves old
  obtain ⟨db', hturns⟩ := Turns.exists_turns Access.perform ([a, b].map Insertion.accesses)
    (old.leaves (Database.empty (some mergeRule)))
  obtain ⟨hslots, hsame⟩ := stores_turns hreached hturns
  obtain ⟨hstored, -, hgiven⟩ := hslots "g" .day "m" 0
  have hold : old.Gives "g" .day "m" ⟨0, 7⟩ := (Insertion.gives_ofSample_iff _ _).mpr (by decide)
  have ha : a.Gives "g" .day "m" ⟨0, 1⟩ := (Insertion.gives_ofSample_iff _ _).mpr (by decide)
  have hwritten : ∃ i ∈ [a, b], i.Writes "g" .day "m" 0 := ⟨a, .head _, 1, ha⟩
  refine ⟨_, db', hreached, hturns, hold, ?_, hsame ?_⟩
  · obtain ⟨bits, hbits⟩ := hstored.mpr (.inr hwritten)
    obtain ⟨i, hi, hgives⟩ := hgiven hwritten bits hbits
    rcases List.mem_pair.mp hi with rfl | rfl
    · obtain ⟨-, -, -, rfl⟩ := (Insertion.gives_ofSample_iff _ _).mp hgives
      exact hbits
    · obtain ⟨-, -, hslot, -⟩ := (Insertion.gives_ofSample_iff _ _).mp hgives
      have hne : Tier.day.slot 86400 ≠ 0 := by decide
      exact absurd hslot hne
  · refine List.pairwise_pair.mpr ?_
    rintro tablePrefix tier name t ⟨⟨bits, hgives⟩, bits', hgives'⟩
    obtain ⟨-, -, hslot, -⟩ := (Insertion.gives_ofSample_iff _ _).mp hgives
    obtain ⟨-, -, hslot', -⟩ := (Insertion.gives_ofSample_iff _ _).mp hgives'
    -- the two days are different slots in every tier
    have hne : tier.slot 0 ≠ tier.slot 86400 := by cases tier <;> decide
    exact hne (hslot.trans hslot'.symm)

variable {tables : List String} {log : List Entry}

theorem filled_leaves_leaves (hf : Filled db tables log) (a b : Insertion) :
    ∃ tables', Filled (b.leaves (a.leaves db)) tables' (log ++ (a.entries ++ b.entries)) ∧
      ∀ table, table ∈ tables' ↔ table ∈ tables ∨ table ∈ a.created ∨ table ∈ b.created := by
  obtain ⟨between, ha, hbetween⟩ := filled_leaves hf a
  obtain ⟨tables', hb, htables⟩ := filled_leaves ha b
  refine ⟨tables', List.append_assoc _ _ _ ▸ hb, ?_⟩
  intro table
  rw [htables, hbetween, or_assoc]

theorem get?_of_turns (hdb : Reached db) (a b : Insertion)
    (h : Turns Insertion.perform [a.calls, b.calls] db db') (key : Bytes) :
    db'.get? key = (b.leaves (a.leaves db)).get? key ∨
      db'.get? key = (a.leaves (b.leaves db)).get? key := by
  obtain ⟨tables, log, hf, -⟩ := hdb.filled
  have haccesses : Turns Access.perform ([a, b].map Insertion.accesses) db db' :=
    Insertion.turns_accesses h
  obtain ⟨es, _, hes, hdb', htables⟩ := filled_of_turns hf haccesses
  obtain ⟨_, hab, htablesAB⟩ := filled_leaves_leaves hf a b
  obtain ⟨_, hba, -⟩ := filled_leaves_leaves hf b a
  by_cases hkey : ∃ table item name, Key.Short table ∧ key = Key.ofItem table item name
  · obtain ⟨table, item, name, hshort, rfl⟩ := hkey
    rw [hdb'.item _ _ _ hshort, hab.item _ _ _ hshort, hba.item _ _ _ hshort]
    -- each writer puts into the item at most once
    have hitem := hes.filter (·.IsOf table item name)
    rcases hitem.eq_append_or_eq_append (a.length_filter_entries_le_one table item name)
      (b.length_filter_entries_le_one table item name) with hfilter | hfilter
    · left
      apply record?_congr_filter
      rw [List.filter_append, List.filter_append, hfilter, List.filter_append]
    · right
      apply record?_congr_filter
      rw [List.filter_append, List.filter_append, hfilter, List.filter_append]
  · left
    refine hdb'.get?_eq hab (fun table => ?_) fun table item name hshort hitem => ?_
    · rw [htables, htablesAB]
      simp
    · exact absurd ⟨table, item, name, hshort, hitem⟩ hkey

-- If the calls of two writers take turns, each record is what it is after one of the writes and then the
-- other. Which of them is the later one may differ from record to record, unless they have no slot in
-- common: then the whole is what is left by one after the other.
theorem get?_turns (hdb : Reached db) (a b : Insertion)
    (h : Turns Insertion.perform [a.calls, b.calls] db db') :
    (∀ key, db'.get? key = (b.leaves (a.leaves db)).get? key ∨
      db'.get? key = (a.leaves (b.leaves db)).get? key) ∧
    (a.Apart b → db' = b.leaves (a.leaves db)) := by
  refine ⟨get?_of_turns hdb a b h, fun hapart => ?_⟩
  have hpairwise : [a, b].Pairwise Insertion.Apart := List.pairwise_pair.mpr hapart
  have hsequence : Turns Insertion.perform ([a, b].map Insertion.calls) db (b.leaves (a.leaves db)) :=
    a.turns_calls_cons (b.turns_calls_cons (.done (by simp)))
  exact eq_of_apart hdb hpairwise (Insertion.turns_accesses hsequence) (Insertion.turns_accesses h)

-- One writer puts a minute before another one begins, and what is coarser after that one is done.
theorem exists_turns_around :
    ∃ db', Turns Insertion.perform
        [(Insertion.ofSample ⟨0, 1⟩).calls, (Insertion.ofSample ⟨0, 2⟩).calls]
        (Database.empty (some mergeRule)) db' ∧
      Holds db' "g-1m1h-0" 0 "m" ⟨0, 2⟩ ∧ Holds db' "g-5m1d-0" 0 "m" ⟨0, 1⟩ := by
  let minute : ItemPut := ⟨"g-1m1h-0", 0, [⟨0, 1⟩]⟩
  let coarser : List ItemPut :=
    [⟨"g-5m1d-0", 0, [⟨0, 1⟩]⟩, ⟨"g-1h7d-0", 0, [⟨0, 1⟩]⟩, ⟨"g-1d1y-0", 0, [⟨0, 1⟩]⟩]
  have hfirst : ∃ db, outcome (backend.performAll "m" (withTables [] [minute]))
      (Database.empty (some mergeRule)) = (.ok (), db) :=
    exists_performAll_ok contents_empty (by simp) (by decide) "m"
  obtain ⟨begun, hbegun⟩ := hfirst
  obtain ⟨_, hc⟩ := contents_performAll contents_empty hbegun
  have hother : ∃ db, outcome (backend.performAll "m"
      (withTables [] ((⟨"m", [⟨0, 2⟩]⟩ : Metric).puts "g"))) begun = (.ok (), db) :=
    exists_performAll_ok hc (by simp) (by decide) "m"
  obtain ⟨between, hbetween⟩ := hother
  obtain ⟨_, hc'⟩ := contents_performAll hc hbetween
  have hrest : ∃ db, outcome (backend.performAll "m" (withTables [minute.table] coarser)) between
      = (.ok (), db) := by
    refine exists_performAll_ok hc' ?_ (by decide) "m"
    intro table htable
    rw [List.mem_singleton.mp htable]
    exact hc'.created (entryOf "m" minute) (.head _)
  obtain ⟨db', hdb'⟩ := hrest
  obtain ⟨_, hc''⟩ := contents_performAll hc' hdb'
  rw [Backend.performAll_eq_forM] at hbegun hbetween hdb'
  refine ⟨db', Turns.between hbegun hbetween hdb', ?_, ?_⟩
  · exact (holds_iff hc'' (by decide) 0 "m" ⟨0, 2⟩).mpr (by decide)
  · exact (holds_iff hc'' (by decide) 0 "m" ⟨0, 1⟩).mpr (by decide)

theorem get?_turns_around :
    ∃ db db', Reached db ∧
      Turns Insertion.perform
        [(Insertion.ofSample ⟨0, 1⟩).calls, (Insertion.ofSample ⟨0, 2⟩).calls] db db' ∧
      Holds db' "g-1m1h-0" 0 "m" ⟨0, 2⟩ ∧ Holds db' "g-5m1d-0" 0 "m" ⟨0, 1⟩ ∧
      ∀ key, db'.get? key
          = ((Insertion.ofSample ⟨0, 2⟩).leaves ((Insertion.ofSample ⟨0, 1⟩).leaves db)).get? key ∨
        db'.get? key
          = ((Insertion.ofSample ⟨0, 1⟩).leaves ((Insertion.ofSample ⟨0, 2⟩).leaves db)).get? key := by
  obtain ⟨db', hturns, hminute, hcoarser⟩ := exists_turns_around
  exact ⟨_, db', .empty, hturns, hminute, hcoarser, (get?_turns .empty _ _ hturns).1⟩

-- The whole then is not what the two writes leave one after the other, in either order.
theorem turns_ne_leaves :
    ∃ db', Reached (Database.empty (some mergeRule)) ∧
      Turns Insertion.perform
        [(Insertion.ofSample ⟨0, 1⟩).calls, (Insertion.ofSample ⟨0, 2⟩).calls]
        (Database.empty (some mergeRule)) db' ∧
      db' ≠ (Insertion.ofSample ⟨0, 2⟩).leaves
        ((Insertion.ofSample ⟨0, 1⟩).leaves (Database.empty (some mergeRule))) ∧
      db' ≠ (Insertion.ofSample ⟨0, 1⟩).leaves
        ((Insertion.ofSample ⟨0, 2⟩).leaves (Database.empty (some mergeRule))) := by
  obtain ⟨db', hturns, hminute, hcoarser⟩ := exists_turns_around
  refine ⟨db', .empty, hturns, ?_, ?_⟩
  · intro hdb'
    rw [hdb'] at hcoarser
    obtain ⟨_, hf, -⟩ := filled_leaves_leaves filled_empty (.ofSample ⟨0, 1⟩) (.ofSample ⟨0, 2⟩)
    have hlast := (holds_iff hf.toContents (by decide) 0 "m" ⟨0, 1⟩).mp hcoarser
    exact absurd hlast (by decide)
  · intro hdb'
    rw [hdb'] at hminute
    obtain ⟨_, hf, -⟩ := filled_leaves_leaves filled_empty (.ofSample ⟨0, 2⟩) (.ofSample ⟨0, 1⟩)
    have hlast := (holds_iff hf.toContents (by decide) 0 "m" ⟨0, 2⟩).mp hminute
    exact absurd hlast (by decide)

end Cadence
