import Cadence.Proofs.Store.Accesses
import Cadence.Proofs.Store.Tiers

namespace Cadence

open Keyed Cadence.Metric Sample

theorem Backend.performAll_eq_forM {σ : Type} (b : Backend σ) (name : String)
    (calls : List WriteCall) :
    b.performAll name calls = (calls.map (name, ·)).forM fun call => b.perform call.1 call.2 := by
  induction calls with
  | nil => rfl
  | cons call calls ih =>
      rw [Backend.performAll, ih]
      rfl

structure Insertion where
  settings : StoreSettings
  metric : Metric

namespace Insertion

-- What a write leaves, whether it succeeds or not.
def leaves (i : Insertion) (db : Database) : Database :=
  (outcome (backend.write i.settings i.metric) db).2

-- The calls of a write, each with the name that it is about. A metric without a name is refused.
def calls (i : Insertion) : List (String × WriteCall) :=
  if i.metric.name = "" then []
  else (i.metric.calls i.settings.tablePrefix).map (i.metric.name, ·)

def perform (call : String × WriteCall) : Action Database Unit := backend.perform call.1 call.2

def accesses (i : Insertion) : List Access :=
  i.calls.flatMap fun call => Access.ofCall call.1 call.2

theorem leaves_eq (i : Insertion) (db : Database) :
    i.leaves db = (outcome (i.calls.forM perform) db).2 := by
  unfold leaves calls Backend.write
  split
  · rfl
  · rw [outcome_liftAction, Backend.performAll_eq_forM]
    rfl

theorem turns_calls_cons (i : Insertion) {db db' : Database} {parties : List (List (String × WriteCall))}
    (more : Turns perform parties (i.leaves db) db') : Turns perform (i.calls :: parties) db db' := by
  rw [leaves_eq] at more
  exact .cons rfl more

theorem turns_accesses {db db' : Database} {insertions : List Insertion}
    (h : Turns perform (insertions.map calls) db db') :
    Turns Access.perform (insertions.map accesses) db db' := by
  have hturns := h.refine fun call db => Access.outcome_ofCall call.1 call.2 db
  rw [List.map_map] at hturns
  exact hturns

theorem turns_alone (i : Insertion) (db : Database) :
    Turns Access.perform ([i].map accesses) db (i.leaves db) :=
  turns_accesses (i.turns_calls_cons (.done (by simp)))

theorem accesses_eq (i : Insertion) :
    i.accesses = if i.metric.name = "" then []
      else (i.metric.calls i.settings.tablePrefix).flatMap (Access.ofCall i.metric.name) := by
  unfold accesses calls
  split
  · rfl
  · rw [List.flatMap_map]

theorem ready_accesses (i : Insertion) (tables : List String) : Access.Ready tables i.accesses := by
  rw [accesses_eq]
  split
  · trivial
  · exact (Access.ready_withTables _ [] _).mono (List.nil_subset tables)

-- What a write puts, up to the first table whose name is too long.
def entries (i : Insertion) : List Entry := (Access.granted i.accesses).filterMap Access.entry?

def created (i : Insertion) : List String := (Access.granted i.accesses).filterMap Access.created?

theorem entries_sublist (i : Insertion) :
    i.entries.Sublist ((i.metric.puts i.settings.tablePrefix).map (entryOf i.metric.name)) := by
  have hsub : i.entries.Sublist (i.accesses.filterMap Access.entry?) :=
    (List.takeWhile_sublist _).filterMap _
  refine hsub.trans ?_
  rw [accesses_eq]
  split
  · exact List.nil_sublist _
  · rw [Access.filterMap_entry?, filterMap_calls]

theorem placed_of_mem_entries {i : Insertion} {e : Entry} (he : e ∈ i.entries) : e.Placed := by
  obtain ⟨p, hp, rfl⟩ := List.mem_map.mp (i.entries_sublist.subset he)
  exact placed_of_mem_puts hp _

end Insertion

variable {db db' : Database} {tables : List String} {log : List Entry}

theorem filled_of_turns (hf : Filled db tables log) {insertions : List Insertion}
    (h : Turns Access.perform (insertions.map Insertion.accesses) db db') :
    ∃ es tables', Interleaves (insertions.map Insertion.entries) es ∧
      Filled db' tables' (log ++ es) ∧
      ∀ table, table ∈ tables' ↔ table ∈ tables ∨ ∃ i ∈ insertions, table ∈ i.created := by
  have hready : ∀ p ∈ insertions.map Insertion.accesses, Access.Ready tables p := by
    simpa using fun i _ => i.ready_accesses tables
  obtain ⟨trace, tables', htrace, hdb', htables⟩ := h.filled hf hready
  have hentries := htrace.filterMap Access.entry?
  have hcreated := htrace.filterMap Access.created?
  rw [List.map_map, List.map_map] at hentries hcreated
  refine ⟨_, tables', hentries, hdb', ?_⟩
  intro table
  rw [htables, hcreated.mem_iff]
  simp [Insertion.created]

theorem filled_leaves (hf : Filled db tables log) (i : Insertion) :
    ∃ tables', Filled (i.leaves db) tables' (log ++ i.entries) ∧
      ∀ table, table ∈ tables' ↔ table ∈ tables ∨ table ∈ i.created := by
  obtain ⟨es, tables', hes, hdb', htables⟩ := filled_of_turns hf (i.turns_alone db)
  rw [hes.eq_of_singleton] at hdb'
  exact ⟨tables', hdb', by simpa using htables⟩

-- What holds of all puts of writers holds of a log that they have added to.
theorem forall_mem_append {P : Entry → Prop} (hP : ∀ (i : Insertion), ∀ e ∈ i.entries, P e)
    {insertions : List Insertion} {es : List Entry} (hlog : ∀ e ∈ log, P e)
    (hes : Interleaves (insertions.map Insertion.entries) es) : ∀ e ∈ log ++ es, P e := by
  intro e he
  rcases List.mem_append.mp he with he | he
  · exact hlog e he
  · obtain ⟨l, hl, he⟩ := (hes.mem_iff e).mp he
    obtain ⟨i, -, rfl⟩ := List.mem_map.mp hl
    exact hP i e he

theorem placed_append {insertions : List Insertion} {es : List Entry}
    (hplaced : ∀ e ∈ log, e.Placed) (hes : Interleaves (insertions.map Insertion.entries) es) :
    ∀ e ∈ log ++ es, e.Placed :=
  forall_mem_append (fun _ _ he => Insertion.placed_of_mem_entries he) hplaced hes

-- The states that writers leave, from an empty storage on.
inductive Reached : Database → Prop
  | empty : Reached (Database.empty (some mergeRule))
  | turns {db db' : Database} {insertions : List Insertion} (before : Reached db)
      (turns : Turns Access.perform (insertions.map Insertion.accesses) db db') : Reached db'

namespace Reached

theorem leaves (h : Reached db) (i : Insertion) : Reached (i.leaves db) :=
  .turns h (i.turns_alone db)

theorem filled_of_entries {P : Entry → Prop} (hP : ∀ (i : Insertion), ∀ e ∈ i.entries, P e)
    (h : Reached db) : ∃ tables log, Filled db tables log ∧ ∀ e ∈ log, P e := by
  induction h with
  | empty => exact ⟨[], [], filled_empty, by simp⟩
  | turns before turns ih =>
      obtain ⟨tables, log, hf, hlog⟩ := ih
      obtain ⟨es, tables', hes, hdb', -⟩ := filled_of_turns hf turns
      exact ⟨tables', log ++ es, hdb', forall_mem_append hP hlog hes⟩

theorem filled (h : Reached db) : ∃ tables log, Filled db tables log ∧ ∀ e ∈ log, e.Placed :=
  h.filled_of_entries fun _ _ he => Insertion.placed_of_mem_entries he

end Reached

namespace Metric

theorem pairwise_puts (tablePrefix : String) (m : Metric) :
    (m.puts tablePrefix).Pairwise fun p q => p.table = q.table → p.item ≠ q.item := by
  rw [puts, List.pairwise_flatMap]
  constructor
  · intro tier _
    rw [tierPuts, List.pairwise_map]
    refine (nodup_itemEpochs _ _).imp ?_
    intro item item' hne _
    exact hne
  · have htiers : Tier.all.Pairwise (· ≠ ·) := by decide
    refine htiers.imp ?_
    intro tier other hne p hp q hq htable
    obtain ⟨item, -, rfl⟩ := List.mem_map.mp hp
    obtain ⟨item', -, rfl⟩ := List.mem_map.mp hq
    exact absurd (Tier.tableName_injective htable).1 hne

end Metric

theorem length_le_one_of_pairwise {α : Type} {R : α → α → Prop} {xs : List α} (h : xs.Pairwise R)
    (hnone : ∀ x ∈ xs, ∀ y ∈ xs, ¬R x y) : xs.length ≤ 1 := by
  match xs with
  | [] => exact Nat.zero_le 1
  | [_] => exact Nat.le_refl 1
  | x :: y :: rest =>
      have hxy := (List.pairwise_cons.mp h).1 y List.mem_cons_self
      exact absurd hxy (hnone x (by simp) y (by simp))

namespace Insertion

-- A write gives a sample to a slot if it leaves that sample in an empty storage.
def Gives (i : Insertion) (tablePrefix : String) (tier : Tier) (name : String) (s : Sample) : Prop :=
  Stores (i.leaves (Database.empty (some mergeRule))) tablePrefix tier name s

def Writes (i : Insertion) (tablePrefix : String) (tier : Tier) (name : String) (t : Timestamp) :
    Prop :=
  ∃ bits, i.Gives tablePrefix tier name ⟨t, bits⟩

-- Writes that have no slot in common, in any tier.
def Apart (a b : Insertion) : Prop :=
  ∀ tablePrefix tier name t,
    ¬(a.Writes tablePrefix tier name t ∧ b.Writes tablePrefix tier name t)

variable {tablePrefix : String} {tier : Tier} {name : String} {t : Timestamp} {bits : UInt64}

theorem gives_iff (i : Insertion) (s : Sample) :
    i.Gives tablePrefix tier name s
      ↔ lastPut i.entries tablePrefix tier name s.time = some s.bits := by
  obtain ⟨tables, hf, -⟩ := filled_leaves filled_empty i
  exact stores_iff hf.toContents (fun e he => placed_of_mem_entries he) tablePrefix tier name s

theorem granted_ofCall {name : String} {call : WriteCall}
    (hshort : ∀ table, call = .createTable table → Key.Short table) :
    ∀ access ∈ Access.ofCall name call, access.Granted := by
  cases call with
  | createTable table =>
      intro access haccess
      rw [List.mem_singleton.mp haccess]
      exact hshort table rfl
  | put table item samples => simp [Access.ofCall, Access.Granted]

-- Whether all tables of a write have names that are short enough. A metric without a name has none.
def Fits (i : Insertion) : Prop :=
  i.metric.name ≠ "" → ∀ p ∈ i.metric.puts i.settings.tablePrefix, Key.Short p.table

theorem granted_of_fits {i : Insertion} (h : i.Fits) : Access.granted i.accesses = i.accesses := by
  have hall : ∀ access ∈ i.accesses, access.Granted := by
    rw [accesses_eq]
    split
    · exact fun _ haccess => nomatch haccess
    · rename_i hname
      intro access haccess
      obtain ⟨call, hcall, haccess⟩ := List.mem_flatMap.mp haccess
      refine granted_ofCall ?_ access haccess
      rintro table rfl
      obtain ⟨-, p, hp, rfl⟩ := mem_withTables_iff.mp hcall
      exact h hname p hp
  have htake : Access.granted (i.accesses ++ []) = i.accesses ++ [] :=
    List.takeWhile_append_of_pos fun access haccess => decide_eq_true (hall access haccess)
  rwa [List.append_nil] at htake

theorem entries_of_fits {i : Insertion} (h : i.Fits) (hname : i.metric.name ≠ "") :
    i.entries = (i.metric.puts i.settings.tablePrefix).map (entryOf i.metric.name) := by
  rw [entries, granted_of_fits h, accesses_eq, if_neg hname, Access.filterMap_entry?, filterMap_calls]

theorem mem_created_of_fits {i : Insertion} (h : i.Fits) (hname : i.metric.name ≠ "") (table : String) :
    table ∈ i.created ↔ ∃ p ∈ i.metric.puts i.settings.tablePrefix, p.table = table := by
  have hcreate : ∀ call, tableOf? call = some table ↔ call = .createTable table := by
    intro call
    cases call <;> simp [tableOf?]
  rw [created, granted_of_fits h, accesses_eq, if_neg hname, Access.filterMap_created?, List.mem_filterMap]
  simp only [hcreate, exists_eq_right]
  exact mem_withTables_iff.trans (and_iff_right List.not_mem_nil)

-- Where there is room for the names of tables, a metric with a name is put as a whole.
theorem entries_of_room {i : Insertion} (hname : i.metric.name ≠ "")
    (hroom : (Text.Utf8.encode i.settings.tablePrefix).length + 104 ≤ Key.maxTableLength) :
    i.entries = Keyed.entries i.settings.tablePrefix [i.metric] := by
  have hfits : i.Fits := fun _ p hp => short_of_mem_puts hroom hp
  rw [entries_of_fits hfits hname]
  simp [Keyed.entries]

theorem gives_iff_of_room {i : Insertion} (hname : i.metric.name ≠ "")
    (hroom : (Text.Utf8.encode i.settings.tablePrefix).length + 104 ≤ Key.maxTableLength)
    (s : Sample) :
    i.Gives tablePrefix tier name s ↔ tablePrefix = i.settings.tablePrefix ∧ name = i.metric.name ∧
      lastAt s.time (slotted tier i.metric.samples) = some s.bits := by
  rw [gives_iff, entries_of_room hname hroom]
  constructor
  · intro hlast
    obtain ⟨e, he, ⟨htable, -, -⟩, -⟩ := exists_of_lastAt_itemSamples hlast
    obtain ⟨other, hother⟩ := table_of_mem_entries he
    obtain ⟨-, rfl, -⟩ := Tier.tableName_injective (htable.symm.trans hother)
    rw [lastPut, ← Tier.tableEpoch_itemEpoch, lastAt_itemSamples_entries] at hlast
    by_cases hsame : i.metric.name = name
    · exact ⟨rfl, hsame.symm, by simpa [samplesOf, hsame] using hlast.2⟩
    · have hnone : samplesOf name [i.metric] = [] := by simp [samplesOf, hsame]
      rw [hnone] at hlast
      cases hlast.2
  · rintro ⟨rfl, rfl, hlast⟩
    rw [lastPut, ← Tier.tableEpoch_itemEpoch, lastAt_itemSamples_entries]
    exact ⟨rfl, by simpa [samplesOf] using hlast⟩

theorem not_writes_iff (i : Insertion) :
    ¬i.Writes tablePrefix tier name t ↔ lastPut i.entries tablePrefix tier name t = none := by
  simp only [Writes, gives_iff, Option.eq_none_iff_forall_ne_some, not_exists]

-- What a write puts under an instant of an item, it gives to the slot that has its place there.
theorem gives_of_lastAt (i : Insertion) {table : String} {item : Timestamp}
    (h : lastAt t (itemSamples i.entries table item name) = some bits) :
    ∃ tablePrefix, ∃ tier : Tier, table = tier.tableName tablePrefix (tier.tableEpoch t) ∧
      i.Gives tablePrefix tier name ⟨t, bits⟩ := by
  obtain ⟨e, he, ⟨rfl, rfl, -⟩, s, hs, rfl⟩ := exists_of_lastAt_itemSamples h
  obtain ⟨tablePrefix, tier, htable, hitem⟩ := placed_of_mem_entries he
  rw [← hitem s hs, Tier.tableEpoch_itemEpoch] at htable
  refine ⟨tablePrefix, tier, htable, (i.gives_iff _).mpr ?_⟩
  rwa [lastPut, ← htable, hitem s hs]

theorem length_filter_entries_le_one (i : Insertion) (table : String) (item : Timestamp)
    (name : String) : (i.entries.filter (·.IsOf table item name)).length ≤ 1 := by
  have hpairwise : (i.entries.filter (·.IsOf table item name)).Pairwise
      fun e f => e.table = f.table → e.item ≠ f.item := by
    refine List.Pairwise.sublist (List.filter_sublist.trans i.entries_sublist) ?_
    rw [List.pairwise_map]
    exact pairwise_puts _ _
  refine length_le_one_of_pairwise hpairwise ?_
  intro e he f hf hne
  simp only [List.mem_filter, decide_eq_true_eq] at he hf
  exact hne (he.2.1.trans hf.2.1.symm) (he.2.2.1.trans hf.2.2.1.symm)

end Insertion

end Cadence
