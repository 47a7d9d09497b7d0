import Cadence.Proofs.Store.Layout
import Cadence.Proofs.Store.Writers

namespace Cadence

open Keyed Sample Cadence.Metric

namespace FetchUnit

-- The reads of a plan with the place of each name in the list of names.
structure Covers (units : List FetchUnit) (limit : Nat) (partitions : List Partition)
    (names : List String) : Prop where
  places : ∃ placed : List (Partition × List (String × Nat)),
    units = placed.map (fun u => ⟨u.1, u.2.map Prod.fst⟩) ∧
      placed.flatMap (fun u => u.2.map (u.1, ·)) = partitions.product names.zipIdx
  once : (partitions.product names.zipIdx).Nodup
  bounded : ∀ u ∈ units, u.names.length ≤ max limit 1

theorem covers_units {settings : StoreSettings} {partitions : List Partition}
    (hpartitions : partitions.Nodup) (names : List String) :
    Covers (units settings partitions names) settings.batchLimit partitions names := by
  let batches := Names.batches settings.batchLimit names.zipIdx
  refine ⟨⟨partitions.flatMap fun p => batches.map (p, ·), ?_, ?_⟩, ?_, ?_⟩
  · have hnames : Names.batches settings.batchLimit names = batches.map (List.map Prod.fst) := by
      rw [← Names.batches_map, List.zipIdx_map_fst]
    rw [units, hnames, List.map_flatMap]
    simp only [List.map_map]
    rfl
  · have hbatches : ∀ p : Partition, (batches.map (p, ·)).flatMap (fun u => u.2.map (u.1, ·))
        = names.zipIdx.map (p, ·) := by
      intro p
      rw [List.flatMap_map, ← Names.flatten_batches settings.batchLimit names.zipIdx, List.map_flatten]
      rfl
    rw [List.flatMap_assoc]
    simp only [hbatches]
    rfl
  · have hplaces : (names.zipIdx.map Prod.snd).Nodup := by
      rw [List.zipIdx_map_snd]
      exact List.nodup_range'
    exact hpartitions.product (List.Nodup.of_map _ hplaces)
  · intro u hu
    exact Names.length_le_of_mem_batches ((mem_units u).mp hu).2

end FetchUnit

theorem Window.nodup_partitions {w : Window} {tablePrefix : String} {partitions : List Partition}
    (h : w.partitions tablePrefix = .ok partitions) : partitions.Nodup := by
  have hitems := w.pairwise_items.imp Int.ne_of_lt
  rw [← map_item_partitions h] at hitems
  exact List.Nodup.of_map _ hitems

-- What calls leave one after the other, each with the name that it is about. One that fails changes
-- nothing.
def performEach (calls : List (String × WriteCall)) (db : Database) : Database :=
  calls.foldl (fun db call => (outcome (backend.perform call.1 call.2) db).2) db

variable {db : Database} {tables : List String} {log : List Entry}

theorem state_of_error {name : String} {call : WriteCall} {db' : Database} {e : BackendError}
    (h : outcome (backend.perform name call) db = (.error e, db')) : db' = db := by
  have hwriting : ∀ write : Database → Except BackendError Database,
      outcome (writing write) db = (.error e, db') → db' = db := by
    intro write h
    cases hwrite : write db with
    | ok changed =>
        rw [outcome_writing_ok hwrite] at h
        cases h
    | error e =>
        rw [outcome_writing_error hwrite] at h
        cases h
        rfl
  cases call with
  | createTable table => exact hwriting _ h
  | put table item samples => exact hwriting _ h

def CreatedBy (calls : List (String × WriteCall)) (db : Database) (table : String) : Prop :=
  ∃ before name after, calls = before ++ (name, .createTable table) :: after ∧
    (outcome (backend.perform name (.createTable table)) (performEach before db)).1 = .ok ()

theorem createdBy_nil (db : Database) (table : String) : ¬CreatedBy [] db table := by
  rintro ⟨before, name, after, hcalls, -⟩
  cases before <;> cases hcalls

theorem createdBy_cons (call : String × WriteCall) (calls : List (String × WriteCall)) (db : Database)
    (table : String) :
    CreatedBy (call :: calls) db table
      ↔ (tableOf? call.2 = some table ∧ (outcome (backend.perform call.1 call.2) db).1 = .ok ()) ∨
        CreatedBy calls (outcome (backend.perform call.1 call.2) db).2 table := by
  constructor
  · rintro ⟨before, name, after, hcalls, hok⟩
    cases before with
    | nil =>
        cases hcalls
        exact .inl ⟨rfl, hok⟩
    | cons first before =>
        cases hcalls
        exact .inr ⟨before, name, after, rfl, hok⟩
  · rintro (⟨htable, hok⟩ | ⟨before, name, after, rfl, hok⟩)
    · obtain ⟨name, call⟩ := call
      cases call with
      | createTable other =>
          cases htable
          exact ⟨[], name, calls, rfl, hok⟩
      | put _ _ _ => cases htable
    · exact ⟨call :: before, name, after, rfl, hok⟩

theorem tables_performEach (calls : List (String × WriteCall)) (hc : Contents db tables log) :
    ∃ tables' log', Contents (performEach calls db) tables' log' ∧
      ∀ table, table ∈ tables' ↔ table ∈ tables ∨ CreatedBy calls db table := by
  induction calls generalizing db tables log with
  | nil => exact ⟨tables, log, hc, fun table => (or_iff_left (createdBy_nil db table)).symm⟩
  | cons call calls ih =>
      change ∃ tables' log', Contents (performEach calls
        (outcome (backend.perform call.1 call.2) db).2) tables' log' ∧ _
      simp only [createdBy_cons]
      cases hcall : outcome (backend.perform call.1 call.2) db with
      | mk result next =>
          cases result with
          | ok _ =>
              obtain ⟨tables', log', hnext, htables⟩ := ih (contents_perform hc hcall)
              refine ⟨tables', log', hnext, fun table => ?_⟩
              rw [htables, List.mem_append, Option.mem_toList, or_assoc, or_left_comm]
              simp
          | error e =>
              rw [state_of_error hcall]
              simpa using ih hc

theorem contents_performEach (calls : List (String × WriteCall)) (hc : Contents db tables log) :
    ∃ tables' log', Contents (performEach calls db) tables' log' := by
  obtain ⟨tables', log', hcontents, -⟩ := tables_performEach calls hc
  exact ⟨tables', log', hcontents⟩

theorem eq_singleton_of_mem_iff {sorted : List String}
    (hsorted : sorted.Pairwise fun a b => compare a b = .lt) {name : String}
    (hmem : ∀ other, other ∈ sorted ↔ other ∈ [name]) : sorted = [name] := by
  have hnodup : sorted.Nodup := by
    refine hsorted.imp ?_
    rintro a b hlt rfl
    have hself : compare a a = .eq := Std.ReflCmp.compare_self
    rw [hself] at hlt
    cases hlt
  exact List.perm_singleton.mp
    ((List.perm_ext_iff_of_nodup hnodup (List.nodup_singleton name)).mpr hmem)

namespace Window

variable {w : Window} {tablePrefix : String} {partitions : List Partition}

theorem toSeries_setOf_eq_none (h : w.partitions tablePrefix = .ok partitions)
    (hstart : ¬(w.start < w.stop ∨ Timestamp.lowest + 8 ≤ w.start.toInt)) (log : List Entry) (name : String) :
    (w.setOf log partitions name).toSeries w.start.toInt = none := by
  refine (PointSet.toSeries_of_early (w.step_setOf log partitions name) (fun hsome => ?_) hstart).2
  obtain ⟨first, -, -, -, hfirst, -⟩ := PointSet.exists_bounds hsome
  exact lt_of_partitions h (bounds_of_mem_setOf hfirst).1

end Window

-- A fetch has a series for each name, in the order of the bytes of the names, and a name that stands
-- for itself has the same series alone.
theorem exists_series (hc : Contents db tables log) {settings : StoreSettings} {w : Window}
    {partitions : List Partition} (hpartitions : w.partitions settings.tablePrefix = .ok partitions)
    (pattern : String) :
    ∃ sorted : List String, ∃ seriesOf : String → Except QueryError (Series Float),
      sorted.Pairwise (fun a b => compare (Text.Utf8.encode a) (Text.Utf8.encode b) = .lt) ∧
      (∀ name, name ∈ sorted ↔ name ∈ Names.expand pattern) ∧
      outcome ((Store.ofBackend backend settings).fetch pattern w) db = (sorted.mapM seriesOf, db) ∧
      (∀ name, Names.expand name = [name] →
        outcome ((Store.ofBackend backend settings).fetch name w) db
          = ((seriesOf name).map fun series => [series], db)) ∧
      ((w.start < w.stop ∨ Timestamp.lowest + 8 ≤ w.start.toInt) →
        ∀ name, ∃ series, seriesOf name = .ok series) ∧
      (¬(w.start < w.stop ∨ Timestamp.lowest + 8 ≤ w.start.toInt) →
        ∀ name, seriesOf name = .error .overflow) := by
  have horder : ∀ count, (List.range count).Perm (List.range count) := fun _ => .refl _
  have hfetch := fun pattern => outcome_series (outcome_fetchMap_eq hc horder hpartitions pattern)
  have hsets := PointMap.exists_toList_ofList_map (w.name_setOf log partitions)
  obtain ⟨sorted, hsorted, hmem, hlist⟩ := hsets (Names.expand pattern)
  refine ⟨sorted, fun name => QueryError.inWords ((w.setOf log partitions name).toSeries w.start.toInt),
    hsorted.imp Text.Utf8.compare_encode, hmem, ?_, ?_, ?_, ?_⟩
  · rw [Store.ofBackend, hfetch, PointMap.toSeries, hlist, List.mapM_map, ← mapM_inWords]
    rfl
  · intro name hname
    obtain ⟨single, hsingle, hmem, hlist⟩ := hsets (Names.expand name)
    rw [hname] at hmem
    rw [Store.ofBackend, hfetch, PointMap.toSeries, hlist, eq_singleton_of_mem_iff hsingle hmem]
    cases hseries : (w.setOf log partitions name).toSeries w.start.toInt <;>
      simp [hseries, QueryError.inWords, Except.map]
  · intro hstart name
    obtain ⟨series, hseries, -⟩ :=
      Window.exists_toSeries_setOf hpartitions (Window.lowest_le_firstSlot hpartitions hstart) log name
    exact ⟨series, congrArg QueryError.inWords hseries⟩
  · intro hstart name
    exact congrArg QueryError.inWords (Window.toSeries_setOf_eq_none hpartitions hstart log name)

-- Where the batches of names are cut is not seen in what is fetched.
theorem batches_unseen (tablePrefix : String) (limit other : Nat) (calls : List (String × WriteCall))
    {order order' : Nat → Fanout.Order} (horder : ∀ count, (order count).Perm (List.range count))
    (horder' : ∀ count, (order' count).Perm (List.range count)) {w : Window}
    {partitions : List Partition} (hpartitions : w.partitions tablePrefix = .ok partitions)
    (pattern : String) {db : Database}
    (hdb : db = performEach calls (Database.empty (some mergeRule))) :
    (∃ m, outcome (backend.fetchMap ⟨tablePrefix, limit⟩ order pattern w) db = (.ok m, db) ∧
      outcome (backend.fetchMap ⟨tablePrefix, other⟩ order' pattern w) db = (.ok m, db)) ∧
    (∃ units, FetchUnit.plan ⟨tablePrefix, limit⟩ w (Names.expand pattern) = .ok units ∧
      FetchUnit.Covers units limit partitions (Names.expand pattern)) ∧
    ((∀ name ∈ Names.expand pattern, Names.expand name = [name]) →
      ∃ sorted : List String, ∃ seriesOf : String → Except QueryError (Series Float),
        sorted.Pairwise (fun a b => compare (Text.Utf8.encode a) (Text.Utf8.encode b) = .lt) ∧
        (∀ name, name ∈ sorted ↔ name ∈ Names.expand pattern) ∧
        (∀ name ∈ sorted, outcome ((Store.ofBackend backend ⟨tablePrefix, limit⟩).fetch name w) db
          = ((seriesOf name).map fun series => [series], db)) ∧
        outcome ((Store.ofBackend backend ⟨tablePrefix, limit⟩).fetch pattern w) db
          = (sorted.mapM seriesOf, db) ∧
        ((w.start < w.stop ∨ Timestamp.lowest + 8 ≤ w.start.toInt) →
          ∀ name, ∃ series, seriesOf name = .ok series) ∧
        (¬(w.start < w.stop ∨ Timestamp.lowest + 8 ≤ w.start.toInt) →
          ∀ name, seriesOf name = .error .overflow)) := by
  obtain ⟨tables, log, hc⟩ := contents_performEach calls contents_empty
  rw [← hdb] at hc
  have hlimit : w.partitions (StoreSettings.mk tablePrefix limit).tablePrefix = .ok partitions :=
    hpartitions
  have hother : w.partitions (StoreSettings.mk tablePrefix other).tablePrefix = .ok partitions :=
    hpartitions
  refine ⟨⟨_, outcome_fetchMap_eq hc horder hlimit pattern,
    outcome_fetchMap_eq hc horder' hother pattern⟩, ?_, ?_⟩
  · refine ⟨FetchUnit.units ⟨tablePrefix, limit⟩ partitions (Names.expand pattern), ?_,
      FetchUnit.covers_units (Window.nodup_partitions hpartitions) _⟩
    rw [FetchUnit.plan, hlimit]
    rfl
  · intro halone
    obtain ⟨sorted, seriesOf, hsorted, hmem, hfetch, hsingle, hseries⟩ := exists_series hc hlimit pattern
    exact ⟨sorted, seriesOf, hsorted, hmem,
      fun name hname => hsingle name (halone name ((hmem name).mp hname)), hfetch, hseries⟩

-- A name that is given twice, once in a batch with another name and once alone.
theorem batches_unseen_twice :
    ∃ db m, outcome (backend.fetchMap ⟨"g", 2⟩ List.range "b,a,b" ⟨0, 3600⟩) db = (.ok m, db) ∧
      outcome (backend.fetchMap ⟨"g", 0⟩ (fun count => (List.range count).reverse) "b,a,b" ⟨0, 3600⟩) db
        = (.ok m, db) ∧
      ∃ sorted : List String, ∃ seriesOf : String → Except QueryError (Series Float),
        (∀ name, name ∈ sorted ↔ name ∈ ["b", "a", "b"]) ∧
        outcome ((Store.ofBackend backend ⟨"g", 2⟩).fetch "a" ⟨0, 3600⟩) db
          = ((seriesOf "a").map fun series => [series], db) ∧
        outcome ((Store.ofBackend backend ⟨"g", 2⟩).fetch "b,a,b" ⟨0, 3600⟩) db
          = (sorted.mapM seriesOf, db) ∧ ∃ series, seriesOf "a" = .ok series := by
  have hnames : Names.expand "b,a,b" = ["b", "a", "b"] := by
    have htop : Names.topLevel 0 "b,a,b".toList = [['b'], ['a'], ['b']] := by decide
    have hplain : ∀ c : Char, c ≠ '\x7b' → Names.alternatives [c] = [[c]] :=
      fun c hc => Names.alternatives_plain (by simpa using hc.symm)
    rw [Names.expand, Names.expandChars, htop]
    simp [hplain]
  have halone : ∀ name ∈ Names.expand "b,a,b", Names.expand name = [name] := by
    rw [hnames]
    intro name hname
    simp only [List.mem_cons, List.not_mem_nil, or_false] at hname
    rcases hname with rfl | rfl | rfl <;>
      exact Names.expand_plain (by decide) (by decide) (by decide)
  have hpartitions : (⟨0, 3600⟩ : Window).partitions "g" = .ok [⟨"g-1m1h-0", 0⟩] := rfl
  let calls : List (String × WriteCall) := [("b", .createTable "g-1m1h-0"),
    ("b", .put "g-1m1h-0" 0 [⟨60, 1⟩]), ("a", .put "g-1m1h-0" 0 [⟨120, 2⟩])]
  obtain ⟨⟨m, hfirst, hsecond⟩, -, hseries⟩ := batches_unseen "g" 2 0 calls (fun _ => .refl _)
    (fun count => (List.range count).reverse_perm) hpartitions "b,a,b" rfl
  obtain ⟨sorted, seriesOf, -, hmem, hsingle, hfetch, hok, -⟩ := hseries halone
  rw [hnames] at hmem
  exact ⟨_, m, hfirst, hsecond, sorted, seriesOf, hmem, hsingle "a" ((hmem "a").mpr (by simp)), hfetch,
    hok (.inl (by decide)) "a"⟩

end Cadence
