import Cadence.Backend.Keyed
import Cadence.Proofs.Backend.Key
import Cadence.Proofs.Outcome
import Cadence.Proofs.Sample.Union
import Mathlib.Data.Set.List

namespace Cadence.Keyed

open Sample

structure Entry where
  table : String
  item : Timestamp
  name : String
  samples : List Sample

def Entry.IsOf (e : Entry) (table : String) (item : Timestamp) (name : String) : Prop :=
  e.table = table ∧ e.item = item ∧ e.name = name

instance (e : Entry) (table : String) (item : Timestamp) (name : String) :
    Decidable (e.IsOf table item name) :=
  inferInstanceAs (Decidable (_ ∧ _ ∧ _))

def itemSamples (log : List Entry) (table : String) (item : Timestamp) (name : String) :
    List Sample :=
  (log.filter fun e => e.IsOf table item name).flatMap Entry.samples

theorem itemSamples_append (log more : List Entry) (table : String) (item : Timestamp)
    (name : String) :
    itemSamples (log ++ more) table item name
      = itemSamples log table item name ++ itemSamples more table item name := by
  simp [itemSamples]

theorem itemSamples_eq_nil {log : List Entry} {table : String} {item : Timestamp} {name : String}
    (h : ∀ e ∈ log, ¬e.IsOf table item name) : itemSamples log table item name = [] := by
  rw [itemSamples, List.filter_eq_nil_iff.mpr (by simpa using h)]
  rfl

-- The value of an item's record: none before the first put.
def record? (log : List Entry) (table : String) (item : Timestamp) (name : String) :
    Option Bytes :=
  if ∃ e ∈ log, e.IsOf table item name then
    some (encode (union [] (itemSamples log table item name)))
  else none

theorem readable_record? (log : List Entry) (table : String) (item : Timestamp) (name : String) :
    readable (record? log table item name) = union [] (itemSamples log table item name) := by
  by_cases h : ∃ e ∈ log, e.IsOf table item name
  · rw [record?, if_pos h, readable_encode]
  · have hnone : ∀ e ∈ log, ¬e.IsOf table item name := fun e he hof => h ⟨e, he, hof⟩
    have hempty : readable none = [] := readable_encode []
    rw [record?, if_neg h, itemSamples_eq_nil hnone, hempty, union_nil_nil]

theorem record?_append_self (log : List Entry) (e : Entry) :
    record? (log ++ [e]) e.table e.item e.name
      = some (mergeRule (record? log e.table e.item e.name) (encode e.samples)) := by
  have hof : e.IsOf e.table e.item e.name := ⟨rfl, rfl, rfl⟩
  have hself : itemSamples [e] e.table e.item e.name = e.samples := by simp [itemSamples, hof]
  have hexists : ∃ x ∈ log ++ [e], x.IsOf e.table e.item e.name := ⟨e, by simp, hof⟩
  rw [record?, if_pos hexists, itemSamples_append, hself, mergeRule_encode, readable_record?]
  congr 2
  apply union_congr
  intro t
  rw [lastAt_append, lastAt_union, Option.or_assoc]

theorem record?_append_of_ne {log : List Entry} {e : Entry} {table : String} {item : Timestamp}
    {name : String} (h : ¬e.IsOf table item name) :
    record? (log ++ [e]) table item name = record? log table item name := by
  have hnil : itemSamples [e] table item name = [] := itemSamples_eq_nil (by simpa using h)
  simp [record?, itemSamples_append, hnil, or_and_right, exists_or, h]

-- A database that was filled by creating some tables and by some puts.
structure Contents (db : Database) (tables : List String) (log : List Entry) : Prop where
  rule : db.rule = some mergeRule
  short : ∀ table ∈ tables, Key.Short table
  created : ∀ e ∈ log, e.table ∈ tables
  marker : ∀ table, (db.get? (Key.ofTable table)).isSome ↔ table ∈ tables
  item : ∀ table item name, Key.Short table →
    db.get? (Key.ofItem table item name) = record? log table item name
  only : ∀ key value, db.get? key = some value →
    (∃ table, key = Key.ofTable table) ∨
      ∃ e ∈ log, key = Key.ofItem e.table e.item e.name

theorem contents_empty : Contents (Database.empty (some mergeRule)) [] [] where
  rule := rfl
  short := by simp
  created := by simp
  marker := by simp [Database.empty, Database.get?]
  item := by simp [Database.empty, Database.get?, record?]
  only := by simp [Database.empty, Database.get?]

theorem get?_put (db : Database) (key value other : Bytes) :
    (db.put (key, value)).get? other = if key = other then some value else db.get? other := by
  simp [Database.put, Database.get?, Std.ExtTreeMap.getElem?_insert]

variable {db db' : Database} {tables : List String} {log : List Entry}

theorem ext_get? (hrecords : ∀ key, db.get? key = db'.get? key) (hrule : db.rule = db'.rule) :
    db = db' := by
  have hsame : db.records = db'.records := Std.ExtTreeMap.ext_getElem? hrecords
  cases db
  cases db'
  simp only at hsame hrule
  rw [hsame, hrule]

theorem outcome_writing_ok {write : Database → Except BackendError Database}
    (h : write db = .ok db') : outcome (writing write) db = (.ok (), db') := by
  change writing write db = _
  simp only [writing, ExceptT.mk, h]

theorem outcome_writing_error {write : Database → Except BackendError Database} {e : BackendError}
    (h : write db = .error e) : outcome (writing write) db = (.error e, db) := by
  change writing write db = _
  simp only [writing, ExceptT.mk, h]

theorem outcome_writing_eq_ok {write : Database → Except BackendError Database}
    (h : outcome (writing write) db = (.ok (), db')) : write db = .ok db' := by
  cases hwrite : write db with
  | ok changed =>
      rw [outcome_writing_ok hwrite] at h
      cases h
      rfl
  | error e =>
      rw [outcome_writing_error hwrite] at h
      cases h

theorem createTable_eq_ok {table : String} (h : createTable table db = .ok db') :
    Key.Short table ∧ db' = db.put (Key.ofTable table, []) := by
  by_cases hlong : Key.maxTableLength < (Text.Utf8.encode table).length
  · simp [createTable, hlong] at h
  · simp only [createTable, hlong, if_false] at h
    cases h
    exact ⟨Nat.le_of_not_lt hlong, rfl⟩

theorem contents_createTable (hc : Contents db tables log) {table : String}
    (h : createTable table db = .ok db') : Contents db' (table :: tables) log := by
  obtain ⟨hshort, rfl⟩ := createTable_eq_ok h
  refine ⟨hc.rule, ?_, fun e he => List.mem_cons_of_mem _ (hc.created e he), ?_, ?_, ?_⟩
  · intro t ht
    rcases List.mem_cons.mp ht with rfl | ht
    · exact hshort
    · exact hc.short t ht
  · intro t
    rw [get?_put, List.mem_cons]
    by_cases he : table = t
    · simp [he]
    · have hkey : Key.ofTable table ≠ Key.ofTable t := fun hk => he (Key.ofTable_injective hk)
      rw [if_neg hkey, hc.marker]
      simp [Ne.symm he]
  · intro t i n ht
    rw [get?_put, if_neg (Key.ofTable_ne_ofItem table t i n), hc.item t i n ht]
  · intro key value hget
    rw [get?_put] at hget
    split at hget
    · rename_i hkey
      exact .inl ⟨table, hkey.symm⟩
    · exact hc.only key value hget

theorem mergeItem_eq (hrule : db.rule = some mergeRule) (table : String) (item : Timestamp)
    (name : String) (samples : List Sample) :
    mergeItem table item name samples db = .ok (db.put (Key.ofItem table item name,
      mergeRule (db.get? (Key.ofItem table item name)) (encode samples))) := by
  simp only [mergeItem, Database.mergeAll, hrule]
  rfl

theorem ensureTable_ok (hc : Contents db tables log) {table : String} (ht : table ∈ tables) :
    ensureTable db table = .ok () := by
  obtain ⟨value, hvalue⟩ := Option.isSome_iff_exists.mp ((hc.marker table).mpr ht)
  rw [ensureTable, hvalue]

theorem ensureTable_error (hc : Contents db tables log) {table : String} (ht : table ∉ tables) :
    ensureTable db table = .error (.notFound ("table " ++ table)) := by
  have hmarker : db.get? (Key.ofTable table) = none := by
    rw [← Option.not_isSome_iff_eq_none, hc.marker]
    exact ht
  rw [ensureTable, hmarker]

theorem put_eq_ok (hc : Contents db tables log) {table : String} {item : Timestamp} {name : String}
    {samples : List Sample} (h : put table item name samples db = .ok db') :
    table ∈ tables ∧ mergeItem table item name samples db = .ok db' := by
  by_cases ht : table ∈ tables
  · rw [put, ensureTable_ok hc ht] at h
    exact ⟨ht, h⟩
  · rw [put, ensureTable_error hc ht] at h
    cases h

theorem createTable_ok (db : Database) {table : String} (h : Key.Short table) :
    createTable table db = .ok (db.put (Key.ofTable table, [])) := by
  have hlong : ¬Key.maxTableLength < (Text.Utf8.encode table).length := Nat.not_lt.mpr h
  simp only [createTable, hlong, if_false]

theorem put_ok (hc : Contents db tables log) {table : String} (ht : table ∈ tables)
    (item : Timestamp) (name : String) (samples : List Sample) :
    ∃ changed, put table item name samples db = .ok changed := by
  rw [put, ensureTable_ok hc ht]
  exact ⟨_, mergeItem_eq hc.rule table item name samples⟩

theorem contents_put (hc : Contents db tables log) {table : String} {item : Timestamp}
    {name : String} {samples : List Sample} (h : put table item name samples db = .ok db') :
    Contents db' tables (log ++ [⟨table, item, name, samples⟩]) := by
  obtain ⟨htable, hmerge⟩ := put_eq_ok hc h
  have hshort := hc.short table htable
  rw [mergeItem_eq hc.rule, hc.item table item name hshort] at hmerge
  cases hmerge
  refine ⟨hc.rule, hc.short, ?_, ?_, ?_, ?_⟩
  · intro e he
    rcases List.mem_append.mp he with he | he
    · exact hc.created e he
    · rw [List.mem_singleton.mp he]
      exact htable
  · intro t
    rw [get?_put, if_neg (Key.ofTable_ne_ofItem t table item name).symm, hc.marker]
  · intro t i n ht
    rw [get?_put]
    by_cases hkey : Key.ofItem table item name = Key.ofItem t i n
    · obtain ⟨rfl, rfl, rfl⟩ := Key.ofItem_injective hshort ht hkey
      rw [if_pos rfl]
      exact (record?_append_self log ⟨table, item, name, samples⟩).symm
    · have hne : ¬Entry.IsOf ⟨table, item, name, samples⟩ t i n := by
        rintro ⟨rfl, rfl, rfl⟩
        exact hkey rfl
      rw [if_neg hkey, record?_append_of_ne hne, hc.item t i n ht]
  · intro key value hget
    rw [get?_put] at hget
    split at hget
    · rename_i hkey
      exact .inr ⟨⟨table, item, name, samples⟩, by simp, hkey.symm⟩
    · rcases hc.only key value hget with hmarker | ⟨e, he, hkey⟩
      · exact .inl hmarker
      · exact .inr ⟨e, by simp [he], hkey⟩

-- Whether an item holds a sample.
def Holds (db : Database) (table : String) (item : Timestamp) (name : String) (s : Sample) : Prop :=
  ∃ bytes samples, db.get? (Key.ofItem table item name) = some bytes ∧
    decode bytes = .ok samples ∧ s ∈ samples

theorem holds_iff (hc : Contents db tables log) {table : String} (hshort : Key.Short table)
    (item : Timestamp) (name : String) (s : Sample) :
    Holds db table item name s
      ↔ lastAt s.time (itemSamples log table item name) = some s.bits := by
  rw [← mem_union_nil]
  constructor
  · rintro ⟨bytes, samples, hget, hdecode, hs⟩
    rw [hc.item table item name hshort, record?] at hget
    split at hget
    · cases hget
      rw [decode_encode] at hdecode
      cases hdecode
      exact hs
    · cases hget
  · intro hs
    refine ⟨encode (union [] (itemSamples log table item name)), _, ?_, decode_encode _, hs⟩
    rw [hc.item table item name hshort, record?, if_pos]
    -- an item into which nothing was put holds no sample
    apply Classical.byContradiction
    intro hput
    rw [itemSamples_eq_nil fun e he hof => hput ⟨e, he, hof⟩, union_nil_nil] at hs
    cases hs

theorem span_eq_none {keys : List Bytes} (h : span keys = none) : keys = [] := by
  cases keys with
  | nil => rfl
  | cons first keys =>
      unfold span at h
      split at h <;> cases h

theorem bounds_of_span {keys : List Bytes} {low high : Bytes} (h : span keys = some (low, high)) :
    low ∈ keys ∧ high ∈ keys ∧
      ∀ key ∈ keys, (compare low key).isLE ∧ (compare key high).isLE := by
  induction keys generalizing low high with
  | nil => cases h
  | cons first keys ih =>
      cases hrest : span keys with
      | none =>
          rw [span, hrest] at h
          cases h
          simp [span_eq_none hrest]
      | some bounds =>
          obtain ⟨l, g⟩ := bounds
          obtain ⟨hl, hg, hall⟩ := ih hrest
          obtain ⟨m, hm, hmem, hmfirst, hml⟩ := Bytes.lesser_isLE first l
          obtain ⟨n, hn, hnem, hnfirst, hng⟩ := Bytes.greater_isLE first g
          simp only [span, hrest, hm, hn] at h
          cases h
          refine ⟨?_, ?_, ?_⟩
          · rcases hmem with rfl | rfl
            · exact List.mem_cons_self
            · exact List.mem_cons_of_mem _ hl
          · rcases hnem with rfl | rfl
            · exact List.mem_cons_self
            · exact List.mem_cons_of_mem _ hg
          · intro key hkey
            rcases List.mem_cons.mp hkey with rfl | hkey
            · exact ⟨hmfirst, hnfirst⟩
            · obtain ⟨hlow, hhigh⟩ := hall key hkey
              exact ⟨Std.TransCmp.isLE_trans hml hlow, Std.TransCmp.isLE_trans hhigh hng⟩

theorem mem_scan_included (db : Database) (low high key value : Bytes) :
    (key, value) ∈ db.scan (.included low) (.included high)
      ↔ db.get? key = some value ∧ (compare low key).isLE ∧ (compare key high).isLE := by
  simp [Database.scan, Database.get?, Bound.isBelow, Bound.isAbove,
    Std.ExtTreeMap.mem_toList_iff_getElem?_eq_some]

-- Between two items of one table and one epoch there are only items of both.
theorem exists_name_of_between (hc : Contents db tables log) {table : String} (ht : table ∈ tables)
    {item : Timestamp} {first last : String} {key value : Bytes} (hget : db.get? key = some value)
    (hlow : (compare (Key.ofItem table item first) key).isLE)
    (hhigh : (compare key (Key.ofItem table item last)).isLE) :
    ∃ name, key = Key.ofItem table item name := by
  obtain ⟨rest, rfl⟩ := Bytes.exists_append_of_between hlow hhigh
  rcases hc.only _ value hget with ⟨other, hkey⟩ | ⟨e, he, hkey⟩
  · exact absurd hkey.symm (Key.ofTable_ne_itemStem other table item rest)
  · obtain ⟨-, -, rfl⟩ :=
      Key.itemStem_injective (hc.short table ht) (hc.short e.table (hc.created e he)) hkey
    exact ⟨e.name, rfl⟩

theorem itemName_ofItem (table : String) (item : Timestamp) (name : String) :
    itemName (Key.itemStem table item) (Key.ofItem table item name) = .ok name := by
  rw [itemName, Key.ofItem, List.drop_left, Text.Utf8.decode_encode]

theorem pairwise_scan (db : Database) (low high : Bound) :
    (db.scan low high).Pairwise fun a b => compare a.1 b.1 = .lt :=
  Std.ExtTreeMap.ordered_keys_toList.filter _

theorem exists_scanned (hc : Contents db tables log) {table : String} (ht : table ∈ tables)
    (item : Timestamp) (first last : String) :
    ∃ scanned : List (String × Bytes),
      scanned.map (fun r => (Key.ofItem table item r.1, r.2))
        = db.scan (.included (Key.ofItem table item first))
            (.included (Key.ofItem table item last)) := by
  have hrange := Set.range_list_map fun r : String × Bytes => (Key.ofItem table item r.1, r.2)
  refine (Set.ext_iff.mp hrange _).mpr ?_
  rintro ⟨key, value⟩ hr
  obtain ⟨hget, hlow, hhigh⟩ := (mem_scan_included db _ _ key value).mp hr
  obtain ⟨name, rfl⟩ := exists_name_of_between hc ht hget hlow hhigh
  exact ⟨(name, value), rfl⟩

theorem mapM_itemName (table : String) (item : Timestamp) (scanned : List (String × Bytes)) :
    ((scanned.map fun r => (Key.ofItem table item r.1, r.2)).mapM fun (key, value) => do
      return (← itemName (Key.itemStem table item) key, value)) = .ok scanned := by
  rw [mapM_eq_ok_iff, List.map_map]
  apply List.map_congr_left
  rintro ⟨name, value⟩ -
  simp only [Function.comp_apply, itemName_ofItem]
  rfl

-- A read scans from one of the names to another, with all of them in between, and keeps the names that
-- were asked for.
theorem batchGet_eq (hc : Contents db tables log) {table : String} (ht : table ∈ tables)
    (item : Timestamp) {names : List String} (hnames : names ≠ []) :
    ∃ first last, ∃ scanned : List (String × Bytes),
      span (names.map (Key.ofItem table item))
        = some (Key.ofItem table item first, Key.ofItem table item last) ∧
      scanned.map (fun r => (Key.ofItem table item r.1, r.2))
        = db.scan (.included (Key.ofItem table item first))
            (.included (Key.ofItem table item last)) ∧
      batchGet table item names db = .ok (scanned.filter fun r => names.contains r.1) := by
  cases hspan : span (names.map (Key.ofItem table item)) with
  | none => exact absurd (List.map_eq_nil_iff.mp (span_eq_none hspan)) hnames
  | some bounds =>
      obtain ⟨low, high⟩ := bounds
      obtain ⟨hlow, hhigh, -⟩ := bounds_of_span hspan
      obtain ⟨first, -, rfl⟩ := List.mem_map.mp hlow
      obtain ⟨last, -, rfl⟩ := List.mem_map.mp hhigh
      obtain ⟨scanned, hscanned⟩ := exists_scanned hc ht item first last
      refine ⟨first, last, scanned, rfl, hscanned, ?_⟩
      simp only [batchGet, ensureTable_ok hc ht, hspan, ← hscanned, mapM_itemName]
      rfl

-- A read finds the records of the names that were asked for, and no others, in the order of their bytes.
theorem batchGet_of_mem (hc : Contents db tables log) {table : String} (ht : table ∈ tables)
    (item : Timestamp) (names : List String) :
    ∃ found, batchGet table item names db = .ok found ∧
      (found.Pairwise fun a b => compare (Text.Utf8.encode a.1) (Text.Utf8.encode b.1) = .lt) ∧
      ∀ name bytes, (name, bytes) ∈ found
        ↔ name ∈ names ∧ record? log table item name = some bytes := by
  have hshort := hc.short table ht
  by_cases hnames : names = []
  · refine ⟨[], ?_, .nil, by simp [hnames]⟩
    simp only [batchGet, ensureTable_ok hc ht, hnames, List.map_nil, span]
    rfl
  · obtain ⟨first, last, scanned, hspan, hscanned, hget⟩ := batchGet_eq hc ht item hnames
    obtain ⟨-, -, hall⟩ := bounds_of_span hspan
    refine ⟨_, hget, ?_, fun name bytes => ?_⟩
    · have hkeys := pairwise_scan db (.included (Key.ofItem table item first))
        (.included (Key.ofItem table item last))
      rw [← hscanned, List.pairwise_map] at hkeys
      refine (hkeys.imp ?_).filter _
      intro a b hlt
      rwa [← Text.Utf8.compare_append_left (Key.itemStem table item)]
    · have hmem : (name, bytes) ∈ scanned ↔ (Key.ofItem table item name, bytes)
          ∈ scanned.map fun r => (Key.ofItem table item r.1, r.2) := by
        constructor
        · exact fun hr => List.mem_map.mpr ⟨_, hr, rfl⟩
        · intro hr
          obtain ⟨⟨other, value⟩, hother, heq⟩ := List.mem_map.mp hr
          obtain ⟨hkey, rfl⟩ := Prod.mk.inj heq
          obtain ⟨-, -, rfl⟩ := Key.ofItem_injective hshort hshort hkey
          exact hother
      rw [List.mem_filter, List.contains_iff_mem, and_comm,
        ← hc.item table item name hshort, hmem, hscanned, mem_scan_included]
      refine and_congr_right fun hname => ?_
      exact and_iff_left (hall _ (List.mem_map_of_mem hname))

theorem batchGet_of_not_mem (hc : Contents db tables log) {table : String} (ht : table ∉ tables)
    (item : Timestamp) (names : List String) :
    batchGet table item names db = .error (.notFound ("table " ++ table)) := by
  simp only [batchGet, ensureTable_error hc ht]
  rfl

end Cadence.Keyed
