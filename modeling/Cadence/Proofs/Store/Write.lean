import Cadence.Proofs.Backend.Keyed
import Cadence.Proofs.Tier
import Cadence.Store.Basic

namespace Cadence

namespace Backend

-- Writes metrics one after the other up to the first that fails.
def writeAll {σ : Type} (b : Backend σ) (settings : StoreSettings) : List Metric → Query σ Unit
  | [] => pure ()
  | m :: ms => do
    b.write settings m
    b.writeAll settings ms

end Backend

namespace Metric

theorem mem_itemEpochs (tier : Tier) (samples : List Sample) (item : Timestamp) :
    item ∈ itemEpochs tier samples ↔ ∃ s ∈ samples, tier.itemEpoch s.time = item := by
  have hget := getElem?_foldl_insert (fun s : Sample => tier.itemEpoch s.time) (fun _ => ()) samples
    (∅ : Std.ExtTreeMap Timestamp Unit) item
  rw [itemEpochs, Std.ExtTreeMap.mem_keys, Std.ExtTreeMap.mem_iff_isSome_getElem?, hget]
  rw [← Decidable.not_iff_not]
  simp [lastUnder_eq_none_iff]

theorem nodup_itemEpochs (tier : Tier) (samples : List Sample) :
    (itemEpochs tier samples).Nodup := by
  refine (Std.ExtTreeMap.distinct_keys).imp ?_
  intro x y hne he
  exact hne (Std.LawfulEqCmp.compare_eq_iff_eq.mpr he)

theorem filter_ne_nil_of_mem_itemEpochs {tier : Tier} {samples : List Sample} {item : Timestamp}
    (h : item ∈ itemEpochs tier samples) : (samples.filter fun s => tier.itemEpoch s.time = item) ≠ [] := by
  obtain ⟨s, hs, hitem⟩ := (mem_itemEpochs tier samples item).mp h
  exact List.ne_nil_of_mem (List.mem_filter.mpr ⟨hs, decide_eq_true hitem⟩)

def puts (tablePrefix : String) (m : Metric) : List ItemPut :=
  Tier.all.flatMap (tierPuts tablePrefix m.samples)

def putOf? : WriteCall → Option ItemPut
  | .createTable _ => none
  | .put table item samples => some ⟨table, item, samples⟩

def tableOf? : WriteCall → Option String
  | .createTable table => some table
  | .put _ _ _ => none

theorem filterMap_withTables (created : List String) (ps : List ItemPut) :
    (withTables created ps).filterMap putOf? = ps := by
  induction ps generalizing created with
  | nil => rfl
  | cons p ps ih =>
      by_cases hcreated : p.table ∈ created <;>
        simp [withTables, putOf?, hcreated, ih, List.filterMap_cons]

theorem filterMap_calls (tablePrefix : String) (m : Metric) :
    (m.calls tablePrefix).filterMap putOf? = m.puts tablePrefix :=
  filterMap_withTables [] (m.puts tablePrefix)

-- No table is created twice, and none that was there before.
theorem nodup_withTables (created : List String) (ps : List ItemPut) :
    ((withTables created ps).filterMap tableOf?).Nodup ∧
      ∀ table ∈ (withTables created ps).filterMap tableOf?, table ∉ created := by
  induction ps generalizing created with
  | nil => simp [withTables]
  | cons p ps ih =>
      by_cases hcreated : p.table ∈ created
      · rw [withTables, if_pos hcreated]
        exact ih created
      · obtain ⟨hnodup, hnot⟩ := ih (p.table :: created)
        rw [withTables, if_neg hcreated]
        refine ⟨List.nodup_cons.mpr ⟨fun hmem => hnot _ hmem List.mem_cons_self, hnodup⟩, ?_⟩
        intro table htable
        rcases List.mem_cons.mp htable with rfl | htable
        · exact hcreated
        · exact fun hmem => hnot table htable (List.mem_cons_of_mem _ hmem)

-- A table is created if something is put into it and it was not there before.
theorem mem_withTables_iff {created : List String} {ps : List ItemPut} {table : String} :
    .createTable table ∈ withTables created ps ↔ table ∉ created ∧ ∃ p ∈ ps, p.table = table := by
  induction ps generalizing created with
  | nil => simp [withTables]
  | cons p ps ih =>
      have hmem : (∃ q ∈ p :: ps, q.table = table) ↔ p.table = table ∨ ∃ q ∈ ps, q.table = table := by
        simp
      by_cases hcreated : p.table ∈ created
      · have hfirst : table ∉ created → p.table ≠ table := by
          rintro hnot rfl
          exact hnot hcreated
        rw [withTables, if_pos hcreated, List.mem_cons, ih, hmem]
        simp only [reduceCtorEq, false_or]
        tauto
      · rw [withTables, if_neg hcreated, List.mem_cons, List.mem_cons, ih, hmem]
        simp only [WriteCall.createTable.injEq, reduceCtorEq, false_or, List.mem_cons, not_or]
        by_cases hfirst : p.table = table
        · subst hfirst
          simp [hcreated]
        · simp [hfirst, Ne.symm hfirst]

end Metric

namespace Keyed

open Cadence.Metric

def entryOf (name : String) (p : ItemPut) : Entry := ⟨p.table, p.item, name, p.samples⟩

def entries (tablePrefix : String) (ms : List Metric) : List Entry :=
  ms.flatMap fun m => (m.puts tablePrefix).map (entryOf m.name)

variable {db db' : Database} {tables : List String} {log : List Entry}

theorem contents_perform (hc : Contents db tables log) {name : String} {call : WriteCall}
    (h : outcome (backend.perform name call) db = (.ok (), db')) :
    Contents db' ((tableOf? call).toList ++ tables)
      (log ++ ((putOf? call).map (entryOf name)).toList) := by
  cases call with
  | createTable table =>
      have hcreate := contents_createTable hc (outcome_writing_eq_ok h)
      simpa [putOf?, tableOf?] using hcreate
  | put table item samples => exact contents_put hc (outcome_writing_eq_ok h)

theorem contents_performAll (hc : Contents db tables log) {name : String} {calls : List WriteCall}
    (h : outcome (backend.performAll name calls) db = (.ok (), db')) :
    ∃ tables', Contents db' tables' (log ++ (calls.filterMap putOf?).map (entryOf name)) := by
  induction calls generalizing db tables log with
  | nil =>
      cases h
      exact ⟨tables, by simpa using hc⟩
  | cons call calls ih =>
      obtain ⟨_, mid, hfirst, hrest⟩ := outcome_bind_eq_ok h
      obtain ⟨tables', hdb'⟩ := ih (contents_perform hc hfirst) hrest
      refine ⟨tables', ?_⟩
      cases hput : putOf? call <;> simpa [hput, List.filterMap_cons] using hdb'

theorem write_eq_ok {σ : Type} {b : Backend σ} {settings : StoreSettings} {m : Metric} {s s' : σ}
    (h : outcome (b.write settings m) s = (.ok (), s')) :
    m.name ≠ "" ∧
      outcome (b.performAll m.name (m.calls settings.tablePrefix)) s = (.ok (), s') := by
  unfold Backend.write at h
  split at h
  · cases h
  · rename_i hname
    exact ⟨hname, outcome_liftAction_eq_ok h⟩

theorem contents_writeAll (hc : Contents db tables log) {settings : StoreSettings}
    {ms : List Metric} (h : outcome (backend.writeAll settings ms) db = (.ok (), db')) :
    ∃ tables', Contents db' tables' (log ++ entries settings.tablePrefix ms) := by
  induction ms generalizing db tables log with
  | nil =>
      cases h
      exact ⟨tables, by simpa [entries] using hc⟩
  | cons m ms ih =>
      obtain ⟨_, mid, hfirst, hrest⟩ := outcome_bind_eq_ok h
      obtain ⟨created, hmid⟩ := contents_performAll hc (write_eq_ok hfirst).2
      rw [filterMap_calls] at hmid
      obtain ⟨tables', hdb'⟩ := ih hmid hrest
      exact ⟨tables', by simpa [entries, List.append_assoc] using hdb'⟩

-- Puts into tables whose names are short enough succeed, as each table is created before.
theorem exists_performAll_ok (hc : Contents db tables log) {created : List String}
    {ps : List ItemPut} (hcreated : ∀ table ∈ created, table ∈ tables)
    (hshort : ∀ p ∈ ps, Key.Short p.table) (name : String) :
    ∃ db', outcome (backend.performAll name (withTables created ps)) db = (.ok (), db') := by
  induction ps generalizing db tables log created with
  | nil => exact ⟨db, rfl⟩
  | cons p ps ih =>
      have hrest : ∀ q ∈ ps, Key.Short q.table := fun q hq => hshort q (by simp [hq])
      by_cases htable : p.table ∈ created
      · obtain ⟨mid, hmid⟩ := put_ok hc (hcreated p.table htable) p.item name p.samples
        obtain ⟨db', hdb'⟩ := ih (contents_put hc hmid) hcreated hrest
        refine ⟨db', ?_⟩
        rw [withTables, if_pos htable]
        exact (outcome_bind_ok (outcome_writing_ok hmid) _).trans hdb'
      · have hcreate := createTable_ok db (hshort p (by simp))
        have hmarked := contents_createTable hc hcreate
        obtain ⟨mid, hmid⟩ := put_ok hmarked List.mem_cons_self p.item name p.samples
        have hcreated' : ∀ table ∈ p.table :: created, table ∈ p.table :: tables := by
          intro table hmem
          rcases List.mem_cons.mp hmem with rfl | hmem
          · exact List.mem_cons_self
          · exact List.mem_cons_of_mem _ (hcreated table hmem)
        obtain ⟨db', hdb'⟩ := ih (contents_put hmarked hmid) hcreated' hrest
        refine ⟨db', ?_⟩
        rw [withTables, if_neg htable]
        exact (outcome_bind_ok (outcome_writing_ok hcreate) _).trans
          ((outcome_bind_ok (outcome_writing_ok hmid) _).trans hdb')

theorem short_of_mem_puts {tablePrefix : String}
    (hroom : (Text.Utf8.encode tablePrefix).length + 104 ≤ Key.maxTableLength) {m : Metric}
    {p : ItemPut} (hp : p ∈ m.puts tablePrefix) : Key.Short p.table := by
  obtain ⟨tier, -, hp⟩ := List.mem_flatMap.mp hp
  obtain ⟨item, -, rfl⟩ := List.mem_map.mp hp
  have hlength := (tier.length_encode_tableName tablePrefix (tier.tableEpoch item)).2
  exact Nat.le_trans hlength hroom

theorem exists_writeAll_ok (hc : Contents db tables log) {settings : StoreSettings}
    (hroom : (Text.Utf8.encode settings.tablePrefix).length + 104 ≤ Key.maxTableLength)
    {ms : List Metric} (hnames : ∀ m ∈ ms, m.name ≠ "") :
    ∃ db', outcome (backend.writeAll settings ms) db = (.ok (), db') := by
  induction ms generalizing db tables log with
  | nil => exact ⟨db, rfl⟩
  | cons m ms ih =>
      have hcalls : m.calls settings.tablePrefix = withTables [] (m.puts settings.tablePrefix) := rfl
      have hnone : ∀ table ∈ ([] : List String), table ∈ tables := by simp
      obtain ⟨mid, hmid⟩ := exists_performAll_ok hc hnone
        (fun p hp => short_of_mem_puts hroom hp) m.name
      rw [← hcalls] at hmid
      obtain ⟨tables', hcontents⟩ := contents_performAll hc hmid
      obtain ⟨db', hdb'⟩ := ih hcontents fun x hx => hnames x (by simp [hx])
      have hwrite : outcome (backend.write settings m) db = (.ok (), mid) := by
        rw [Backend.write, if_neg (hnames m (by simp)), outcome_liftAction, hmid]
        rfl
      exact ⟨db', (outcome_bind_ok hwrite _).trans hdb'⟩

end Keyed

def samplesOf (name : String) (ms : List Metric) : List Sample :=
  (ms.filter (·.name = name)).flatMap Metric.samples

namespace Keyed

open Sample Cadence.Metric

theorem flatMap_filter_eq {α : Type} {epochs : List Timestamp} (h : epochs.Nodup)
    (item : Timestamp) (f : Timestamp → List α) :
    (epochs.filter (· = item)).flatMap f = if item ∈ epochs then f item else [] := by
  induction epochs with
  | nil => rfl
  | cons epoch epochs ih =>
      obtain ⟨hne, hrest⟩ := List.nodup_cons.mp h
      by_cases he : epoch = item
      · subst he
        have hnone : epochs.filter (· = epoch) = [] := by
          rw [List.filter_eq_nil_iff]
          intro x hx
          simpa using fun hxe : x = epoch => hne (hxe ▸ hx)
        simp [hnone]
      · simp [he, ih hrest, Ne.symm he]

theorem itemSamples_map_entryOf (ps : List ItemPut) (name table : String) (item : Timestamp)
    (other : String) :
    itemSamples (ps.map (entryOf name)) table item other
      = if name = other then
          (ps.filter fun p => p.table = table ∧ p.item = item).flatMap ItemPut.samples
        else [] := by
  by_cases hname : name = other
  · rw [if_pos hname, itemSamples, List.filter_map, List.flatMap_map]
    congr 2
    funext p
    simp [Entry.IsOf, entryOf, hname]
  · rw [if_neg hname]
    apply itemSamples_eq_nil
    intro e he hof
    obtain ⟨p, -, rfl⟩ := List.mem_map.mp he
    exact hname hof.2.2

-- The puts of a tier hold all samples of an item of that tier, and nothing of another tier's.
theorem samples_tierPuts (tablePrefix : String) (samples : List Sample) (tier other : Tier)
    (item : Timestamp) :
    ((tierPuts tablePrefix samples other).filter fun p =>
        p.table = tier.tableName tablePrefix (tier.tableEpoch item) ∧ p.item = item).flatMap
          ItemPut.samples
      = if other = tier then (slotted tier samples).filter fun s => tier.itemEpoch s.time = item
        else [] := by
  by_cases htier : other = tier
  · subst htier
    rw [if_pos rfl, tierPuts, List.filter_map, List.flatMap_map]
    have hfilter : ((fun p : ItemPut => decide (p.table
          = other.tableName tablePrefix (other.tableEpoch item) ∧ p.item = item)) ∘ fun item =>
          { table := other.tableName tablePrefix (other.tableEpoch item)
            item := item
            samples := (slotted other samples).filter fun s => other.itemEpoch s.time = item })
        = fun epoch => decide (epoch = item) := by
      funext epoch
      by_cases he : epoch = item <;> simp [he]
    rw [hfilter, flatMap_filter_eq (nodup_itemEpochs _ _)]
    split
    · rfl
    · rename_i hitem
      rw [mem_itemEpochs] at hitem
      rw [eq_comm, List.filter_eq_nil_iff]
      intro s hs he
      exact hitem ⟨s, hs, by simpa using he⟩
  · rw [if_neg htier, List.filter_eq_nil_iff.mpr]
    · rfl
    · intro p hp
      obtain ⟨epoch, -, rfl⟩ := List.mem_map.mp hp
      intro htable
      simp only [decide_eq_true_eq] at htable
      exact htier (Tier.tableName_injective htable.1).1

theorem itemSamples_metric (tablePrefix : String) (m : Metric) (tier : Tier) (item : Timestamp)
    (name : String) :
    itemSamples ((m.puts tablePrefix).map (entryOf m.name))
        (tier.tableName tablePrefix (tier.tableEpoch item)) item name
      = if m.name = name then
          (slotted tier m.samples).filter fun s => tier.itemEpoch s.time = item
        else [] := by
  rw [itemSamples_map_entryOf]
  by_cases hname : m.name = name
  · rw [if_pos hname, if_pos hname, puts, List.filter_flatMap, List.flatMap_assoc]
    simp only [samples_tierPuts]
    cases tier <;> simp [Tier.all]
  · rw [if_neg hname, if_neg hname]

-- An item holds the samples of its name whose slots it covers, in the order of the writes.
theorem itemSamples_entries (tablePrefix : String) (ms : List Metric) (tier : Tier)
    (item : Timestamp) (name : String) :
    itemSamples (entries tablePrefix ms) (tier.tableName tablePrefix (tier.tableEpoch item)) item
        name
      = (slotted tier (samplesOf name ms)).filter fun s => tier.itemEpoch s.time = item := by
  induction ms with
  | nil => rfl
  | cons m ms ih =>
      rw [entries, List.flatMap_cons, itemSamples_append, ← entries, ih, itemSamples_metric]
      by_cases hname : m.name = name
      · simp [samplesOf, slotted, hname]
      · simp [samplesOf, hname]

theorem lastAt_itemSamples_entries (tablePrefix : String) (ms : List Metric) (tier : Tier)
    (item : Timestamp) (name : String) (t : Timestamp) (bits : UInt64) :
    lastAt t (itemSamples (entries tablePrefix ms)
        (tier.tableName tablePrefix (tier.tableEpoch item)) item name) = some bits
      ↔ tier.itemEpoch t = item ∧ lastAt t (slotted tier (samplesOf name ms)) = some bits := by
  have hfilter := lastUnder_filter Sample.time Sample.bits t (tier.itemEpoch · = item)
    (slotted tier (samplesOf name ms))
  rw [itemSamples_entries, lastAt, hfilter]
  by_cases hitem : tier.itemEpoch t = item
  · simp [hitem, lastAt]
  · simp [hitem]

theorem table_of_mem_entries {tablePrefix : String} {ms : List Metric} {e : Entry}
    (he : e ∈ entries tablePrefix ms) :
    ∃ tier : Tier, e.table = tier.tableName tablePrefix (tier.tableEpoch e.item) := by
  obtain ⟨m, -, he⟩ := List.mem_flatMap.mp he
  obtain ⟨p, hp, rfl⟩ := List.mem_map.mp he
  obtain ⟨tier, -, hp⟩ := List.mem_flatMap.mp hp
  obtain ⟨item, -, rfl⟩ := List.mem_map.mp hp
  exact ⟨tier, rfl⟩

variable {tablePrefix : String} {ms : List Metric}

-- A record under the key of a tier's item was put into that item.
theorem mem_entries_of_get? (hc : Contents db tables (entries tablePrefix ms)) {tier : Tier}
    {epoch item : Timestamp} {name : String} {bytes : Bytes}
    (hget : db.get? (Key.ofItem (tier.tableName tablePrefix epoch) item name) = some bytes) :
    Key.Short (tier.tableName tablePrefix epoch) ∧ epoch = tier.tableEpoch item := by
  rcases hc.only _ bytes hget with ⟨other, hkey⟩ | ⟨e, he, hkey⟩
  · exact absurd hkey.symm (Key.ofTable_ne_ofItem other _ item name)
  · have heshort := hc.short e.table (hc.created e he)
    obtain ⟨other, htable⟩ := table_of_mem_entries he
    -- all names of tables are so near in length that equal length bytes are equal lengths
    have hshort : Key.Short (tier.tableName tablePrefix epoch) := by
      have hmod := Key.length_emod_of_ofItem hkey
      have hlength := tier.length_encode_tableName tablePrefix epoch
      have holength := other.length_encode_tableName tablePrefix (other.tableEpoch e.item)
      unfold Key.Short Key.maxTableLength at heshort ⊢
      rw [htable] at heshort hmod
      omega
    obtain ⟨hname, hitem, -⟩ := Key.ofItem_injective hshort heshort hkey
    rw [htable] at hname
    obtain ⟨rfl, -, hepoch⟩ := Tier.tableName_injective hname
    exact ⟨hshort, hitem ▸ hepoch⟩

-- What a tier holds for a name are the last samples that were written for it in each slot, each in
-- the item and the table of its slot.
theorem holds_tier_iff (hc : Contents db tables (entries tablePrefix ms)) (tier : Tier)
    (epoch item : Timestamp) (name : String) (s : Sample) :
    Holds db (tier.tableName tablePrefix epoch) item name s
      ↔ epoch = tier.tableEpoch s.time ∧ item = tier.itemEpoch s.time ∧
        lastAt s.time (slotted tier (samplesOf name ms)) = some s.bits := by
  constructor
  · intro hholds
    obtain ⟨bytes, samples, hget, -⟩ := id hholds
    obtain ⟨hshort, rfl⟩ := mem_entries_of_get? hc hget
    obtain ⟨rfl, hlast⟩ := (lastAt_itemSamples_entries tablePrefix ms tier item name s.time s.bits).mp
      ((holds_iff hc hshort item name s).mp hholds)
    exact ⟨tier.tableEpoch_itemEpoch s.time, rfl, hlast⟩
  · rintro ⟨rfl, rfl, hlast⟩
    have hitem := (lastAt_itemSamples_entries tablePrefix ms tier _ name s.time s.bits).mpr
      ⟨rfl, hlast⟩
    rw [Tier.tableEpoch_itemEpoch] at hitem
    refine (holds_iff hc ?_ _ name s).mpr hitem
    -- the sample was put into the table, so that the table was created
    apply Classical.byContradiction
    intro hshort
    rw [itemSamples_eq_nil] at hitem
    · cases hitem
    · rintro e he ⟨htable, -, -⟩
      exact hshort (htable ▸ hc.short e.table (hc.created e he))

end Keyed

end Cadence
