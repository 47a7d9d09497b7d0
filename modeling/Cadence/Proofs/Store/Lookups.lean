import Cadence.Proofs.Store.Batches

namespace Cadence.Keyed

open Sample

-- What a list of records has to be that stands for lookups of single items.
structure LooksUp (db : Database) (table : String) (item : Timestamp) (names : List String)
    (found : List (String × Bytes)) : Prop where
  ascending : found.Pairwise fun a b =>
    compare (Text.Utf8.encode a.1) (Text.Utf8.encode b.1) = .lt
  mem_iff : ∀ name bytes, (name, bytes) ∈ found
    ↔ name ∈ names ∧ db.get? (Key.ofItem table item name) = some bytes

-- A range of keys from the item of the least name to that of the greatest. Each key in it is long enough
-- to have what all items of the table and the epoch begin with.
structure Spans (db : Database) (table : String) (item : Timestamp) (names : List String)
    (low high : Bytes) : Prop where
  ends : ∃ first ∈ names, ∃ last ∈ names, low = Key.ofItem table item first ∧
    high = Key.ofItem table item last ∧ ∀ name ∈ names, first ≤ name ∧ name ≤ last
  ordered : (compare low high).isLE
  stem : ∀ r ∈ db.scan (.included low) (.included high), Key.itemStem table item <+: r.1

variable {db : Database} {tables : List String} {log : List Entry}

theorem spans_of_span (hc : Contents db tables log) {table : String} (ht : table ∈ tables)
    {item : Timestamp} {names : List String} {low high : Bytes}
    (h : span (names.map (Key.ofItem table item)) = some (low, high)) :
    Spans db table item names low high := by
  obtain ⟨hlow, hhigh, hall⟩ := bounds_of_span h
  obtain ⟨first, hfirst, rfl⟩ := List.mem_map.mp hlow
  obtain ⟨last, hlast, rfl⟩ := List.mem_map.mp hhigh
  refine ⟨⟨first, hfirst, last, hlast, rfl, rfl, fun name hname => ?_⟩, (hall _ hlow).2, ?_⟩
  · obtain ⟨hle, hge⟩ := hall _ (List.mem_map_of_mem hname)
    exact ⟨(Key.isLE_compare_ofItem_iff _ _ _ _).mp hle, (Key.isLE_compare_ofItem_iff _ _ _ _).mp hge⟩
  · obtain ⟨scanned, hscanned⟩ := exists_scanned hc ht item first last
    rw [← hscanned]
    intro r hr
    obtain ⟨⟨name, value⟩, -, rfl⟩ := List.mem_map.mp hr
    exact List.prefix_append _ _

theorem exists_looksUp (hc : Contents db tables log) {table : String} (ht : table ∈ tables)
    (item : Timestamp) (names : List String) :
    ∃ found, batchGet table item names db = .ok found ∧ LooksUp db table item names found := by
  obtain ⟨found, hget, hascending, hmem⟩ := batchGet_of_mem hc ht item names
  refine ⟨found, hget, hascending, fun name bytes => ?_⟩
  rw [hmem, hc.item table item name (hc.short table ht)]

end Cadence.Keyed

namespace Cadence

open Keyed Sample

-- A read fails exactly if its table was never created, and then it says so. Otherwise it finds what lookups
-- of the items of its names find, and scans no range that is out of order or has a key that is too short.
theorem batchGet_performEach (calls : List (String × WriteCall)) (table : String) (item : Timestamp)
    (names : List String) :
    let db := performEach calls (Database.empty (some mergeRule))
    (∀ e, outcome (backend.batchGet table item names) db = (.error e, db)
      ↔ e = .notFound ("table " ++ table) ∧
        ¬CreatedBy calls (Database.empty (some mergeRule)) table) ∧
    (CreatedBy calls (Database.empty (some mergeRule)) table →
      (∃ found, outcome (backend.batchGet table item names) db = (.ok found, db) ∧
        LooksUp db table item names found) ∧
      ∀ low high, span (names.map (Key.ofItem table item)) = some (low, high) →
        Spans db table item names low high) := by
  intro db
  obtain ⟨tables, log, hc, htables⟩ := tables_performEach calls contents_empty
  have hcreated : CreatedBy calls (Database.empty (some mergeRule)) table ↔ table ∈ tables := by
    simp [htables]
  have hread : outcome (backend.batchGet table item names) db = (batchGet table item names db, db) := rfl
  rw [hread, hcreated]
  by_cases ht : table ∈ tables
  · obtain ⟨found, hfound, hlooks⟩ := exists_looksUp hc ht item names
    rw [hfound]
    exact ⟨by simp [ht], fun _ => ⟨⟨found, rfl, hlooks⟩, fun _ _ hspan => spans_of_span hc ht hspan⟩⟩
  · rw [batchGet_of_not_mem hc ht]
    exact ⟨by simp [ht, eq_comm], fun h => absurd h ht⟩

end Cadence
