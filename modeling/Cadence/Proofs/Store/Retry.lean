import Cadence.Proofs.Store.Faults

namespace Cadence.Keyed

open Sample Cadence.Metric

-- A change of one record that has been made when it has been made once.
structure Change where
  key : Bytes
  value : Option Bytes → Bytes
  settled : ∀ stored, value (some (value stored)) = value stored

namespace Change

def make (db : Database) (c : Change) : Database := db.put (c.key, c.value (db.get? c.key))

def makeAll (db : Database) (cs : List Change) : Database := cs.foldl make db

theorem makeAll_cons (db : Database) (c : Change) (cs : List Change) :
    makeAll db (c :: cs) = makeAll (c.make db) cs := rfl

theorem makeAll_append (db : Database) (cs ds : List Change) :
    makeAll db (cs ++ ds) = makeAll (makeAll db cs) ds :=
  List.foldl_append

theorem rule_makeAll (db : Database) (cs : List Change) : (makeAll db cs).rule = db.rule := by
  induction cs generalizing db with
  | nil => rfl
  | cons c cs ih =>
      rw [makeAll_cons, ih]
      rfl

-- Changes of different records: each record has at most one.
theorem get?_makeAll {cs : List Change} (h : cs.Pairwise (·.key ≠ ·.key)) (db : Database)
    (key : Bytes) :
    (makeAll db cs).get? key = ((cs.find? (·.key = key)).map (·.value (db.get? key))).or
      (db.get? key) := by
  induction cs generalizing db with
  | nil => rfl
  | cons c cs ih =>
      obtain ⟨hne, hcs⟩ := List.pairwise_cons.mp h
      rw [makeAll_cons, ih hcs, make, get?_put]
      by_cases hkey : c.key = key
      · subst hkey
        have hnone : cs.find? (·.key = c.key) = none := by
          rw [List.find?_eq_none]
          intro d hd
          simpa using (hne d hd).symm
        simp [hnone]
      · simp [hkey]

-- A record that a first part of the changes has changed has been changed for good.
theorem find?_of_isPrefix {ds cs : List Change} (h : ds <+: cs) {key : Bytes} {c : Change}
    (hfind : ds.find? (·.key = key) = some c) : cs.find? (·.key = key) = some c := by
  obtain ⟨rest, rfl⟩ := h
  rw [List.find?_append, hfind, Option.some_or]

-- The records that a first part of the changes changes are as all changes leave them.
theorem makeAll_part {ds cs : List Change} (h : cs.Pairwise (·.key ≠ ·.key)) (hpart : ds <+: cs)
    (db : Database) {key : Bytes} (hchanged : (makeAll db ds).get? key ≠ db.get? key) :
    (makeAll db ds).get? key = (makeAll db cs).get? key := by
  rw [get?_makeAll (h.sublist hpart.sublist)] at hchanged ⊢
  cases hfind : ds.find? (·.key = key) with
  | none => simp [hfind] at hchanged
  | some c => rw [get?_makeAll h, find?_of_isPrefix hpart hfind]

-- Changes that were made in part can be made once more.
theorem makeAll_again {ds cs : List Change} (h : cs.Pairwise (·.key ≠ ·.key)) (hpart : ds <+: cs)
    (db : Database) : makeAll (makeAll db ds) cs = makeAll db cs := by
  apply ext_get?
  · intro key
    rw [get?_makeAll h, get?_makeAll (h.sublist hpart.sublist), get?_makeAll h]
    cases hfind : ds.find? (·.key = key) with
    | none => simp
    | some c => simp [find?_of_isPrefix hpart hfind, c.settled]
  · simp only [rule_makeAll]

end Change

namespace Access

def change? : Access → Option Change
  | create table => some ⟨Key.ofTable table, fun _ => [], fun _ => rfl⟩
  | lookup _ => none
  | merge e => some ⟨Key.ofItem e.table e.item e.name,
      fun stored => mergeRule stored (encode e.samples), fun stored => mergeRule_self stored _⟩

def changes (accesses : List Access) : List Change := (granted accesses).filterMap change?

theorem changes_cons {access : Access} (h : access.Granted) (rest : List Access) :
    changes (access :: rest) = access.change?.toList ++ changes rest := by
  rw [changes, granted_cons h, changes, toList_append_filterMap]

theorem changes_cons_refused {access : Access} (h : ¬access.Granted) (rest : List Access) :
    changes (access :: rest) = [] := by
  rw [changes, granted_cons_refused h, List.filterMap_nil]

theorem changes_isPrefix {before after : List Access} (h : before <+: after) :
    changes before <+: changes after :=
  (granted_isPrefix h).filterMap _

-- The tables are in the database, whatever else is there.
def Marked (db : Database) (tables : List String) : Prop :=
  ∀ table ∈ tables, ensureTable db table = .ok ()

theorem outcome_perform {db : Database} {tables : List String} (hrule : db.rule = some mergeRule)
    (hmarked : Marked db tables) {access : Access} (hgranted : access.Granted)
    (hallowed : access.Allowed tables) :
    outcome access.perform db = (.ok (), Change.makeAll db access.change?.toList) := by
  cases access with
  | create table => exact outcome_writing_ok (createTable_ok db hgranted)
  | lookup table => exact congrArg (·, db) (hmarked table hallowed)
  | merge e => exact outcome_writing_ok (mergeItem_eq hrule e.table e.item e.name e.samples)

theorem ensureTable_put {db : Database} {table : String} (h : ensureTable db table = .ok ())
    (key value : Bytes) : ensureTable (db.put (key, value)) table = .ok () := by
  unfold ensureTable at h ⊢
  rw [get?_put]
  by_cases hkey : key = Key.ofTable table
  · rw [if_pos hkey]
  · rw [if_neg hkey]
    exact h

theorem Marked.perform {db : Database} {tables : List String} (h : Marked db tables)
    (access : Access) :
    Marked (Change.makeAll db access.change?.toList) (access.created?.toList ++ tables) := by
  cases access with
  | create table =>
      intro other hother
      rcases List.mem_cons.mp hother with rfl | hother
      · change ensureTable (db.put (Key.ofTable other, [])) other = .ok ()
        rw [ensureTable, get?_put, if_pos rfl]
      · exact ensureTable_put (h other hother) _ _
  | lookup table => exact h
  | merge e => exact fun other hother => ensureTable_put (h other hother) _ _

-- Accesses make their changes up to the first that is not let through, and what they report does not
-- depend on what was stored.
theorem outcome_forM {tables : List String} {accesses : List Access}
    (hready : Ready tables accesses) : ∃ result, ∀ db : Database, db.rule = some mergeRule →
      Marked db tables →
      outcome (accesses.forM perform) db = (result, Change.makeAll db (changes accesses)) := by
  induction accesses generalizing tables with
  | nil => exact ⟨.ok (), fun _ _ _ => rfl⟩
  | cons access rest ih =>
      by_cases hgranted : access.Granted
      · obtain ⟨result, hrest⟩ := ih hready.2
        refine ⟨result, fun db hrule hmarked => ?_⟩
        have hnow := outcome_perform hrule hmarked hgranted hready.1
        have hrule' : (Change.makeAll db access.change?.toList).rule = some mergeRule := by
          rw [Change.rule_makeAll, hrule]
        change outcome (access.perform >>= fun _ => rest.forM perform) db = _
        rw [outcome_bind_ok hnow, hrest _ hrule' (hmarked.perform access), changes_cons hgranted,
          Change.makeAll_append]
      · obtain ⟨e, he⟩ := perform_refused hgranted
        refine ⟨.error e, fun db _ _ => ?_⟩
        change outcome (access.perform >>= fun _ => rest.forM perform) db = _
        rw [outcome_bind_error (he db), changes_cons_refused hgranted]
        rfl

-- A merge that is let through finds a table whose name is short.
theorem short_of_merge {tables : List String} (hshort : ∀ table ∈ tables, Key.Short table)
    {accesses : List Access} (hready : Ready tables accesses) {e : Entry}
    (he : merge e ∈ granted accesses) : Key.Short e.table := by
  induction accesses generalizing tables with
  | nil => cases he
  | cons access rest ih =>
      by_cases hgranted : access.Granted
      · rw [granted_cons hgranted] at he
        rcases List.mem_cons.mp he with rfl | he
        · exact hshort _ hready.1
        · refine ih ?_ hready.2 he
          intro table htable
          rcases List.mem_append.mp htable with htable | htable
          · cases access with
            | create other =>
                rw [List.mem_singleton.mp htable]
                exact hgranted
            | lookup _ => cases htable
            | merge _ => cases htable
          · exact hshort table htable
      · rw [granted_cons_refused hgranted] at he
        cases he

-- Where no table is created twice and nothing is put twice, no record is changed twice.
theorem pairwise_changes {accesses : List Access} (hready : Ready [] accesses)
    (hcreated : (accesses.filterMap created?).Nodup)
    (hentries : (accesses.filterMap entry?).Pairwise fun e f => e.table = f.table → e.item ≠ f.item) :
    (changes accesses).Pairwise (·.key ≠ ·.key) := by
  have hsub : (granted accesses).Sublist accesses := List.takeWhile_sublist _
  have hshort := fun e => short_of_merge (e := e) (by simp) hready
  have hcreated := hcreated.sublist (hsub.filterMap _)
  have hentries := hentries.sublist (hsub.filterMap _)
  rw [List.Nodup, List.pairwise_filterMap] at hcreated
  rw [List.pairwise_filterMap] at hentries
  rw [changes, List.pairwise_filterMap]
  refine (hcreated.and hentries).imp_of_mem ?_
  rintro a b ha hb ⟨htables, hitems⟩ c hc d hd
  cases a with
  | create table =>
      cases hc
      cases b with
      | create other =>
          cases hd
          exact fun hkey => htables table rfl other rfl (Key.ofTable_injective hkey)
      | lookup _ => cases hd
      | merge e =>
          cases hd
          exact Key.ofTable_ne_ofItem _ _ _ _
  | lookup _ => cases hc
  | merge e =>
      cases hc
      cases b with
      | create other =>
          cases hd
          exact (Key.ofTable_ne_ofItem _ _ _ _).symm
      | lookup _ => cases hd
      | merge f =>
          cases hd
          intro hkey
          obtain ⟨htable, hitem, -⟩ := Key.ofItem_injective (hshort e ha) (hshort f hb) hkey
          exact hitems e rfl f rfl htable hitem

end Access

end Cadence.Keyed

namespace Cadence

open Keyed Cadence.Metric Sample

namespace Insertion

theorem pairwise_changes (i : Insertion) :
    (Access.changes i.accesses).Pairwise (·.key ≠ ·.key) := by
  rw [accesses_eq]
  split
  · exact List.Pairwise.nil
  · refine Access.pairwise_changes (Access.ready_withTables _ [] _) ?_ ?_
    · rw [Access.filterMap_created?]
      exact (nodup_withTables [] _).1
    · rw [Access.filterMap_entry?, filterMap_calls, List.pairwise_map]
      exact pairwise_puts _ _

-- A write reports the same in every state and makes the same changes.
theorem exists_outcome_write (i : Insertion) : ∃ result, ∀ db : Database, db.rule = some mergeRule →
    outcome (backend.write i.settings i.metric) db
      = (result, Change.makeAll db (Access.changes i.accesses)) := by
  by_cases hname : i.metric.name = ""
  · refine ⟨.error (.argument "metric name must not be empty"), fun db _ => ?_⟩
    rw [Backend.write, if_pos hname, accesses_eq, if_pos hname]
    rfl
  · obtain ⟨result, hresult⟩ := Access.outcome_forM (i.ready_accesses [])
    refine ⟨result.mapError .ofBackend, fun db hrule => ?_⟩
    have hcalls : i.calls = (i.metric.calls i.settings.tablePrefix).map (i.metric.name, ·) :=
      if_neg hname
    have hforM := outcome_forM_flatMap (fun call db => Access.outcome_ofCall call.1 call.2 db) i.calls db
    rw [Backend.write, if_neg hname, outcome_liftAction, Backend.performAll_eq_forM, ← hcalls, hforM]
    change (_, _) = _
    have hall := hresult db hrule (by simp [Access.Marked])
    unfold accesses at hall ⊢
    rw [hall]

-- What a write leaves that meets faults: a first part of its changes.
theorem exists_leavesUnder (i : Insertion) (faults : Faults) : ∃ made,
    made <+: Access.changes i.accesses ∧ ∀ db : Database, db.rule = some mergeRule →
      i.leavesUnder faults db = Change.makeAll db made := by
  have hprefix := i.accessesUnder_isPrefix faults
  obtain ⟨result, hresult⟩ := Access.outcome_forM ((i.ready_accesses []).of_isPrefix hprefix)
  refine ⟨_, Access.changes_isPrefix hprefix, fun db hrule => ?_⟩
  rw [leavesUnder_eq_accesses, hresult db hrule (by simp [Access.Marked])]

-- A write that faults cut off has changed some of the records that it changes without them, each to
-- what it is without them. Made once more it does what it does without them; so does a write that
-- met none.
theorem write_again (i : Insertion) (faults : Faults) (db : Database)
    (hrule : db.rule = some mergeRule) :
    (∀ key, (i.leavesUnder faults db).get? key ≠ db.get? key →
      (i.leaves db).get? key ≠ db.get? key ∧
        (i.leavesUnder faults db).get? key = (i.leaves db).get? key) ∧
    outcome (backend.write i.settings i.metric) (i.leavesUnder faults db)
      = outcome (backend.write i.settings i.metric) db ∧
    outcome (backend.write i.settings i.metric) (i.leaves db)
      = outcome (backend.write i.settings i.metric) db := by
  obtain ⟨result, hwrite⟩ := i.exists_outcome_write
  obtain ⟨made, hmade, hcut⟩ := i.exists_leavesUnder faults
  have hkeys := i.pairwise_changes
  have hleaves : i.leaves db = Change.makeAll db (Access.changes i.accesses) :=
    congrArg Prod.snd (hwrite db hrule)
  have hrules : ∀ cs, (Change.makeAll db cs).rule = some mergeRule := fun cs => by
    rw [Change.rule_makeAll, hrule]
  rw [hcut db hrule, hleaves]
  refine ⟨?_, ?_, ?_⟩
  · intro key hchanged
    have hsame := Change.makeAll_part hkeys hmade db hchanged
    exact ⟨hsame ▸ hchanged, hsame⟩
  · rw [hwrite _ (hrules _), Change.makeAll_again hkeys hmade, hwrite db hrule]
  · rw [hwrite _ (hrules _), Change.makeAll_again hkeys List.prefix_rfl, hwrite db hrule]

-- The item of the minute tier holds bytes that are no samples, and the put into the next tier fails.
theorem write_again_undecodable :
    ∃ i : Insertion, ∃ faults : Faults, ∃ db : Database,
      faults 3 = some (.storage "out of space") ∧ (∀ call < 3, faults call = none) ∧
      db.get? (Key.ofItem "g-1m1h-0" 0 "m") = some [1, 2, 3] ∧ db.rule = some mergeRule ∧
      outcome (backend.write i.settings i.metric) (i.leavesUnder faults db)
        = outcome (backend.write i.settings i.metric) db := by
  let i : Insertion := ⟨⟨"g", 1⟩, ⟨"m", [⟨30, 1⟩, ⟨400, 2⟩]⟩⟩
  let faults : Faults := fun call => if call = 3 then some (.storage "out of space") else none
  let db := (Database.empty (some mergeRule)).put (Key.ofItem "g-1m1h-0" 0 "m", [1, 2, 3])
  have hstored : db.get? (Key.ofItem "g-1m1h-0" 0 "m") = some [1, 2, 3] := by
    rw [get?_put, if_pos rfl]
  refine ⟨i, faults, db, rfl, ?_, hstored, rfl, (write_again i faults db rfl).2.1⟩
  intro call hcall
  exact if_neg (Nat.ne_of_lt hcall)

end Insertion

end Cadence
