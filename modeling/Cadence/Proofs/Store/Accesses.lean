import Cadence.Proofs.Interleaves
import Cadence.Proofs.Store.Write

namespace Cadence.Keyed

open Cadence.Metric Sample

variable {db db' : Database} {tables tables' : List String} {log log' : List Entry}

theorem put_eq_mergeItem {table : String} (h : ensureTable db table = .ok ()) (item : Timestamp)
    (name : String) (samples : List Sample) :
    put table item name samples db = mergeItem table item name samples db := by
  rw [put, h]
  rfl

theorem put_eq_error {table : String} {e : BackendError} (h : ensureTable db table = .error e)
    (item : Timestamp) (name : String) (samples : List Sample) :
    put table item name samples db = .error e := by
  rw [put, h]
  rfl

theorem outcome_writing_congr {write other : Database → Except BackendError Database}
    (h : write db = other db) : outcome (writing write) db = outcome (writing other) db := by
  change writing write db = writing other db
  simp only [writing, ExceptT.mk, h]

-- A single access to the database. A put looks up its table and then merges.
inductive Access where
  | create (table : String)
  | lookup (table : String)
  | merge (e : Entry)

namespace Access

def perform : Access → Action Database Unit
  | create table => writing (createTable table)
  | lookup table => reading fun db => ensureTable db table
  | merge e => writing (mergeItem e.table e.item e.name e.samples)

def ofCall (name : String) : WriteCall → List Access
  | .createTable table => [create table]
  | .put table item samples => [lookup table, merge ⟨table, item, name, samples⟩]

def created? : Access → Option String
  | create table => some table
  | _ => none

def entry? : Access → Option Entry
  | merge e => some e
  | _ => none

-- Whether an access is let through to the database: a table's name may be too long for that.
def Granted : Access → Prop
  | create table => Key.Short table
  | _ => True

instance : DecidablePred Granted
  | create table => inferInstanceAs (Decidable (Key.Short table))
  | lookup _ => .isTrue trivial
  | merge _ => .isTrue trivial

-- Whether an access finds the table that it is about.
def Allowed (tables : List String) : Access → Prop
  | create _ => True
  | lookup table => table ∈ tables
  | merge e => e.table ∈ tables

-- Whether each access finds its table, which was there or has been created in between.
def Ready : List String → List Access → Prop
  | _, [] => True
  | tables, access :: rest => access.Allowed tables ∧ Ready (access.created?.toList ++ tables) rest

def granted (accesses : List Access) : List Access := accesses.takeWhile fun access => access.Granted

theorem outcome_ofCall (name : String) (call : WriteCall) (db : Database) :
    outcome (backend.perform name call) db = outcome ((ofCall name call).forM perform) db := by
  cases call with
  | createTable table =>
      change outcome (writing (createTable table)) db
        = outcome (writing (createTable table) >>= fun _ => pure ()) db
      rw [bind_pure_unit]
  | put table item samples =>
      let lookup := reading fun db => ensureTable db table
      let merge := writing (mergeItem table item name samples)
      change outcome (writing (put table item name samples)) db
        = outcome (lookup >>= fun _ => merge >>= fun _ => pure ()) db
      rw [bind_pure_unit]
      cases hlookup : ensureTable db table with
      | ok _ =>
          have hfound : outcome lookup db = (.ok (), db) := congrArg (·, db) hlookup
          rw [outcome_bind_ok hfound]
          exact outcome_writing_congr (put_eq_mergeItem hlookup item name samples)
      | error e =>
          have hmissing : outcome lookup db = (.error e, db) := congrArg (·, db) hlookup
          rw [outcome_bind_error hmissing]
          exact outcome_writing_error (put_eq_error hlookup item name samples)

theorem Allowed.mono {tables more : List String} (hsub : tables ⊆ more) {access : Access}
    (h : access.Allowed tables) : access.Allowed more := by
  cases access with
  | create _ => trivial
  | lookup _ => exact hsub h
  | merge _ => exact hsub h

theorem Ready.mono {tables more : List String} (hsub : tables ⊆ more) {accesses : List Access}
    (h : Ready tables accesses) : Ready more accesses := by
  induction accesses generalizing tables more with
  | nil => trivial
  | cons access rest ih =>
      refine ⟨h.1.mono hsub, ih ?_ h.2⟩
      exact List.append_subset.mpr ⟨List.subset_append_left _ _, List.subset_append_of_subset_right _ hsub⟩

theorem Ready.of_isPrefix {tables : List String} {before after : List Access} (h : before <+: after)
    (hready : Ready tables after) : Ready tables before := by
  induction before generalizing tables after with
  | nil => trivial
  | cons access rest ih =>
      obtain ⟨more, rfl⟩ := h
      exact ⟨hready.1, ih (List.prefix_append rest more) hready.2⟩

theorem granted_isPrefix {before after : List Access} (h : before <+: after) :
    granted before <+: granted after := by
  obtain ⟨rest, rfl⟩ := h
  rw [granted, granted, List.takeWhile_append]
  split
  · rename_i hall
    rw [(List.takeWhile_prefix _).eq_of_length hall]
    exact List.prefix_append _ _
  · exact List.prefix_rfl

theorem ready_withTables (name : String) (created : List String) (ps : List ItemPut) :
    Ready created ((withTables created ps).flatMap (ofCall name)) := by
  induction ps generalizing created with
  | nil => trivial
  | cons p ps ih =>
      by_cases hcreated : p.table ∈ created
      · rw [withTables, if_pos hcreated]
        exact ⟨hcreated, hcreated, ih created⟩
      · rw [withTables, if_neg hcreated]
        exact ⟨trivial, List.mem_cons_self, List.mem_cons_self, ih (p.table :: created)⟩

theorem filterMap_entry? (name : String) (calls : List WriteCall) :
    (calls.flatMap (ofCall name)).filterMap entry? = (calls.filterMap putOf?).map (entryOf name) := by
  induction calls with
  | nil => rfl
  | cons call calls ih =>
      rw [List.flatMap_cons, List.filterMap_append, ih]
      cases call <;> rfl

theorem filterMap_created? (name : String) (calls : List WriteCall) :
    (calls.flatMap (ofCall name)).filterMap created? = calls.filterMap tableOf? := by
  induction calls with
  | nil => rfl
  | cons call calls ih =>
      rw [List.flatMap_cons, List.filterMap_append, ih]
      cases call <;> rfl

-- When one party goes on, more tables are there and the others still find theirs.
theorem ready_go_on {tables more : List String} {front back : List (List Access)}
    {before after : List Access} (h : ∀ p ∈ front ++ before :: back, Ready tables p)
    (hsub : tables ⊆ more) (hafter : Ready more after) :
    ∀ p ∈ front ++ after :: back, Ready more p := by
  intro p hp
  rcases List.mem_append.mp hp with hp | hp
  · exact (h p (by simp [hp])).mono hsub
  rcases List.mem_cons.mp hp with rfl | hp
  · exact hafter
  · exact (h p (by simp [hp])).mono hsub

end Access

-- A database that was filled by creating some tables and by some puts; the markers of tables are
-- empty.
structure Filled (db : Database) (tables : List String) (log : List Entry) : Prop
    extends Contents db tables log where
  blank : ∀ table value, db.get? (Key.ofTable table) = some value → value = []

theorem filled_empty : Filled (Database.empty (some mergeRule)) [] [] where
  toContents := contents_empty
  blank := by simp [Database.empty, Database.get?]

namespace Filled

theorem perform (hf : Filled db tables log) {access : Access} (hgranted : access.Granted)
    (hallowed : access.Allowed tables) :
    ∃ db', outcome access.perform db = (.ok (), db') ∧
      Filled db' (access.created?.toList ++ tables) (log ++ access.entry?.toList) := by
  cases access with
  | create table =>
      have hcreate := createTable_ok db hgranted
      refine ⟨_, outcome_writing_ok hcreate, ?_, ?_⟩
      · simpa [Access.entry?, Access.created?] using contents_createTable hf.toContents hcreate
      · intro other value hget
        rw [get?_put] at hget
        split at hget
        · exact (Option.some.inj hget).symm
        · exact hf.blank other value hget
  | lookup table =>
      refine ⟨db, ?_, by simpa [Access.entry?, Access.created?] using hf⟩
      change (ensureTable db table, db) = _
      rw [ensureTable_ok hf.toContents hallowed]
  | merge e =>
      have hmerge := mergeItem_eq hf.rule e.table e.item e.name e.samples
      have hput := hmerge
      rw [← put_eq_mergeItem (ensureTable_ok hf.toContents hallowed)] at hput
      refine ⟨_, outcome_writing_ok hmerge, contents_put hf.toContents hput, ?_⟩
      intro other value hget
      rw [get?_put, if_neg (Key.ofTable_ne_ofItem other e.table e.item e.name).symm] at hget
      exact hf.blank other value hget

theorem get?_of_get? (h : Filled db tables log) (h' : Filled db' tables' log')
    (htables : ∀ table ∈ tables, table ∈ tables') {key value : Bytes}
    (hitem : ∀ table item name, Key.Short table → key = Key.ofItem table item name →
      record? log table item name = record? log' table item name)
    (hget : db.get? key = some value) : db'.get? key = some value := by
  rcases h.only key value hget with ⟨table, rfl⟩ | ⟨e, he, rfl⟩
  · have hcreated := (h.marker table).mp (Option.isSome_of_eq_some hget)
    obtain ⟨other, hother⟩ :=
      Option.isSome_iff_exists.mp ((h'.marker table).mpr (htables table hcreated))
    rw [hother, h.blank table value hget, h'.blank table other hother]
  · have hshort := h.short e.table (h.created e he)
    rw [h'.item _ _ _ hshort, ← hitem _ _ _ hshort rfl, ← h.item _ _ _ hshort, hget]

-- Where there are the same tables, and the same was put into the item of a key, the key has the same
-- record.
theorem get?_eq (h : Filled db tables log) (h' : Filled db' tables' log')
    (htables : ∀ table, table ∈ tables ↔ table ∈ tables') {key : Bytes}
    (hitem : ∀ table item name, Key.Short table → key = Key.ofItem table item name →
      record? log table item name = record? log' table item name) :
    db.get? key = db'.get? key := by
  apply Option.ext
  intro value
  constructor
  · exact h.get?_of_get? h' (fun table => (htables table).mp) hitem
  · exact h'.get?_of_get? h (fun table => (htables table).mpr)
      fun table item name hshort hkey => (hitem table item name hshort hkey).symm

theorem eq (h : Filled db tables log) (h' : Filled db' tables' log')
    (htables : ∀ table, table ∈ tables ↔ table ∈ tables')
    (hitem : ∀ table item name, record? log table item name = record? log' table item name) :
    db = db' := by
  apply ext_get?
  · intro key
    exact h.get?_eq h' htables fun table item name _ _ => hitem table item name
  · exact h.rule.trans h'.rule.symm

end Filled

theorem perform_refused {access : Access} (h : ¬access.Granted) :
    ∃ e, ∀ db, outcome access.perform db = (.error e, db) := by
  cases access with
  | create table =>
      have hlong : Key.maxTableLength < (Text.Utf8.encode table).length := Nat.lt_of_not_le h
      exact ⟨_, fun db => outcome_writing_error (if_pos hlong)⟩
  | lookup _ => exact absurd trivial h
  | merge _ => exact absurd trivial h

theorem toList_append_filterMap {α β : Type} (f : α → Option β) (x : α) (xs : List α) :
    (f x).toList ++ xs.filterMap f = (x :: xs).filterMap f := by
  cases hx : f x <;> simp [hx]

theorem granted_cons {access : Access} (h : access.Granted) (rest : List Access) :
    Access.granted (access :: rest) = access :: Access.granted rest :=
  List.takeWhile_cons_of_pos (decide_eq_true h)

theorem granted_cons_refused {access : Access} (h : ¬access.Granted) (rest : List Access) :
    Access.granted (access :: rest) = [] :=
  List.takeWhile_cons_of_neg (by simpa using h)

end Cadence.Keyed

namespace Cadence

open Keyed

-- Parties that find their tables fill a database by an interleaving of the accesses that each of them
-- is granted.
theorem Turns.filled {parties : List (List Access)} {db db' : Database}
    (h : Turns Access.perform parties db db') {tables : List String} {log : List Entry}
    (hf : Filled db tables log) (hready : ∀ p ∈ parties, Access.Ready tables p) :
    ∃ trace tables', Interleaves (parties.map Access.granted) trace ∧
      Filled db' tables' (log ++ trace.filterMap Access.entry?) ∧
      ∀ table, table ∈ tables' ↔ table ∈ tables ∨ table ∈ trace.filterMap Access.created? := by
  induction h generalizing tables log with
  | done empty =>
      refine ⟨[], tables, .done ?_, by simpa using hf, by simp⟩
      simpa using fun p hp => by simp [empty p hp, Access.granted]
  | @act front back access rest db mid db' result acts more ih =>
      have hself : Access.Ready tables (access :: rest) := hready _ (by simp)
      by_cases hgranted : access.Granted
      · -- the access is the first of the interleaving, and its party goes on with the rest
        obtain ⟨next, hnext, hfilled⟩ := hf.perform hgranted hself.1
        rw [hnext] at acts
        cases acts
        have hnow := Access.ready_go_on hready (List.subset_append_right _ _) hself.2
        obtain ⟨trace, tables', htrace, hdb', htables⟩ := ih hfilled hnow
        refine ⟨access :: trace, tables', ?_, ?_, ?_⟩
        · rw [List.map_append, List.map_cons] at htrace ⊢
          rw [granted_cons hgranted]
          exact .step htrace
        · rwa [List.append_assoc, toList_append_filterMap] at hdb'
        · intro table
          rw [htables, ← toList_append_filterMap]
          simp only [List.mem_append]
          tauto
      · -- the access changes nothing, and its party is done
        obtain ⟨e, he⟩ := perform_refused hgranted
        rw [he] at acts
        cases acts
        have hnow : ∀ p ∈ front ++ [] :: back, Access.Ready tables p :=
          Access.ready_go_on hready (List.Subset.refl _) trivial
        obtain ⟨trace, tables', htrace, hdb', htables⟩ := ih hf hnow
        refine ⟨trace, tables', ?_, hdb', htables⟩
        rw [List.map_append, List.map_cons] at htrace ⊢
        rw [granted_cons_refused hgranted]
        exact htrace

end Cadence
