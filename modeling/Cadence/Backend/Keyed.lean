import Cadence.Backend.Basic
import Cadence.Backend.Key

namespace Cadence.Keyed

open Text

def ensureTable (db : Database) (table : String) : Except BackendError Unit :=
  match db.get? (Key.ofTable table) with
  | some _ => .ok ()
  | none => .error (.notFound ("table " ++ table))

def createTable (table : String) (db : Database) : Except BackendError Database :=
  let length := (Utf8.encode table).length
  if Key.maxTableLength < length then
    .error (.internal ("table name too long: " ++ toString length ++ " bytes"))
  else .ok (db.put (Key.ofTable table, []))

-- The name of a scanned item: what follows the stem of its key.
def itemName (stem : Bytes) (key : Bytes) : Except BackendError String :=
  match Utf8.decode (key.drop stem.length) with
  | .ok name => .ok name
  | .error fault => .error (.encoding ("metric name is not utf-8: " ++ fault.message))

def span : List Bytes → Option (Bytes × Bytes)
  | [] => none
  | key :: keys =>
    match span keys with
    | none => some (key, key)
    | some (low, high) =>
      some (if (compare key low).isLE then key else low, if (compare high key).isLE then key else high)

-- Scans from the least requested key to the greatest and keeps what was requested.
def batchGet (table : String) (item : Timestamp) (names : List String) (db : Database) :
    Except BackendError (List (String × Bytes)) := do
  ensureTable db table
  match span (names.map (Key.ofItem table item)) with
  | none => return []
  | some (low, high) =>
    let found ← (db.scan (.included low) (.included high)).mapM fun (key, value) => do
      return (← itemName (Key.itemStem table item) key, value)
    return found.filter fun (name, _) => names.contains name

def mergeItem (table : String) (item : Timestamp) (name : String) (samples : List Sample)
    (db : Database) : Except BackendError Database :=
  match db.mergeAll [(Key.ofItem table item name, Sample.encode samples)] with
  | .ok db => .ok db
  | .error e => .error (.ofEngine e)

def put (table : String) (item : Timestamp) (name : String) (samples : List Sample)
    (db : Database) : Except BackendError Database := do
  ensureTable db table
  mergeItem table item name samples db

def reading (read : Database → Except BackendError α) : Action Database α :=
  ExceptT.mk fun db => (read db, db)

def writing (write : Database → Except BackendError Database) : Action Database Unit := ExceptT.mk fun db =>
  match write db with
  | .ok changed => (.ok (), changed)
  | .error e => (.error e, db)

def backend : Backend Database where
  ping := reading fun _ => .ok ()
  createTable table := writing (createTable table)
  batchGet table item names := reading (batchGet table item names)
  put table item name samples := writing (put table item name samples)

end Cadence.Keyed
