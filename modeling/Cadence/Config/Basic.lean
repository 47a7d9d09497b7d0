import Cadence.Backend.Basic
import Cadence.QueryError
import Cadence.Json.Writer

namespace Cadence

inductive ObjectStore where
  | inMemory
  | bucket (region name : String)
  | directory (path : String)
  deriving DecidableEq

inductive StorageConfig where
  | inMemory
  -- A path among the objects, and a file with settings of the engine.
  | durable (path : String) (objects : ObjectStore) (settings : Option String)
  deriving DecidableEq

structure Config where
  storage : StorageConfig
  tablePrefix : String
  batchLimit : Nat
  deriving DecidableEq

namespace Config

def defaultStorage : StorageConfig := .durable "data" (.directory ".data") none

-- What holds without any configuration.
def standard : Config := ⟨defaultStorage, "diamondb.timeseries", 100⟩

def settings (c : Config) : StoreSettings := ⟨c.tablePrefix, c.batchLimit⟩

def validate (c : Config) : Except QueryError Config :=
  if c.batchLimit = 0 then .error (.config "batch_limit must be at least 1")
  else if c.tablePrefix = "" then .error (.config "table_prefix must not be empty")
  else .ok c

end Config

def ObjectStore.toJson : ObjectStore → String
  | inMemory => Json.object [("type", Json.string "InMemory")]
  | bucket region name =>
    Json.object [("type", Json.string "Aws"), ("region", Json.string region),
      ("bucket", Json.string name)]
  | directory path => Json.object [("type", Json.string "Local"), ("path", Json.string path)]

def StorageConfig.toJson : StorageConfig → String
  | inMemory => Json.object [("type", Json.string "InMemory")]
  | durable path objects settings =>
    Json.object ([("type", Json.string "SlateDb"), ("path", Json.string path),
      ("object_store", objects.toJson)]
      ++ (settings.map fun s => ("settings_path", Json.string s)).toList)

def Config.toJson (c : Config) : String :=
  Json.object [("storage", c.storage.toJson), ("table_prefix", Json.string c.tablePrefix),
    ("batch_limit", toString c.batchLimit)]

end Cadence
