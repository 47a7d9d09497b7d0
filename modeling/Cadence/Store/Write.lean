import Cadence.Backend.Basic

namespace Cadence

structure Metric where
  name : String
  samples : List Sample

inductive WriteCall where
  | createTable (table : String)
  | put (table : String) (item : Timestamp) (samples : List Sample)
  deriving DecidableEq

structure ItemPut where
  table : String
  item : Timestamp
  samples : List Sample

namespace Metric

def slotted (tier : Tier) (samples : List Sample) : List Sample :=
  samples.map fun s => { s with time := tier.slot s.time }

-- The epochs of the items that hold some samples, ascending and each once.
def itemEpochs (tier : Tier) (samples : List Sample) : List Timestamp :=
  (samples.foldl (fun epochs s => epochs.insert (tier.itemEpoch s.time) ())
    (∅ : Std.ExtTreeMap Timestamp Unit)).keys

-- The puts of a tier. An item lies in the table that holds its beginning.
def tierPuts (tablePrefix : String) (samples : List Sample) (tier : Tier) : List ItemPut :=
  let slots := slotted tier samples
  (itemEpochs tier slots).map fun item =>
    { table := tier.tableName tablePrefix (tier.tableEpoch item)
      item := item
      samples := slots.filter fun s => tier.itemEpoch s.time = item }

-- Puts with the creation of each table before its first one.
def withTables (created : List String) : List ItemPut → List WriteCall
  | [] => []
  | p :: ps =>
    if p.table ∈ created then .put p.table p.item p.samples :: withTables created ps
    else .createTable p.table :: .put p.table p.item p.samples :: withTables (p.table :: created) ps

def calls (tablePrefix : String) (m : Metric) : List WriteCall :=
  withTables [] (Tier.all.flatMap (tierPuts tablePrefix m.samples))

end Metric

namespace Backend

variable {σ : Type}

def perform (b : Backend σ) (name : String) : WriteCall → Action σ Unit
  | .createTable table => b.createTable table
  | .put table item samples => b.put table item name samples

-- Performs calls in order up to the first that fails.
def performAll (b : Backend σ) (name : String) : List WriteCall → Action σ Unit
  | [] => pure ()
  | call :: calls => do
    b.perform name call
    b.performAll name calls

end Backend

end Cadence
