import Cadence.Backend.Basic
import Cadence.Fanout
import Cadence.Names

namespace Cadence

structure FetchUnit where
  partition : Partition
  names : List String
  deriving DecidableEq

namespace FetchUnit

-- Partitions outermost.
def plan (settings : StoreSettings) (w : Window) (names : List String) :
    Except WindowError (List FetchUnit) :=
  (w.partitions settings.tablePrefix).map fun partitions =>
    partitions.flatMap fun p => (Names.batches settings.batchLimit names).map fun batch => ⟨p, batch⟩

-- The points of an item that lie in a window, both ends included.
def windowPoints (w : Window) (samples : List Sample) : List (Int × Option Float) :=
  (samples.filter fun s => w.start ≤ s.time ∧ s.time ≤ w.stop).map fun s =>
    (s.time.toInt, defined (Float.ofBits s.bits))

def pointsOf (w : Window) : List (String × Bytes) → Except BackendError PointMap
  | items => do
    let sets ← items.mapM fun (name, bytes) =>
      match Sample.decode bytes with
      | .ok samples => .ok (PointSet.ofPoints name w.step (windowPoints w samples))
      | .error e => .error (BackendError.encoding e.message)
    return PointMap.ofList sets

-- What a read yields. A table that does not exist holds nothing.
def points (w : Window) : Except BackendError (List (String × Bytes)) → Except BackendError PointMap
  | .ok items => pointsOf w items
  | .error (.notFound _) => .ok PointMap.empty
  | .error e => .error e

def run {σ : Type} (b : Backend σ) (w : Window) (u : FetchUnit) : Action σ PointMap :=
  ExceptT.mk (return points w (← (b.batchGet u.partition.table u.partition.item u.names).run))

end FetchUnit

-- Unites partial maps in order, as far as their steps agree.
def PointMap.mergeAll (m : PointMap) : List PointMap → Except StepMismatch PointMap
  | [] => .ok m
  | part :: parts =>
    match m.merge part with
    | (united, none) => united.mergeAll parts
    | (_, some e) => .error e

-- The points of every name of a pattern; a name without points has an empty set. The order of
-- completion is given by the number of reads.
def Backend.fetchMap {σ : Type} (b : Backend σ) (settings : StoreSettings) (order : Nat → Fanout.Order)
    (pattern : String) (w : Window) : Action σ PointMap := do
  let names := Names.expand pattern
  let units ← liftExcept BackendError.ofWindow (FetchUnit.plan settings w names)
  let parts ← Fanout.runTasks (order units.length) (units.map (FetchUnit.run b w))
  let entries := PointMap.ofList (names.map fun name => PointSet.empty name w.step)
  liftExcept BackendError.ofMismatch (entries.mergeAll parts)

end Cadence
