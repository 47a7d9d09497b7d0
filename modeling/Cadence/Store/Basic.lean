import Cadence.Store.Write
import Cadence.Store.Fetch
import Cadence.QueryError

namespace Cadence

abbrev Query (σ : Type) := ExceptT QueryError (StateM σ)

structure Store (σ : Type) where
  fetch (pattern : String) (w : Window) : Query σ (List (Series Float))
  ping : Query σ Unit
  insert (m : Metric) : Query σ Unit

variable {σ : Type}

def liftAction {α : Type} (r : Action σ α) : Query σ α := ExceptT.mk do
  return (← r.run).mapError .ofBackend

namespace Backend

-- The points of a pattern, with the reads completing in the order of the plan.
def points (b : Backend σ) (settings : StoreSettings) (pattern : String) (w : Window) :
    Query σ PointMap :=
  liftAction (b.fetchMap settings List.range pattern w)

def series (b : Backend σ) (settings : StoreSettings) (pattern : String) (w : Window) :
    Query σ (List (Series Float)) := do
  let m ← b.points settings pattern w
  liftExcept id (QueryError.inWords (m.toSeries w.start.toInt))

-- A metric has to have a name.
def write (b : Backend σ) (settings : StoreSettings) (m : Metric) : Query σ Unit :=
  if m.name = "" then throw (.argument "metric name must not be empty")
  else liftAction (b.performAll m.name (m.calls settings.tablePrefix))

end Backend

def Store.ofBackend (b : Backend σ) (settings : StoreSettings) : Store σ where
  fetch := b.series settings
  ping := liftAction b.ping
  insert := b.write settings

end Cadence
