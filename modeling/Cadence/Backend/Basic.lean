import Cadence.Sample
import Cadence.Database
import Cadence.Window
import Cadence.PointSet

namespace Cadence

inductive BackendError where
  | notFound (text : String)
  | storage (text : String)
  | encoding (text : String)
  | invalidRange (text : String)
  | internal (text : String)
  deriving DecidableEq

namespace BackendError

def message : BackendError → String
  | notFound text => "Not found: " ++ text
  | storage text => "Storage error: " ++ text
  | encoding text => "Encoding error: " ++ text
  | invalidRange text => "Invalid range: " ++ text
  | internal text => "Internal error: " ++ text

def ofEngine : EngineError → BackendError
  | .storage text => storage text
  | .internal text => internal text

def ofWindow (e : WindowError) : BackendError := invalidRange e.message

def ofMismatch (m : StepMismatch) : BackendError := internal m.message

end BackendError

-- An action on a storage with states `σ`. What it changed before it failed stays changed.
abbrev Action (σ : Type) := ExceptT BackendError (StateM σ)

def liftExcept {ε δ α σ : Type} (f : δ → ε) (r : Except δ α) : ExceptT ε (StateM σ) α :=
  match r with
  | .ok a => pure a
  | .error e => throw (f e)

structure Backend (σ : Type) where
  ping : Action σ Unit
  -- Creating a table that exists is no failure.
  createTable (table : String) : Action σ Unit
  -- The encoded items of some names; names without an item are left out.
  batchGet (table : String) (item : Timestamp) (names : List String) :
    Action σ (List (String × Bytes))
  -- Adds samples to an item; each replaces the stored one at its timestamp.
  put (table : String) (item : Timestamp) (name : String) (samples : List Sample) : Action σ Unit

-- What a store has to know about the layout of its tables and the size of its reads.
structure StoreSettings where
  -- What every table's name begins with.
  tablePrefix : String
  -- The most names in one read; nothing counts as one.
  batchLimit : Nat
  deriving DecidableEq

end Cadence
