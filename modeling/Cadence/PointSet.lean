import Cadence.Series
import Cadence.Timestamp
import Std.Data.ExtTreeMap

namespace Cadence

structure StepMismatch where
  name : String
  left : Int
  right : Int
  deriving DecidableEq

def StepMismatch.message (m : StepMismatch) : String :=
  "cannot merge points for " ++ m.name ++ ": step " ++ toString m.left ++ " differs from step "
    ++ toString m.right

-- How many slots there are from a start to the one that an instant falls in.
def countSlots (start step last : Int) : Option Nat := do
  let length ← Timestamp.word? (last - start)
  let slots ← Timestamp.word? (Int.tdiv length step + 1)
  if 0 ≤ slots then return slots.toNat else none

structure PointSet where
  name : String
  step : Int
  points : Std.ExtTreeMap Int (Option Float)

namespace PointSet

def empty (name : String) (step : Int) : PointSet := ⟨name, step, ∅⟩

-- A point replaces the one at its instant.
def insert (s : PointSet) (t : Int) (value : Option Float) : PointSet :=
  { s with points := s.points.insert t value }

-- Later points win.
def ofPoints (name : String) (step : Int) (points : List (Int × Option Float)) : PointSet :=
  points.foldl (fun s p => s.insert p.1 p.2) (empty name step)

-- In ascending order.
def toList (s : PointSet) : List (Int × Option Float) := s.points.toList

def size (s : PointSet) : Nat := s.points.size

-- The union, in which the points of the second set win.
def merge (s other : PointSet) : Except StepMismatch PointSet :=
  if s.step = other.step then
    .ok { s with points := other.toList.foldl (fun m p => m.insert p.1 p.2) s.points }
  else .error ⟨s.name, s.step, other.step⟩

-- Puts a point into the slot that it falls in; of several in one slot the last one stays.
def place (start step : Int) (values : Array (Option Float)) (p : Int × Option Float) :
    Option (Array (Option Float)) := do
  let away ← Timestamp.word? (p.1 - start)
  let slot := Int.tdiv away step
  if 0 ≤ slot ∧ slot < values.size then return values.setIfInBounds slot.toNat p.2 else none

-- The series from the first point's slot to the last point's, on the multiples of the step. A set
-- without points becomes a series without slots, at the slot of `emptyStart`. All arithmetic is done
-- in words, and where a result leaves its word there is no series.
def toSeries (s : PointSet) (emptyStart : Int) : Option (Series Float) :=
  let step := max s.step 1
  match s.points.minKey?, s.points.maxKey? with
  | some first, some last => do
    let start ← Timestamp.word? (first - first % step)
    let slots ← countSlots start step last
    let values ← s.toList.foldlM (place start step) (Array.replicate slots none)
    return .ofValues s.name start step values
  | _, _ => do
    let start ← Timestamp.word? (emptyStart - emptyStart % step)
    return .ofValues s.name start step #[]

end PointSet

structure PointMap where
  sets : Std.ExtTreeMap String PointSet

namespace PointMap

def empty : PointMap := ⟨∅⟩

def insert (m : PointMap) (s : PointSet) : PointMap := ⟨m.sets.insert s.name s⟩

def get? (m : PointMap) (name : String) : Option PointSet := m.sets[name]?

def ofList (sets : List PointSet) : PointMap := sets.foldl insert empty

def toList (m : PointMap) : List PointSet := m.sets.values

def size (m : PointMap) : Nat := m.sets.size

-- Unites sets with those of their names, one after the other, as far as their steps agree.
def mergeSets (m : PointMap) : List PointSet → PointMap × Option StepMismatch
  | [] => (m, none)
  | s :: rest =>
    match m.get? s.name with
    | none => (m.insert s).mergeSets rest
    | some old =>
      match old.merge s with
      | .ok united => (m.insert united).mergeSets rest
      | .error e => (m, some e)

-- The union, in which the points of the second map win. On a mismatch of steps the sets of the
-- names before it are united and the others are not.
def merge (m other : PointMap) : PointMap × Option StepMismatch := m.mergeSets other.toList

def toSeries (m : PointMap) (emptyStart : Int) : Option (List (Series Float)) :=
  m.toList.mapM (·.toSeries emptyStart)

end PointMap

end Cadence
