namespace Cadence

-- A value, unless it is not a number: that marks an absent one.
def defined (x : Float) : Option Float := if x.isNaN then none else some x

-- Slot `i` belongs to the instant `start + i * step`. The label is what a reader sees.
structure Series (α : Type) where
  name : String
  label : String
  start : Int
  step : Int
  values : Array (Option α)

namespace Series

variable {α : Type}

-- The instant of the last slot, or the start when there is none.
def stop (s : Series α) : Int := s.start + s.step * (s.values.size - 1 : Nat)

def instant (s : Series α) (slot : Nat) : Int := s.start + s.step * slot

def points (s : Series α) : List (Int × Option α) :=
  s.values.toList.zipIdx.map fun (value, slot) => (s.instant slot, value)

def withLabel (s : Series α) (label : String) : Series α := { s with label }

-- A series whose label is its name. Values that are not numbers become absent.
def ofValues (name : String) (start step : Int) (values : Array (Option Float)) : Series Float :=
  ⟨name, name, start, step, values.map (·.bind defined)⟩

end Series

end Cadence
