import Cadence.Series
import Cadence.Timestamp

namespace Cadence

-- Numbers that series can hold and that aggregation can combine.
class Quantity (α : Type) where
  zero : α
  add : α → α → α
  divide : α → Nat → α
  -- The least and the greatest of some numbers.
  least : List α → α
  greatest : List α → α
  -- A number, unless it marks an absent value.
  defined : α → Option α

-- Doubles that are not numbers are passed over by the least and the greatest. Of two zeros the
-- earlier one stays.
instance : Quantity Float where
  zero := 0.0
  add := (· + ·)
  divide total count := total / Float.ofNat count
  least xs := xs.foldl (fun low x => if x < low then x else low) (1.0 / 0.0)
  greatest xs := xs.foldl (fun high x => if high < x then x else high) (-1.0 / 0.0)
  defined := Cadence.defined

inductive Aggregation where
  | sum
  | average
  | min
  | max
  deriving DecidableEq

-- Where the slots of series that share a step lie.
structure Grid where
  start : Int
  step : Int
  slots : Nat
  deriving DecidableEq

variable {α : Type}

def sumOf [Quantity α] : List α → α
  | [] => Quantity.zero
  | x :: xs => xs.foldl Quantity.add x

def Aggregation.combine [Quantity α] (a : Aggregation) (row : List α) : α :=
  match a with
  | sum => sumOf row
  | average => Quantity.divide (sumOf row) row.length
  | min => Quantity.least row
  | max => Quantity.greatest row

namespace Grid

-- The least common multiple of the steps, and one if that is zero.
def commonStep (series : List (Series α)) : Int :=
  max (series.foldl (fun l s => (Int.lcm l s.step : Int)) 1) 1

-- The grid from the first start to the last slot of the series that have slots, with its start on
-- a multiple of the step. Without such series it has no slots.
def ofSeries (series : List (Series α)) : Grid :=
  let step := commonStep series
  let filled := series.filter fun s => 0 < s.values.size
  match (filled.map (·.start)).min?, (filled.map (·.stop)).max? with
  | some first, some last =>
    let start := floorTo first step
    ⟨start, step, (Int.tdiv (last - start) step + 1).toNat⟩
  | _, _ => ⟨floorTo ((series.map (·.start)).min?.getD 0) step, step, 0⟩

-- The total and the count of the points in a slot.
abbrev Bucket (α : Type) := α × Nat

def addPoint [Quantity α] (g : Grid) (buckets : Array (Bucket α)) (p : Int × Option α) :
    Array (Bucket α) :=
  match p.2 with
  | none => buckets
  | some x =>
    let slot := Int.tdiv (p.1 - g.start) g.step
    if slot < 0 then buckets
    else buckets.modify slot.toNat fun b => (Quantity.add b.1 x, b.2 + 1)

def means [Quantity α] (g : Grid) (s : Series α) : Array (Option α) :=
  (s.points.foldl g.addPoint (Array.replicate g.slots (Quantity.zero, 0))).map fun b =>
    if b.2 = 0 then none else some (Quantity.divide b.1 b.2)

def row (columns : List (Array (Option α))) (slot : Nat) : List α :=
  columns.filterMap fun column => column[slot]?.join

end Grid

def aggregate [Quantity α] (a : Aggregation) (name : String) (series : List (Series α)) :
    Series α :=
  let grid := Grid.ofSeries series
  let columns := series.map grid.means
  let values := (Array.range grid.slots).map fun slot =>
    match Grid.row columns slot with
    | [] => none
    | x :: xs => Quantity.defined (a.combine (x :: xs))
  ⟨name, name, grid.start, grid.step, values⟩

end Cadence
