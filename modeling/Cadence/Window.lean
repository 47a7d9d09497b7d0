import Cadence.Tier

namespace Cadence

structure Window where
  start : Timestamp
  stop : Timestamp
  deriving DecidableEq

structure Partition where
  table : String
  item : Timestamp
  deriving DecidableEq

inductive WindowError where
  | tooLarge (partitions : Int)
  | outOfRange
  deriving DecidableEq

namespace Window

-- The most partitions that one window may touch.
def maxPartitions : Int := 1000

def tier (w : Window) : Tier := Tier.forSpan (w.stop.toInt - w.start.toInt)

def step (w : Window) : Int := w.tier.step

-- The beginning of the item that holds the start. It may lie below every timestamp.
def firstItem (w : Window) : Int := w.start.toInt - w.start.toInt % w.tier.itemWidth

-- How many items begin before the stop and end after the start.
def itemCount (w : Window) : Int :=
  (w.stop.toInt - w.firstItem + w.tier.itemWidth - 1) / w.tier.itemWidth

-- Decides whether a window can be served, from its first item and the number of items alone.
def check (w : Window) : Except WindowError Unit :=
  if w.stop.toInt ≤ w.start.toInt then .ok ()
  else if maxPartitions < w.itemCount then .error (.tooLarge w.itemCount)
  else if w.firstItem < Timestamp.lowest then .error .outOfRange
  else .ok ()

def items (w : Window) : List Int :=
  if w.stop.toInt ≤ w.start.toInt then []
  else (List.range w.itemCount.toNat).map fun (k : Nat) => w.firstItem + k * w.tier.itemWidth

def partitionAt (tier : Tier) (tablePrefix : String) (item : Int) : Except WindowError Partition :=
  match Timestamp.ofInt? (item - item % tier.tableWidth), Timestamp.ofInt? item with
  | some table, some epoch => .ok ⟨tier.tableName tablePrefix table, epoch⟩
  | _, _ => .error .outOfRange

def partitions (w : Window) (tablePrefix : String) : Except WindowError (List Partition) :=
  match w.check with
  | .error e => .error e
  | .ok () => w.items.mapM (partitionAt w.tier tablePrefix)

end Window

def WindowError.message : WindowError → String
  | .tooLarge n => "time range spans " ++ toString n ++ " partitions, the limit is "
      ++ toString Window.maxPartitions
  | .outOfRange => "time range is out of bounds"

end Cadence
