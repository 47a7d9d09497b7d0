import Cadence.Timestamp

namespace Cadence

-- A tier is named by the distance between its points.
inductive Tier where
  | minute
  | fiveMinute
  | hour
  | day
  deriving DecidableEq, Repr

namespace Tier

def secondsPerDay : Int := 86400

-- Finest first.
def all : List Tier := [minute, fiveMinute, hour, day]

-- Seconds between two points.
def step : Tier → Int
  | minute => 60
  | fiveMinute => 300
  | hour => 3600
  | day => secondsPerDay

def tableWidth : Tier → Int
  | minute => secondsPerDay
  | fiveMinute => secondsPerDay
  | hour => 7 * secondsPerDay
  | day => 360 * secondsPerDay

-- Only the finest tier has several items in a table.
def itemWidth : Tier → Int
  | minute => 3600
  | t => t.tableWidth

-- Resolution and item width, as they are written in a table name.
def suffix : Tier → String
  | minute => "1m1h"
  | fiveMinute => "5m1d"
  | hour => "1h7d"
  | day => "1d1y"

-- The tier that serves a window of so many seconds.
def forSpan (seconds : Int) : Tier :=
  if 360 * secondsPerDay ≤ seconds then day
  else if 7 * secondsPerDay ≤ seconds then hour
  else if secondsPerDay ≤ seconds then fiveMinute
  else minute

def slot (tier : Tier) (t : Timestamp) : Timestamp := t.floor tier.step

def tableEpoch (tier : Tier) (t : Timestamp) : Timestamp := t.floor tier.tableWidth

def itemEpoch (tier : Tier) (t : Timestamp) : Timestamp := t.floor tier.itemWidth

def tableName (tier : Tier) (tablePrefix : String) (epoch : Timestamp) : String :=
  tablePrefix ++ "-" ++ tier.suffix ++ "-" ++ toString epoch.toInt

theorem itemWidth_dvd_tableWidth (tier : Tier) : tier.itemWidth ∣ tier.tableWidth := by
  cases tier <;> decide

theorem step_dvd_itemWidth (tier : Tier) : tier.step ∣ tier.itemWidth := by
  cases tier <;> decide

theorem step_pos (tier : Tier) : 0 < tier.step := by cases tier <;> decide

theorem itemWidth_pos (tier : Tier) : 0 < tier.itemWidth := by cases tier <;> decide

end Tier

end Cadence
