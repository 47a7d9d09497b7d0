namespace Cadence

structure Date where
  year : Int
  month : Nat
  day : Nat
  deriving DecidableEq

namespace Date

def isLeap (year : Int) : Bool := year % 4 = 0 && (year % 100 ≠ 0 || year % 400 = 0)

def monthLengths (year : Int) : List Nat :=
  [31, if isLeap year then 29 else 28, 31, 30, 31, 30, 31, 31, 30, 31, 30, 31]

def exists? (d : Date) : Bool :=
  match (monthLengths d.year)[d.month - 1]? with
  | some length => 1 ≤ d.month && 1 ≤ d.day && d.day ≤ length
  | none => false

-- Days before the first of January of a year, counted from the year one.
def daysBeforeYear (year : Int) : Int :=
  let y := year - 1
  365 * y + y / 4 - y / 100 + y / 400

-- Days before the first of a date's month in its year.
def daysBeforeMonth (d : Date) : Nat :=
  ((monthLengths d.year).take (d.month - 1)).foldl (· + ·) 0

-- Days since the first of January 1970.
def daysSinceEpoch (d : Date) : Int :=
  daysBeforeYear d.year - daysBeforeYear 1970 + d.daysBeforeMonth + d.day - 1

end Date

end Cadence
