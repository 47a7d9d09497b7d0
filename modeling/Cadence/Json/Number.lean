import Cadence.Json.Token
import Cadence.Decimal.Binary
import Cadence.Timestamp

namespace Cadence.Json

open Text (digitsValue)

inductive NumberValue where
  | whole (n : Int)
  | double (x : Float)
  | outOfRange

def maxSignificand : Nat := 18446744073709551615

-- Appends digits to a significand while it stays within its bits: the significand and the digits
-- that are left.
def appendDigits (n : Nat) : List Char → Nat × List Char
  | [] => (n, [])
  | c :: cs =>
    let next := n * 10 + (c.toNat - '0'.toNat)
    if maxSignificand < next then (n, c :: cs) else appendDigits next cs

def powerOfTen (n : Nat) : Float := Decimal.nearest false 1 n

def maxPower : Nat := 308

-- A double times a power of ten. Dividing by the greatest power twice leaves nothing of it, so few
-- rounds are enough.
def scale : Nat → Float → Int → Option Float
  | 0, x, _ => some x
  | rounds + 1, x, e =>
    if e.natAbs ≤ maxPower then
      if 0 ≤ e then
        let y := x * powerOfTen e.toNat
        if y.isInf then none else some y
      else some (x / powerOfTen e.natAbs)
    else if x == 0.0 then some x
    else if 0 ≤ e then none
    else scale rounds (x / powerOfTen maxPower) (e + maxPower)

namespace NumberText

def applySign (negative : Bool) (x : Float) : Float := if negative then -x else x

def toDouble (n : NumberText) : NumberValue :=
  let (significand, dropped) := appendDigits 0 n.whole
  let (significand, ignored) := appendDigits significand n.fraction
  let shift : Int := dropped.length - (n.fraction.length - ignored.length : Nat)
  let exponent :=
    match n.exponent with
    | none => shift
    | some (negative, digits) =>
      if negative then shift - digitsValue digits else shift + digitsValue digits
  match scale 4 (Float.ofNat significand) exponent with
  | some x => .double (applySign n.negative x)
  | none => .outOfRange

def value (n : NumberText) : NumberValue :=
  let digits := digitsValue n.whole
  if n.fraction ≠ [] ∨ n.exponent.isSome ∨ maxSignificand < digits then n.toDouble
  else if !n.negative then .whole digits
  else if digits = 0 ∨ (digits : Int) > -Timestamp.lowest then .double (-(Float.ofNat digits))
  else .whole (-digits)

end NumberText

def wholeToFloat (n : Int) : Float :=
  if n < 0 then -(Float.ofNat n.natAbs) else Float.ofNat n.natAbs

end Cadence.Json
