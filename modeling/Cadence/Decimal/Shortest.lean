import Cadence.Decimal.Binary

namespace Cadence.Decimal

-- Which of two equally near decimals is taken.
inductive Tie where
  | toEven
  | up
  deriving DecidableEq

-- The number `digits * 10 ^ exponent`.
structure Numeral where
  digits : Nat
  exponent : Int
  deriving DecidableEq

-- The reals that round to a double, all as quarters of its last place over a common
-- denominator. The ends belong to them when the mantissa is even.
structure Neighbourhood where
  low : Nat
  value : Nat
  high : Nat
  den : Nat
  closed : Bool

def neighbourhood (mantissa : Nat) (exponent : Int) : Neighbourhood :=
  let below := if mantissa = Nat.pow 2 52 ∧ -1074 < exponent then 1 else 2
  let scale := if 2 ≤ exponent then Nat.pow 2 (exponent - 2).toNat else 1
  { low := (4 * mantissa - below) * scale
    value := 4 * mantissa * scale
    high := (4 * mantissa + 2) * scale
    den := if 2 ≤ exponent then 1 else Nat.pow 2 (2 - exponent).toNat
    closed := mantissa % 2 = 0 }

def digitCount (n : Nat) : Nat := (Nat.toDigits 10 n).length

-- The place of the leading digit of a positive fraction: it is less than `10 ^ leading` and not
-- less than a tenth of that.
def leading (num den : Nat) : Int :=
  if den ≤ num then digitCount (num / den)
  else 1 - (digitCount ((den + num - 1) / num - 1) : Int)

-- The decimal nearest to the value among those with so many digits that read back.
def nearestOn (tie : Tie) (r : Neighbourhood) (exponent : Int) : Option Numeral :=
  let up := Nat.pow 10 (-exponent).toNat
  let down := Nat.pow 10 exponent.toNat
  let lower := r.value * up / (r.den * down)
  let reads (c : Nat) : Bool :=
    let point := c * r.den * down
    if r.closed then r.low * up ≤ point ∧ point ≤ r.high * up
    else r.low * up < point ∧ point < r.high * up
  let twice := 2 * r.value * up
  let middle := (2 * lower + 1) * r.den * down
  let nearer :=
    if twice < middle then lower
    else if middle < twice then lower + 1
    else match tie with
      | .up => lower + 1
      | .toEven => if lower % 2 = 0 then lower else lower + 1
  match reads lower, reads (lower + 1) with
  | true, true => some ⟨nearer, exponent⟩
  | true, false => some ⟨lower, exponent⟩
  | false, true => some ⟨lower + 1, exponent⟩
  | false, false => none

def trim : Nat → Numeral → Numeral
  | 0, d => d
  | fuel + 1, d => if d.digits % 10 = 0 then trim fuel ⟨d.digits / 10, d.exponent + 1⟩ else d

-- The shortest decimal that reads back to a positive double. Seventeen digits always suffice.
def shortest (tie : Tie) (mantissa : Nat) (exponent : Int) : Numeral :=
  let r := neighbourhood mantissa exponent
  let k := leading r.value r.den
  let found := (List.range 17).findSome? fun n => nearestOn tie r (k - (n + 1 : Nat))
  match found with
  | some d => trim 17 d
  | none => ⟨0, 0⟩

end Cadence.Decimal
