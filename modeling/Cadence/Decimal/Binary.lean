namespace Cadence.Decimal

-- What a bit pattern stands for. A finite number is `mantissa * 2 ^ exponent`.
inductive Double where
  | nan
  | infinite (negative : Bool)
  | finite (negative : Bool) (mantissa : Nat) (exponent : Int)
  deriving DecidableEq

def Double.ofBits (bits : UInt64) : Double :=
  let n := bits.toNat
  let negative := decide (Nat.pow 2 63 ≤ n)
  let biased : Nat := n / Nat.pow 2 52 % 2048
  let fraction := n % Nat.pow 2 52
  if biased = 2047 then
    if fraction = 0 then .infinite negative else .nan
  else if biased = 0 then .finite negative fraction (-1074)
  else .finite negative (Nat.pow 2 52 + fraction) ((biased : Int) - 1075)

-- A quotient rounded to the nearest whole number, a tie to the even neighbour.
def roundQuotient (num den : Nat) : Nat :=
  let q := num / den
  let twice := 2 * (num % den)
  if den < twice ∨ (twice = den ∧ q % 2 = 1) then q + 1 else q

-- The fraction `num / den` divided by a power of two.
def scaleFraction (num den : Nat) (e : Int) : Nat × Nat :=
  if 0 ≤ e then (num, den * Nat.pow 2 e.toNat) else (num * Nat.pow 2 (-e).toNat, den)

-- The bits of the double nearest to a fraction. A double whose last place is worth `2 ^ e` has
-- a mantissa of 53 bits, or fewer where `e` is the least exponent; what exceeds every double
-- becomes infinite.
def nearestBits (negative : Bool) (num den : Nat) : UInt64 :=
  let estimate := if num = 0 then -1074 else max (-1074) ((num.log2 : Int) - den.log2 - 53)
  let first := scaleFraction num den estimate
  let e := if Nat.pow 2 53 ≤ first.1 / first.2 then estimate + 1 else estimate
  let scaled := scaleFraction num den e
  let magnitude := (e + 1074).toNat * Nat.pow 2 52 + roundQuotient scaled.1 scaled.2
  UInt64.ofNat (min magnitude (2047 * Nat.pow 2 52) + if negative then Nat.pow 2 63 else 0)

-- The double nearest to a decimal `digits * 10 ^ exponent`. The bounds only spare large powers:
-- beyond them the result is zero or infinite whatever the digits.
def nearest (negative : Bool) (digits : Nat) (exponent : Int) : Float :=
  let size : Int := (Nat.toDigits 10 digits).length + exponent
  let bits :=
    if digits = 0 ∨ size < -400 then nearestBits negative 0 1
    else if 400 < size then nearestBits negative (Nat.pow 2 1024) 1
    else if 0 ≤ exponent then nearestBits negative (digits * Nat.pow 10 exponent.toNat) 1
    else nearestBits negative digits (Nat.pow 10 (-exponent).toNat)
  Float.ofBits bits

end Cadence.Decimal
