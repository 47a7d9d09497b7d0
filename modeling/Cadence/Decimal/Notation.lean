import Cadence.Decimal.Shortest

namespace Cadence.Decimal

structure Style where
  tie : Tie
  -- The exponents of the leading digit that are written positionally, none for all of them.
  positional : Option (Int × Int)
  -- Whether a whole number in positional notation ends in a point and a zero.
  pointed : Bool
  -- Whether an exponent that is not negative has a sign.
  signed : Bool
  nan : String
  infinity : String

def zeros (n : Nat) : String := String.ofList (List.replicate n '0')

-- Digits with the decimal point after the first `place` of them.
def positionally (style : Style) (digits : String) (place : Int) : String :=
  let n : Int := digits.length
  if place ≤ 0 then "0." ++ zeros (-place).toNat ++ digits
  else if n ≤ place then
    digits ++ zeros (place - n).toNat ++ if style.pointed then ".0" else ""
  else
    String.ofList (digits.toList.take place.toNat) ++ "."
      ++ String.ofList (digits.toList.drop place.toNat)

def scientifically (style : Style) (digits : String) (e : Int) : String :=
  let rest := digits.toList.drop 1
  let sign := if e < 0 then "-" else if style.signed then "+" else ""
  String.ofList (digits.toList.take 1)
    ++ (if rest.isEmpty then "" else "." ++ String.ofList rest)
    ++ "e" ++ sign ++ toString e.natAbs

def Style.writeMagnitude (style : Style) (mantissa : Nat) (exponent : Int) : String :=
  if mantissa = 0 then if style.pointed then "0.0" else "0"
  else
    let d := shortest style.tie mantissa exponent
    let digits := toString d.digits
    let place := (digits.length : Int) + d.exponent
    match style.positional with
    | none => positionally style digits place
    | some (low, high) =>
      if low ≤ place - 1 ∧ place - 1 < high then positionally style digits place
      else scientifically style digits (place - 1)

def Style.write (style : Style) (x : Float) : String :=
  match Double.ofBits x.toBits with
  | .nan => style.nan
  | .infinite negative => (if negative then "-" else "") ++ style.infinity
  | .finite negative mantissa exponent =>
    (if negative then "-" else "") ++ style.writeMagnitude mantissa exponent

end Cadence.Decimal
