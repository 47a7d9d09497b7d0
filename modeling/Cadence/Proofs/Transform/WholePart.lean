import Cadence.Transform.Builtin
import Mathlib.Algebra.Order.Floor.Ring
import Mathlib.Data.Rat.Floor

namespace Cadence

open Float.Model UnpackedFloat

def towardsZero (q : ℚ) : Int := if 0 ≤ q then ⌊q⌋ else ⌈q⌉

-- The number of the node that a double selects: the double's whole part, as far as that is a timestamp. What
-- is no number selects the first node.
def nodeNumber (x : Float) : Int :=
  match x.toModel.unpack with
  | .notANumber => 0
  | .infinity .positive => Timestamp.highest
  | .infinity .negative => Timestamp.lowest
  | .zero _ => 0
  | .finite sign mantissa exponent _ =>
      max Timestamp.lowest (min (towardsZero (sign.apply mantissa * (2 : ℚ) ^ exponent)) Timestamp.highest)

section
variable (bits : BitVec Format.binary64.numBits)

theorem toNat_unpackMantissa : (unpackMantissa bits).toNat = bits.toNat % 2 ^ 52 := by
  rw [unpackMantissa, BitVec.toNat_cast, BitVec.extractLsb_toNat]
  rfl

theorem toNat_unpackExponent : (unpackExponent bits).toNat = bits.toNat / 2 ^ 52 % 2048 := by
  rw [unpackExponent, BitVec.toNat_cast, BitVec.extractLsb_toNat, Nat.shiftRight_eq_div_pow]
  rfl

theorem toNat_unpackSign : (unpackSign bits).toNat = bits.toNat / 2 ^ 63 % 2 := by
  delta unpackSign
  rw [BitVec.toNat_cast, BitVec.extractLsb_toNat, Nat.shiftRight_eq_div_pow]
  rfl

theorem toNat_one_append {w : Nat} (v : BitVec w) : (1#1 ++ v).toNat = 2 ^ w + v.toNat := by
  rw [BitVec.toNat_append, ← Nat.shiftLeft_add_eq_or_of_lt v.isLt, Nat.shiftLeft_eq]
  exact congrArg (· + v.toNat) (Nat.one_mul _)

theorem toBitVec_ofBitVec : ∀ bit : BitVec 1, (Sign.ofBitVec bit).toBitVec = bit := by decide

theorem unpackSign_eq_one_iff : (Sign.ofBitVec (unpackSign bits)).toBitVec = 1#1 ↔ 2 ^ 63 ≤ bits.toNat := by
  have hlt : bits.toNat < 2 ^ 64 := bits.isLt
  rw [toBitVec_ofBitVec, ← BitVec.toNat_inj, toNat_unpackSign]
  change _ = 1 ↔ _
  omega

-- The cases of doubles in the two ways to write them, by all the bits and by their parts.
theorem ofBits_unpack (word : UInt64) (hword : word.toNat = bits.toNat) :
    Decimal.Double.ofBits word = match UnpackedFloat.unpack Format.binary64 bits with
      | .notANumber => .nan
      | .infinity sign => .infinite (sign.toBitVec = 1#1)
      | .zero sign => .finite (sign.toBitVec = 1#1) 0 (-1074)
      | .finite sign mantissa exponent _ => .finite (sign.toBitVec = 1#1) mantissa exponent := by
  have hones : unpackExponent bits = -1#_ ↔ bits.toNat / 2 ^ 52 % 2048 = 2047 := by
    rw [← BitVec.toNat_inj, toNat_unpackExponent]
    rfl
  have hsmall : unpackExponent bits = 0#_ ↔ bits.toNat / 2 ^ 52 % 2048 = 0 := by
    rw [← BitVec.toNat_inj, toNat_unpackExponent]
    rfl
  have hwhole : unpackMantissa bits = 0#_ ↔ bits.toNat % 2 ^ 52 = 0 := by
    rw [← BitVec.toNat_inj, toNat_unpackMantissa]
    rfl
  have hsign : decide ((Sign.ofBitVec (unpackSign bits)).toBitVec = 1#1) = decide (2 ^ 63 ≤ bits.toNat) :=
    decide_eq_decide.mpr (unpackSign_eq_one_iff bits)
  have hbias : (Format.binary64.exponentBias : Int) + Format.binary64.mantissaBitsWithoutImplicit = 1075 := rfl
  delta UnpackedFloat.unpack
  rw [Decimal.Double.ofBits, hword, Nat.pow_eq, Nat.pow_eq, hbias]
  by_cases hexponent : bits.toNat / 2 ^ 52 % 2048 = 2047
  · rw [if_pos hexponent, if_pos (hones.mpr hexponent)]
    by_cases hmantissa : bits.toNat % 2 ^ 52 = 0
    · rw [if_pos hmantissa, if_pos (hwhole.mpr hmantissa)]
      exact congrArg Decimal.Double.infinite hsign.symm
    · rw [if_neg hmantissa, if_neg (mt hwhole.mp hmantissa)]
  · rw [if_neg hexponent, if_neg (mt hones.mp hexponent)]
    by_cases hzero : bits.toNat / 2 ^ 52 % 2048 = 0
    · rw [if_pos hzero, if_pos (hsmall.mpr hzero)]
      by_cases hmantissa : bits.toNat % 2 ^ 52 = 0
      · rw [dif_pos (hwhole.mpr hmantissa), hmantissa]
        dsimp only
        rw [hsign]
      · rw [dif_neg (mt hwhole.mp hmantissa)]
        dsimp only
        rw [hsign, toNat_unpackMantissa, toNat_unpackExponent, hzero]
        rfl
    · rw [if_neg hzero, if_neg (mt hsmall.mp hzero)]
      dsimp only
      rw [hsign, toNat_one_append, toNat_unpackMantissa, toNat_unpackExponent]

end

theorem towardsZero_intCast (n : Int) : towardsZero n = n := by
  rw [towardsZero, Int.floor_intCast, Int.ceil_intCast, ite_self]

theorem towardsZero_neg (q : ℚ) : towardsZero (-q) = -towardsZero q := by
  rcases lt_trichotomy q 0 with hq | rfl | hq
  · rw [towardsZero, towardsZero, if_pos (neg_nonneg.mpr hq.le), if_neg hq.not_ge, Int.floor_neg]
  · rfl
  · rw [towardsZero, towardsZero, if_neg (neg_lt_zero.mpr hq).not_ge, if_pos hq.le, Int.ceil_neg]

theorem towardsZero_div (m n : Nat) : towardsZero (m / n) = (m / n : Nat) := by
  rw [towardsZero, if_pos (by positivity), Rat.floor_natCast_div_natCast]
  rfl

theorem towardsZero_apply (sign : Sign) {mantissa whole : Nat} {factor : ℚ}
    (h : towardsZero (mantissa * factor) = whole) : towardsZero (sign.apply mantissa * factor) = sign.apply whole := by
  cases sign with
  | positive => exact h
  | negative =>
      rw [Sign.apply, Int.cast_neg, neg_mul, towardsZero_neg]
      exact congrArg Neg.neg h

theorem towardsZero_shiftLeft (sign : Sign) (mantissa places : Nat) :
    towardsZero (sign.apply mantissa * (2 : ℚ) ^ (places : Int)) = sign.apply (mantissa * 2 ^ places : Nat) := by
  apply towardsZero_apply
  rw [zpow_natCast, ← towardsZero_intCast (mantissa * 2 ^ places : Nat)]
  push_cast
  rfl

theorem towardsZero_shiftRight (sign : Sign) (mantissa places : Nat) :
    towardsZero (sign.apply mantissa * (2 : ℚ) ^ (-places : Int)) = sign.apply (mantissa / 2 ^ places : Nat) := by
  apply towardsZero_apply
  rw [zpow_neg, zpow_natCast, ← div_eq_mul_inv, ← towardsZero_div]
  push_cast
  rfl

theorem apply_eq_ite (sign : Sign) (n : Int) :
    sign.apply n = if decide (sign.toBitVec = 1#1) then -n else n := by
  cases sign <;> rfl

theorem wholePart_eq (x : Float) : wholePart x = nodeNumber x := by
  have hbits := ofBits_unpack x.toModel.toBits.toBitVec x.toBits rfl
  delta nodeNumber Float.Model.unpack
  rw [wholePart, hbits]
  cases UnpackedFloat.unpack Format.binary64 x.toModel.toBits.toBitVec with
  | notANumber => rfl
  | infinity sign => cases sign <;> rfl
  | zero sign =>
      simp only [← apply_eq_ite, Nat.zero_div]
      cases sign <;> rfl
  | finite sign mantissa exponent _ =>
      simp only [← apply_eq_ite]
      by_cases hleft : 0 ≤ exponent
      · obtain ⟨places, rfl⟩ := Int.eq_ofNat_of_zero_le hleft
        rw [if_pos hleft, towardsZero_shiftLeft]
        rfl
      · obtain ⟨places, rfl⟩ := Int.exists_eq_neg_ofNat (not_le.mp hleft).le
        rw [if_neg hleft, towardsZero_shiftRight, Int.neg_neg]
        rfl

end Cadence
