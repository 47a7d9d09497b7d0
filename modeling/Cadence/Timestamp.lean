namespace Cadence

abbrev Timestamp := Int64

namespace Timestamp

def lowest : Int := -9223372036854775808

def highest : Int := 9223372036854775807

def clamp (t : Int) : Timestamp := Int64.ofInt (max lowest (min t highest))

def ofInt? (t : Int) : Option Timestamp :=
  if lowest ≤ t ∧ t ≤ highest then some (Int64.ofInt t) else none

-- A result of arithmetic, unless it leaves the range.
def word? (t : Int) : Option Int := if lowest ≤ t ∧ t ≤ highest then some t else none

-- Whole seconds of a time in nanoseconds, cut toward the epoch.
def ofNanoseconds (n : Int) : Timestamp := clamp (Int.tdiv n 1000000000)

theorem lowest_le_toInt (t : Timestamp) : lowest ≤ t.toInt := Int64.le_toInt t

theorem toInt_le_highest (t : Timestamp) : t.toInt ≤ highest := by
  have := Int64.toInt_lt t
  unfold highest
  omega

theorem toInt_clamp (t : Int) : (clamp t).toInt = max lowest (min t highest) := by
  unfold clamp lowest highest
  apply Int64.toInt_ofInt_of_le <;> omega

theorem word?_eq_some {t : Int} (hlow : lowest ≤ t) (hhigh : t ≤ highest) : word? t = some t :=
  if_pos ⟨hlow, hhigh⟩

theorem word?_eq_some_iff {t t' : Int} : word? t = some t' ↔ (lowest ≤ t ∧ t ≤ highest) ∧ t = t' := by
  rw [word?, Option.ite_none_right_eq_some, Option.some.injEq]

-- A difference of instants in order, where the earlier one is near enough.
theorem word?_nonneg {t : Int} (hlow : 0 ≤ t) (hhigh : t ≤ highest) : word? t = some t :=
  word?_eq_some (Int.le_trans (by decide) hlow) hhigh

theorem ofInt?_eq_some_iff (t : Int) (s : Timestamp) : ofInt? t = some s ↔ s.toInt = t := by
  unfold ofInt?
  constructor
  · intro h
    split at h
    · rename_i hb
      cases h
      unfold lowest highest at hb
      apply Int64.toInt_ofInt_of_le <;> omega
    · cases h
  · rintro rfl
    rw [if_pos ⟨lowest_le_toInt s, toInt_le_highest s⟩, Int64.ofInt_toInt]

-- The word of a negative timestamp is its two's complement.
theorem toNat_toUInt64 (t : Timestamp) :
    (t.toUInt64.toNat : Int) = t.toInt % 18446744073709551616 := by
  have hlt := t.toUInt64.toNat_lt
  have hbmod : t.toInt = (t.toUInt64.toNat : Int).bmod 18446744073709551616 :=
    BitVec.toInt_eq_toNat_bmod t.toBitVec
  have hemod : (t.toUInt64.toNat : Int).bmod 18446744073709551616 % 18446744073709551616
      = t.toUInt64.toNat % 18446744073709551616 :=
    Int.bmod_emod
  omega

end Timestamp

-- The largest multiple of the width that is not above the instant; below the range of
-- timestamps it stops at the lowest one.
def floorTo (t width : Int) : Int := max Timestamp.lowest (t - t % width)

-- The same on timestamps, where the result is a timestamp again.
def Timestamp.floor (t : Timestamp) (width : Int) : Timestamp :=
  Timestamp.clamp (floorTo t.toInt width)

end Cadence
