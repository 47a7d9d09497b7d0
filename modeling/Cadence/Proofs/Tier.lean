import Cadence.Proofs.Text.Utf8
import Cadence.Tier
import Mathlib.Order.Bounds.Basic
import Std.Data.String.ToInt

namespace Cadence

-- What is left of an instant without its remainder is the nearest multiple of the width below it.
theorem isGreatest_sub_emod (t : Int) {width : Int} (hw : 0 < width) :
    IsGreatest {m : Int | width ∣ m ∧ m ≤ t} (t - t % width) := by
  have hmod := Int.emod_nonneg t (Int.ne_of_gt hw)
  refine ⟨⟨Int.dvd_self_sub_emod, by omega⟩, ?_⟩
  rintro m ⟨hdvd, hle⟩
  have hquotient := Int.mul_le_mul_of_nonneg_left (Int.ediv_le_ediv hw hle) (Int.le_of_lt hw)
  have hm := Int.mul_ediv_cancel' hdvd
  have ht := Int.emod_add_mul_ediv t width
  omega

theorem sub_emod_le_sub_emod {t u width : Int} (hw : 0 < width) (h : t ≤ u) :
    t - t % width ≤ u - u % width := by
  obtain ⟨hdvd, hle⟩ := (isGreatest_sub_emod t hw).1
  exact (isGreatest_sub_emod u hw).2 ⟨hdvd, Int.le_trans hle h⟩

theorem floorTo_floorTo (x : Int) {a b : Int} (ha : 0 < a) (hb : 0 < b) (hdvd : a ∣ b) :
    floorTo (floorTo x a) b = floorTo x b := by
  have hmod : x % b % a = x % a := Int.emod_emod_of_dvd x hdvd
  have hlow : 0 ≤ x % a := Int.emod_nonneg x (Int.ne_of_gt ha)
  have hlt := Int.emod_lt_of_pos x hb
  have hle : x % a ≤ x % b := by
    have hb0 := Int.emod_nonneg x (Int.ne_of_gt hb)
    have hq := Int.mul_nonneg (Int.le_of_lt ha) (Int.ediv_nonneg hb0 (Int.le_of_lt ha))
    have := Int.emod_add_mul_ediv (x % b) a
    omega
  -- what is above the multiple of the wider width stays above it
  have hrest : (x - x % a) % b = x % b - x % a := by
    have hsplit : x - x % a = x % b - x % a + b * (x / b) := by
      have := Int.emod_add_mul_ediv x b
      omega
    rw [hsplit, Int.add_mul_emod_self_left]
    exact Int.emod_eq_of_lt (by omega) (by omega)
  unfold floorTo
  by_cases hrange : Timestamp.lowest ≤ x - x % a
  · rw [Int.max_eq_right hrange, hrest]
    congr 1
    omega
  · have hlowest := Int.emod_nonneg Timestamp.lowest (Int.ne_of_gt hb)
    have hinner : max Timestamp.lowest (x - x % a) = Timestamp.lowest := by omega
    rw [hinner]
    omega

theorem floorTo_mono {x y : Int} (h : x ≤ y) {width : Int} (hw : 0 < width) :
    floorTo x width ≤ floorTo y width := by
  have hdown := sub_emod_le_sub_emod hw h
  unfold floorTo
  omega

namespace Timestamp

theorem toInt_floor (t : Timestamp) {width : Int} (hw : 0 < width) :
    (t.floor width).toInt = floorTo t.toInt width := by
  have hhigh := toInt_le_highest t
  have hmod := Int.emod_nonneg t.toInt (Int.ne_of_gt hw)
  have horder : lowest ≤ highest := by decide
  rw [floor, toInt_clamp, floorTo]
  omega

theorem floor_floor (t : Timestamp) {a b : Int} (ha : 0 < a) (hb : 0 < b) (hdvd : a ∣ b) :
    (t.floor a).floor b = t.floor b := by
  apply Int64.toInt_inj.mp
  rw [toInt_floor _ hb, toInt_floor _ ha, toInt_floor _ hb, floorTo_floorTo _ ha hb hdvd]

-- Rounding down yields the nearest multiple below, unless there is no timestamp for it.
theorem toInt_floor_eq (t : Timestamp) {width : Int} (hw : 0 < width) :
    (t.floor width).toInt
      = if t.toInt - t.toInt % width < lowest then lowest else t.toInt - t.toInt % width := by
  rw [toInt_floor t hw, floorTo]
  split <;> omega

theorem floor_le (t : Timestamp) {width : Int} (hw : 0 < width) : t.floor width ≤ t := by
  have hlow := lowest_le_toInt t
  have hmod := Int.emod_nonneg t.toInt (Int.ne_of_gt hw)
  rw [Int64.le_iff_toInt_le, toInt_floor t hw, floorTo]
  omega

theorem floor_mono {t u : Timestamp} (h : t ≤ u) {width : Int} (hw : 0 < width) :
    t.floor width ≤ u.floor width := by
  rw [Int64.le_iff_toInt_le, toInt_floor t hw, toInt_floor u hw]
  exact floorTo_mono (Int64.le_iff_toInt_le.mp h) hw

end Timestamp

namespace Tier

theorem mem_all (tier : Tier) : tier ∈ all := by cases tier <;> decide

theorem tableWidth_pos (tier : Tier) : 0 < tier.tableWidth := by cases tier <;> decide

-- A slot is in the item of the timestamps that are rounded down to it.
theorem itemEpoch_slot (tier : Tier) (t : Timestamp) : tier.itemEpoch (tier.slot t) = tier.itemEpoch t :=
  t.floor_floor tier.step_pos tier.itemWidth_pos tier.step_dvd_itemWidth

theorem tableEpoch_itemEpoch (tier : Tier) (t : Timestamp) :
    tier.tableEpoch (tier.itemEpoch t) = tier.tableEpoch t :=
  t.floor_floor tier.itemWidth_pos tier.tableWidth_pos tier.itemWidth_dvd_tableWidth

-- What the decimal of a whole number is made of.
def isNumeral (c : Char) : Bool := c.isDigit || c = '-'

theorem isNumeral_of_mem_toString {i : Int} {c : Char} (h : c ∈ (toString i).toList) :
    isNumeral c := by
  have hdigit : ∀ n : Nat, c ∈ n.repr.toList → isNumeral c := by
    intro n hm
    rw [Nat.toList_repr] at hm
    simp [isNumeral, Nat.isDigit_of_mem_toDigits (by decide) (by decide) hm]
  rw [Int.toString_eq_repr] at h
  cases i with
  | ofNat n => exact hdigit n h
  | negSucc n =>
      have hsplit : (Int.negSucc n).repr.toList = '-' :: n.succ.repr.toList := by simp [Int.repr]
      rw [hsplit] at h
      rcases List.mem_cons.mp h with rfl | hm
      · rfl
      · exact hdigit n.succ hm

-- Before a numeral, its beginning is found from the end.
theorem numeral_tail {xs ys a b : List Char} {x y : Char} (hx : isNumeral x = false)
    (hy : isNumeral y = false) (ha : ∀ c ∈ a, isNumeral c) (hb : ∀ c ∈ b, isNumeral c)
    (h : xs ++ x :: a = ys ++ y :: b) : xs = ys ∧ x = y ∧ a = b := by
  rcases List.append_eq_append_iff.mp h with ⟨mid, rfl, hmid⟩ | ⟨mid, rfl, hmid⟩
  · cases mid with
    | nil =>
        obtain ⟨rfl, rfl⟩ := List.cons.inj hmid
        exact ⟨by simp, rfl, rfl⟩
    | cons z mid =>
        obtain ⟨rfl, rfl⟩ := List.cons.inj hmid
        have := ha y (by simp)
        simp [hy] at this
  · cases mid with
    | nil =>
        obtain ⟨rfl, rfl⟩ := List.cons.inj hmid
        exact ⟨by simp, rfl, rfl⟩
    | cons z mid =>
        obtain ⟨rfl, rfl⟩ := List.cons.inj hmid
        have := hb x (by simp)
        simp [hx] at this

theorem suffix_toList (tier : Tier) :
    ∃ body last, tier.suffix.toList = body ++ [last] ∧ body.length = 3 ∧ isNumeral last = false := by
  cases tier
  · exact ⟨['1', 'm', '1'], 'h', rfl, rfl, rfl⟩
  · exact ⟨['5', 'm', '1'], 'd', rfl, rfl, rfl⟩
  · exact ⟨['1', 'h', '7'], 'd', rfl, rfl, rfl⟩
  · exact ⟨['1', 'd', '1'], 'y', rfl, rfl, rfl⟩

theorem suffix_injective {tier other : Tier} (h : tier.suffix = other.suffix) : tier = other := by
  cases tier <;> cases other <;> simp [suffix] at h ⊢

theorem tableName_injective {tier other : Tier} {p q : String} {e f : Timestamp}
    (h : tier.tableName p e = other.tableName q f) : tier = other ∧ p = q ∧ e = f := by
  obtain ⟨body, last, hsuffix, hbody, hlast⟩ := tier.suffix_toList
  obtain ⟨body', last', hsuffix', hbody', hlast'⟩ := other.suffix_toList
  have hchars := congrArg String.toList h
  simp only [tableName, String.toList_append, hsuffix, hsuffix', List.append_assoc] at hchars
  have hnum : ∀ t : Timestamp, ∀ c ∈ '-' :: (toString t.toInt).toList, isNumeral c := by
    intro t c hm
    rcases List.mem_cons.mp hm with rfl | hm
    · rfl
    · exact isNumeral_of_mem_toString hm
  have hcut : (p.toList ++ '-' :: body) ++ last :: '-' :: (toString e.toInt).toList
      = (q.toList ++ '-' :: body') ++ last' :: '-' :: (toString f.toInt).toList := by
    simpa using hchars
  obtain ⟨hfront, rfl, hback⟩ := numeral_tail hlast hlast' (hnum e) (hnum f) hcut
  obtain ⟨hnames, hrest⟩ := List.append_inj' hfront (by simp [hbody, hbody'])
  have hepoch : (toString e.toInt).toList = (toString f.toInt).toList := (List.cons.inj hback).2
  refine ⟨?_, String.toList_injective hnames, ?_⟩
  · apply suffix_injective
    apply String.toList_injective
    rw [hsuffix, hsuffix', (List.cons.inj hrest).2]
  · apply Int64.toInt_inj.mp
    apply Int.repr_injective
    exact String.toList_injective hepoch

theorem length_toString_le (t : Timestamp) : (toString t.toInt).length ≤ 20 := by
  have hlow := Timestamp.lowest_le_toInt t
  have hhigh := Timestamp.toInt_le_highest t
  unfold Timestamp.lowest at hlow
  unfold Timestamp.highest at hhigh
  rw [Int.toString_eq_repr]
  cases ht : t.toInt with
  | ofNat n =>
      rw [ht, Int.ofNat_eq_natCast] at hhigh
      have hn : n.repr.length ≤ 20 := (Nat.length_repr_le_iff (by decide)).mpr (by omega)
      simpa [Int.repr] using hn
  | negSucc n =>
      rw [ht] at hlow
      have hn : (n + 1).repr.length ≤ 19 := (Nat.length_repr_le_iff (by decide)).mpr (by omega)
      have hdash : "-".length = 1 := rfl
      have hsign : (Int.negSucc n).repr.length = 1 + (n + 1).repr.length := by
        simp [Int.repr, hdash]
      omega

theorem length_encode_tableName_eq (tier : Tier) (tablePrefix : String) (epoch : Timestamp) :
    (Text.Utf8.encode (tier.tableName tablePrefix epoch)).length
      = (Text.Utf8.encode tablePrefix).length + 6
        + (Text.Utf8.encode (toString epoch.toInt)).length := by
  have hsuffix : (Text.Utf8.encode tier.suffix).length = 4 := by cases tier <;> decide
  have hdash : (Text.Utf8.encode "-").length = 1 := by decide
  simp only [tableName, Text.Utf8.encode_append, List.length_append, hsuffix, hdash]

theorem length_encode_tableName (tier : Tier) (tablePrefix : String) (epoch : Timestamp) :
    (Text.Utf8.encode tablePrefix).length ≤ (Text.Utf8.encode (tier.tableName tablePrefix epoch)).length
      ∧ (Text.Utf8.encode (tier.tableName tablePrefix epoch)).length
        ≤ (Text.Utf8.encode tablePrefix).length + 104 := by
  have hlength := tier.length_encode_tableName_eq tablePrefix epoch
  have hepoch := Text.Utf8.length_encode_le (toString epoch.toInt)
  have hdigits := length_toString_le epoch
  omega

end Tier

end Cadence
