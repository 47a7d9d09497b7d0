import Cadence.Proofs.Backend.Keyed

namespace Cadence

open Text

-- A number is compared by its quotient and then by its remainder.
theorem compare_eq_then (d m n : Nat) (hd : 0 < d) :
    compare m n = (compare (m / d) (n / d)).then (compare (m % d) (n % d)) := by
  have hm := Nat.div_add_mod m d
  have hn := Nat.div_add_mod n d
  have hmlt := Nat.mod_lt m hd
  have hnlt := Nat.mod_lt n hd
  have hmono : ∀ {a b : Nat}, a < b → d * a + d ≤ d * b := fun h => Nat.mul_le_mul_left d h
  rcases Nat.lt_trichotomy (m / d) (n / d) with h | h | h
  · have := hmono h
    rw [Nat.compare_eq_lt.mpr h, Nat.compare_eq_lt.mpr (show m < n by omega), Ordering.lt_then]
  · rw [h, Nat.compare_eq_eq.mpr rfl, Ordering.eq_then]
    rw [h] at hm
    rcases Nat.lt_trichotomy (m % d) (n % d) with hr | hr | hr
    · rw [Nat.compare_eq_lt.mpr hr, Nat.compare_eq_lt.mpr (show m < n by omega)]
    · rw [Nat.compare_eq_eq.mpr hr, Nat.compare_eq_eq.mpr (show m = n by omega)]
    · rw [Nat.compare_eq_gt.mpr hr, Nat.compare_eq_gt.mpr (show n < m by omega)]
  · have := hmono h
    rw [Nat.compare_eq_gt.mpr h, Nat.compare_eq_gt.mpr (show n < m by omega), Ordering.gt_then]

-- Bytes of as many places, the most significant first, are in the order of what the places hold.
theorem compare_places (count m n : Nat) (xs ys : Bytes) :
    compare (Bytes.places count m ++ xs) (Bytes.places count n ++ ys)
      = (compare (m % Nat.pow 256 count) (n % Nat.pow 256 count)).then (compare xs ys) := by
  have hpow : ∀ k, Nat.pow 256 k = 256 ^ k := fun _ => rfl
  simp only [Bytes.places, hpow]
  have hbyte : ∀ k, UInt8.ofNat k = UInt8.ofNat (k % 256) := by
    intro k
    rw [← UInt8.toNat_inj, UInt8.toNat_ofNat', UInt8.toNat_ofNat']
    omega
  induction count with
  | zero => simp [Nat.mod_one]
  | succ count ih =>
      have hplace : 0 < 256 ^ count := Nat.pow_pos (by decide)
      have hfirst : ∀ k, k % 256 ^ (count + 1) / 256 ^ count = k / 256 ^ count % 256 := by
        intro k
        rw [Nat.pow_succ, Nat.mod_mul_right_div_self]
      have hrest : ∀ k, k % 256 ^ (count + 1) % 256 ^ count = k % 256 ^ count := by
        intro k
        exact Nat.mod_mod_of_dvd k (Nat.pow_dvd_pow 256 (Nat.le_succ count))
      rw [List.range_succ, List.reverse_append, List.reverse_singleton, List.singleton_append, List.map_cons,
        List.map_cons, List.cons_append, List.cons_append, hbyte (m / _), hbyte (n / _),
        Utf8.compare_cons_ofNat (Nat.mod_lt _ (by decide)) (Nat.mod_lt _ (by decide)), ih,
        compare_eq_then (256 ^ count) (m % 256 ^ (count + 1)) (n % 256 ^ (count + 1)) hplace, hfirst, hfirst,
        hrest, hrest, Ordering.then_assoc]

namespace Key

-- Epochs are counted from the lowest timestamp, so that negative ones come first.
theorem compare_epochBytes (i j : Timestamp) (xs ys : Bytes) :
    compare (epochBytes i ++ xs) (epochBytes j ++ ys) = (compare i.toInt j.toInt).then (compare xs ys) := by
  have hcount : ∀ t : Timestamp, (t.toInt - Timestamp.lowest).toNat % Nat.pow 256 8
      = (t.toInt - Timestamp.lowest).toNat := by
    intro t
    have hhigh := Timestamp.toInt_le_highest t
    apply Nat.mod_eq_of_lt
    change _ < 256 ^ 8
    unfold Timestamp.lowest
    unfold Timestamp.highest at hhigh
    omega
  have hcompare : compare (i.toInt - Timestamp.lowest).toNat (j.toInt - Timestamp.lowest).toNat
      = compare i.toInt j.toInt := by
    have hi := Timestamp.lowest_le_toInt i
    have hj := Timestamp.lowest_le_toInt j
    rcases Int.lt_trichotomy i.toInt j.toInt with h | h | h
    · rw [Int.compare_eq_lt.mpr h, Nat.compare_eq_lt.mpr (by omega)]
    · rw [Int.compare_eq_eq.mpr h, Nat.compare_eq_eq.mpr (by omega)]
    · rw [Int.compare_eq_gt.mpr h, Nat.compare_eq_gt.mpr (by omega)]
  have hplaces := compare_places 8 (i.toInt - Timestamp.lowest).toNat (j.toInt - Timestamp.lowest).toNat xs ys
  rw [hcount, hcount, hcompare] at hplaces
  exact hplaces

-- The keys of one table are in the order of the epochs, and of the names where the epoch is the same.
theorem compare_ofItem (table : String) (i j : Timestamp) (m n : String) :
    compare (ofItem table i m) (ofItem table j n)
      = (compare i.toInt j.toInt).then (compare (Utf8.encode m) (Utf8.encode n)) := by
  have hstem : ∀ (item : Timestamp) (name : String), ofItem table item name
      = (version :: 2 :: (lengthBytes (Utf8.encode table).length ++ Utf8.encode table))
        ++ (epochBytes item ++ Utf8.encode name) := by
    intro item name
    simp [ofItem, itemStem]
  rw [hstem, hstem, Utf8.compare_append_left, compare_epochBytes]

-- Between the items of two names there are those of the same table and the same epoch with a name between.
theorem between_ofItem_iff {t u : String} (ht : Short t) (hu : Short u) (i j : Timestamp) (a b n : String) :
    (compare (ofItem t i a) (ofItem u j n)).isLE ∧ (compare (ofItem u j n) (ofItem t i b)).isLE
      ↔ u = t ∧ j = i ∧ a ≤ n ∧ n ≤ b := by
  constructor
  · rintro ⟨hlow, hhigh⟩
    obtain ⟨rest, hkey⟩ := Bytes.exists_append_of_between hlow hhigh
    obtain ⟨rfl, rfl, -⟩ := itemStem_injective hu ht hkey
    exact ⟨rfl, rfl, (isLE_compare_ofItem_iff u j a n).mp hlow, (isLE_compare_ofItem_iff u j n b).mp hhigh⟩
  · rintro ⟨rfl, rfl, hlow, hhigh⟩
    exact ⟨(isLE_compare_ofItem_iff u j a n).mpr hlow, (isLE_compare_ofItem_iff u j n b).mpr hhigh⟩

-- Keys tell records apart and sort the items of a table. A range between two items of a table and an epoch
-- has only keys with what these begin with, and the stored items in it are those with a name between.
theorem keys_ordered {t u : String} (ht : Short t) (hu : Short u) :
    (∀ i j m n, ofItem t i m = ofItem u j n ↔ t = u ∧ i = j ∧ m = n) ∧
    (∀ table item name, ofTable table ≠ ofItem t item name) ∧
    (∀ i j m n, compare (ofItem t i m) (ofItem t j n)
      = (compare i.toInt j.toInt).then (compare (Utf8.encode m) (Utf8.encode n))) ∧
    (∀ item a b key, (compare (ofItem t item a) key).isLE → (compare key (ofItem t item b)).isLE →
      itemStem t item <+: key) ∧
    ∀ (db : Database) i j a b n value,
      (ofItem u j n, value) ∈ db.scan (.included (ofItem t i a)) (.included (ofItem t i b))
        ↔ db.get? (ofItem u j n) = some value ∧ u = t ∧ j = i ∧ a ≤ n ∧ n ≤ b := by
  refine ⟨fun i j m n => ⟨ofItem_injective ht hu, ?_⟩, fun table => ofTable_ne_ofItem table t,
    compare_ofItem t, fun item a b key hlow hhigh => ?_, fun db i j a b n value => ?_⟩
  · rintro ⟨rfl, rfl, rfl⟩
    rfl
  · obtain ⟨rest, rfl⟩ := Bytes.exists_append_of_between hlow hhigh
    exact List.prefix_append _ _
  · rw [Keyed.mem_scan_included, between_ofItem_iff ht hu]

-- Two tables of which one's name begins with the other's, and epochs on both sides of zero.
theorem keys_ordered_signs :
    let db := (Database.empty none).put (ofItem "t" (-3600) "b", [1])
    (Short "t" ∧ Short "tä") ∧
      ofItem "t" 0 "m" ≠ ofItem "tä" 0 "m" ∧ ofTable "tä" ≠ ofItem "t" 0 "m" ∧
      compare (ofItem "t" (-3600) "ß") (ofItem "t" 0 "a") = .lt ∧
      ((compare (ofItem "t" (-3600) "a") (ofItem "t" (-3600) "b")).isLE ∧
        (compare (ofItem "t" (-3600) "b") (ofItem "t" (-3600) "ß")).isLE ∧
        itemStem "t" (-3600) <+: ofItem "t" (-3600) "b") ∧
      (ofItem "t" (-3600) "b", [1])
        ∈ db.scan (.included (ofItem "t" (-3600) "a")) (.included (ofItem "t" (-3600) "ß")) := by
  intro db
  have ht : Short "t" := by decide
  have hu : Short "tä" := by decide
  obtain ⟨hsame, hmarker, horder, -, -⟩ := keys_ordered ht hu
  obtain ⟨-, -, -, hstem, hscan⟩ := keys_ordered ht ht
  have hlow : (compare (ofItem "t" (-3600) "a") (ofItem "t" (-3600) "b")).isLE := by decide
  have hhigh : (compare (ofItem "t" (-3600) "b") (ofItem "t" (-3600) "ß")).isLE := by decide
  have hstored : db.get? (ofItem "t" (-3600) "b") = some [1] := by rw [Keyed.get?_put, if_pos rfl]
  refine ⟨⟨ht, hu⟩, fun h => ?_, hmarker "tä" 0 "m", ?_, ⟨hlow, hhigh, hstem _ _ _ _ hlow hhigh⟩, ?_⟩
  · exact absurd ((hsame 0 0 "m" "m").mp h).1 (by decide)
  · rw [horder]
    decide
  · exact (hscan db (-3600) (-3600) "a" "ß" "b" [1]).mpr ⟨hstored, rfl, rfl, by decide, by decide⟩

end Key

end Cadence
