import Cadence.Text.Utf8
import Mathlib.Data.List.Induction

namespace Cadence

namespace Bytes

-- The number that bytes make up, the most significant first.
def number (bytes : Bytes) : Nat := bytes.foldl (fun n b => n * 256 + b.toNat) 0

-- So many of a number's lowest places, a byte each.
def places (count n : Nat) : Bytes :=
  (List.range count).reverse.map fun place => UInt8.ofNat (n / Nat.pow 256 place)

theorem number_append_singleton (bytes : Bytes) (b : UInt8) :
    number (bytes ++ [b]) = number bytes * 256 + b.toNat := by
  simp [number]

-- The last place is the remainder by 256; those before it are the places of the quotient.
theorem places_succ (count n : Nat) :
    places (count + 1) n = places count (n / 256) ++ [UInt8.ofNat n] := by
  have hplace : ∀ place, n / Nat.pow 256 (place + 1) = n / 256 / Nat.pow 256 place := by
    intro place
    rw [Nat.div_div_eq_div_mul, Nat.mul_comm]
    rfl
  have hlast : n / Nat.pow 256 0 = n := Nat.div_one n
  simp only [places, List.range_succ_eq_map, List.reverse_cons, List.map_append, List.map_singleton,
    ← List.map_reverse, List.map_map, Function.comp_def, Nat.succ_eq_add_one, hplace, hlast]

theorem number_places (count : Nat) {n : Nat} (hn : n < Nat.pow 256 count) :
    number (places count n) = n := by
  induction count generalizing n with
  | zero =>
      have hzero : n = 0 := Nat.lt_one_iff.mp hn
      rw [hzero]
      rfl
  | succ count ih =>
      have hrest : n / 256 < Nat.pow 256 count :=
        Nat.div_lt_of_lt_mul (by rw [Nat.mul_comm]; exact hn)
      rw [places_succ, number_append_singleton, ih hrest, UInt8.toNat_ofNat']
      exact Nat.div_add_mod' n 256

-- Bytes are recovered from their number and how many they are, with zeros in front.
theorem places_number (bytes : Bytes) : places bytes.length (number bytes) = bytes := by
  -- from the last byte, as a number gives up its lowest place first
  induction bytes using List.reverseRecOn with
  | nil => rfl
  | append_singleton bytes b ih =>
      have hb := b.toNat_lt
      have hrest : (number bytes * 256 + b.toNat) / 256 = number bytes := by omega
      have hlast : UInt8.ofNat (number bytes * 256 + b.toNat) = b := by
        rw [← UInt8.toNat_inj, UInt8.toNat_ofNat']
        omega
      rw [List.length_append, List.length_singleton, places_succ, number_append_singleton, hrest, ih,
        hlast]

theorem number_lt (bytes : Bytes) : number bytes < Nat.pow 256 bytes.length := by
  induction bytes using List.reverseRecOn with
  | nil => decide
  | append_singleton bytes b ih =>
      have hb := b.toNat_lt
      rw [number_append_singleton, List.length_append, List.length_singleton]
      change _ < Nat.pow 256 bytes.length * 256
      omega

theorem number_append (xs ys : Bytes) :
    number (xs ++ ys) = number xs * Nat.pow 256 ys.length + number ys := by
  induction ys using List.reverseRecOn with
  | nil => simp [number]
  | append_singleton ys b ih =>
      rw [← List.append_assoc, number_append_singleton, ih, number_append_singleton, List.length_append,
        List.length_singleton, Nat.add_mul, Nat.mul_assoc, Nat.add_assoc]
      rfl

theorem lesser_isLE (a b : Bytes) :
    ∃ m, (if (compare a b).isLE then a else b) = m ∧ (m = a ∨ m = b) ∧
      (compare m a).isLE ∧ (compare m b).isLE := by
  by_cases h : (compare a b).isLE
  · exact ⟨a, if_pos h, .inl rfl, Std.ReflCmp.isLE_rfl, h⟩
  · have hlt : compare b a = .lt := Std.OrientedCmp.lt_of_not_isLE h
    exact ⟨b, if_neg h, .inr rfl, by simp [hlt], Std.ReflCmp.isLE_rfl⟩

theorem greater_isLE (a b : Bytes) :
    ∃ m, (if (compare b a).isLE then a else b) = m ∧ (m = a ∨ m = b) ∧
      (compare a m).isLE ∧ (compare b m).isLE := by
  by_cases h : (compare b a).isLE
  · exact ⟨a, if_pos h, .inl rfl, Std.ReflCmp.isLE_rfl, h⟩
  · have hlt : compare a b = .lt := Std.OrientedCmp.lt_of_not_isLE h
    exact ⟨b, if_neg h, .inr rfl, by simp [hlt], Std.ReflCmp.isLE_rfl⟩

-- What lies between two continuations of a stem continues it as well.
theorem exists_append_of_between {stem low high key : Bytes}
    (hlow : (compare (stem ++ low) key).isLE) (hhigh : (compare key (stem ++ high)).isLE) :
    ∃ rest, key = stem ++ rest := by
  induction stem generalizing key with
  | nil => exact ⟨key, rfl⟩
  | cons b stem ih =>
      cases key with
      | nil => simp [List.compare_cons_nil] at hlow
      | cons c key =>
          rw [List.cons_append, List.compare_cons_cons, Ordering.isLE_then_iff_and] at hlow hhigh
          have heq : compare b c = .eq := Std.OrientedCmp.isLE_antisymm hlow.1 hhigh.1
          have hbc : b = c := Std.LawfulEqCmp.compare_eq_iff_eq.mp heq
          subst hbc
          obtain ⟨rest, rfl⟩ := ih (by simpa using hlow.2) (by simpa using hhigh.2)
          exact ⟨rest, rfl⟩

end Bytes

end Cadence
