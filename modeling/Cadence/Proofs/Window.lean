import Cadence.Proofs.Outcome
import Cadence.Proofs.Tier
import Cadence.Window

namespace Cadence.Window

def partitionOf (w : Window) (tablePrefix : String) (t : Timestamp) : Partition :=
  ⟨w.tier.tableName tablePrefix (w.tier.tableEpoch t), w.tier.itemEpoch t⟩

theorem lt_itemCount_iff (w : Window) (k : Int) :
    k < w.itemCount ↔ w.firstItem + k * w.tier.itemWidth < w.stop.toInt := by
  rw [itemCount, ← Int.add_one_le_iff, Int.le_ediv_iff_mul_le w.tier.itemWidth_pos, Int.add_mul]
  omega

theorem itemWidth_dvd_firstItem (w : Window) : w.tier.itemWidth ∣ w.firstItem :=
  Int.dvd_self_sub_emod

-- The items begin at the multiples of the width from the first one up to the stop.
theorem mem_items_iff (w : Window) (i : Int) :
    i ∈ w.items ↔ w.start.toInt < w.stop.toInt ∧ w.firstItem ≤ i ∧ i < w.stop.toInt ∧
      w.tier.itemWidth ∣ i := by
  by_cases hempty : w.stop.toInt ≤ w.start.toInt
  · simp only [items, if_pos hempty, List.not_mem_nil, false_iff]
    omega
  · simp only [items, if_neg hempty, List.mem_map, List.mem_range]
    have hwidth := w.tier.itemWidth_pos
    constructor
    · rintro ⟨k, hk, rfl⟩
      have hbefore := (w.lt_itemCount_iff k).mp (by omega)
      have hk0 := Int.mul_nonneg (Int.natCast_nonneg k) (Int.le_of_lt hwidth)
      exact ⟨by omega, by omega, hbefore,
        Int.dvd_add w.itemWidth_dvd_firstItem (Int.dvd_mul_left _ _)⟩
    · rintro ⟨-, hfirst, hstop, hdvd⟩
      obtain ⟨q, hq⟩ := Int.dvd_sub hdvd w.itemWidth_dvd_firstItem
      have hq0 : 0 ≤ q := by
        apply Int.le_of_not_gt
        intro hneg
        have := Int.mul_neg_of_pos_of_neg hwidth hneg
        omega
      have hi : w.firstItem + q * w.tier.itemWidth = i := by
        rw [Int.mul_comm, ← hq]
        omega
      have hcount := (w.lt_itemCount_iff q).mpr (by omega)
      exact ⟨q.toNat, by omega, by rw [Int.toNat_of_nonneg hq0, hi]⟩

theorem partitionAt_eq_ok {tier : Tier} {tablePrefix : String} {item : Int} {p : Partition}
    (h : partitionAt tier tablePrefix item = .ok p) :
    p.item.toInt = item ∧ p.table = tier.tableName tablePrefix (tier.tableEpoch p.item) := by
  unfold partitionAt at h
  split at h
  · rename_i table epoch htable hitem
    cases h
    rw [Timestamp.ofInt?_eq_some_iff] at htable hitem
    refine ⟨hitem, ?_⟩
    have hepoch : table = tier.tableEpoch epoch := by
      apply Int64.toInt_inj.mp
      have hlow := Timestamp.lowest_le_toInt table
      rw [Tier.tableEpoch, Timestamp.toInt_floor _ tier.tableWidth_pos, floorTo, hitem, ← htable]
      omega
    rw [hepoch]
  · cases h

variable {w : Window} {tablePrefix : String} {partitions : List Partition}

theorem partitions_eq_ok (h : w.partitions tablePrefix = .ok partitions) :
    w.check = .ok () ∧ w.items.mapM (partitionAt w.tier tablePrefix) = .ok partitions := by
  unfold Window.partitions at h
  split at h
  · cases h
  · rename_i hcheck
    exact ⟨hcheck, h⟩

theorem mem_partitions_iff (h : w.partitions tablePrefix = .ok partitions) (p : Partition) :
    p ∈ partitions ↔ p.item.toInt ∈ w.items ∧
      p.table = w.tier.tableName tablePrefix (w.tier.tableEpoch p.item) := by
  have hmem := mem_iff_of_mapM (partitions_eq_ok h).2
  constructor
  · intro hp
    obtain ⟨item, hitem, hat⟩ := (hmem p).mp hp
    obtain ⟨rfl, htable⟩ := partitionAt_eq_ok hat
    exact ⟨hitem, htable⟩
  · rintro ⟨hitem, htable⟩
    have hall := (mapM_eq_ok_iff _ _ _).mp (partitions_eq_ok h).2
    have hok : partitionAt w.tier tablePrefix p.item.toInt ∈ partitions.map .ok :=
      hall ▸ List.mem_map_of_mem hitem
    obtain ⟨q, hq, hat⟩ := List.mem_map.mp hok
    obtain ⟨hqitem, hqtable⟩ := partitionAt_eq_ok hat.symm
    have hsame : q.item = p.item := Int64.toInt_inj.mp hqitem
    have hqp : q = p := by
      cases q
      cases p
      simp_all
    exact hqp ▸ hq

theorem lowest_le_firstItem (h : w.partitions tablePrefix = .ok partitions)
    (hlt : w.start.toInt < w.stop.toInt) : Timestamp.lowest ≤ w.firstItem := by
  have hcheck := (partitions_eq_ok h).1
  unfold check at hcheck
  split at hcheck
  · omega
  · split at hcheck
    · cases hcheck
    · split at hcheck
      · cases hcheck
      · omega

-- The partition of an instant in a window is read exactly when it begins before the stop.
theorem partitionOf_mem_iff (h : w.partitions tablePrefix = .ok partitions) {t : Timestamp}
    (hstart : w.start ≤ t) (hstop : t ≤ w.stop) :
    w.partitionOf tablePrefix t ∈ partitions
      ↔ w.start < w.stop ∧ (t < w.stop ∨ ¬w.tier.itemWidth ∣ w.stop.toInt) := by
  rw [mem_partitions_iff h, mem_items_iff]
  simp only [partitionOf, Tier.tableEpoch_itemEpoch, and_true]
  rw [Int64.le_iff_toInt_le] at hstart hstop
  rw [Int64.lt_iff_toInt_lt, Int64.lt_iff_toInt_lt]
  refine and_congr_right fun hlt => ?_
  have hwidth := w.tier.itemWidth_pos
  have hfirst := lowest_le_firstItem h hlt
  have hmod := Int.emod_nonneg t.toInt (Int.ne_of_gt hwidth)
  have hmono : w.firstItem ≤ t.toInt - t.toInt % w.tier.itemWidth := by
    have hdiv := Int.mul_le_mul_of_nonneg_left (Int.ediv_le_ediv hwidth hstart)
      (Int.le_of_lt hwidth)
    have hs := Int.emod_add_mul_ediv w.start.toInt w.tier.itemWidth
    have ht := Int.emod_add_mul_ediv t.toInt w.tier.itemWidth
    unfold firstItem
    omega
  have hepoch : (w.tier.itemEpoch t).toInt = t.toInt - t.toInt % w.tier.itemWidth := by
    rw [Tier.itemEpoch, Timestamp.toInt_floor _ hwidth, floorTo]
    omega
  have hmultiple : w.tier.itemWidth ∣ w.stop.toInt ↔ w.stop.toInt % w.tier.itemWidth = 0 :=
    Int.dvd_iff_emod_eq_zero
  rw [hepoch, hmultiple]
  have hdvd : w.tier.itemWidth ∣ t.toInt - t.toInt % w.tier.itemWidth := Int.dvd_self_sub_emod
  constructor
  · rintro ⟨-, hbefore, -⟩
    by_cases hlast : t.toInt < w.stop.toInt
    · exact .inl hlast
    · have heq : t.toInt = w.stop.toInt := by omega
      rw [← heq]
      exact .inr (by omega)
  · intro hcase
    refine ⟨hmono, ?_, hdvd⟩
    rcases hcase with hlast | hmid
    · omega
    · by_cases hlast : t.toInt < w.stop.toInt
      · omega
      · have heq : t.toInt = w.stop.toInt := by omega
        rw [← heq] at hmid ⊢
        omega

end Cadence.Window
