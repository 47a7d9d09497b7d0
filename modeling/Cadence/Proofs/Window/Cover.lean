import Mathlib.Data.Set.Card
import Mathlib.Data.List.Chain
import Mathlib.Data.Int.Basic
import Cadence.Proofs.Store.Write
import Cadence.Proofs.Window.Admission
import Cadence.Proofs.Window.Words

namespace Cadence.Window

-- Whether an item of the window's tier holds an instant of the window. The item may begin below every
-- timestamp.
structure Meets (w : Window) (item : Int) : Prop where
  aligned : w.tier.itemWidth ∣ item
  shared : ∃ t : Timestamp, w.start ≤ t ∧ t < w.stop ∧
    item ≤ t.toInt ∧ t.toInt < item + w.tier.itemWidth

def Holds (w : Window) (p : Partition) (t : Timestamp) : Prop :=
  p.item ≤ t ∧ t.toInt < p.item.toInt + w.tier.itemWidth

-- Partitions that lie side by side and hold a window between them.
structure Tiles (w : Window) (tablePrefix : String) (partitions : List Partition) : Prop where
  ascending : partitions.Pairwise (·.item < ·.item)
  adjacent : partitions.IsChain fun p q => q.item.toInt - p.item.toInt = w.tier.itemWidth
  first : ∀ p, partitions.head? = some p →
    IsGreatest {i : Int | w.tier.itemWidth ∣ i ∧ i ≤ w.start.toInt} p.item.toInt
  last : ∀ p, partitions.getLast? = some p →
    p.item < w.stop ∧ w.stop.toInt ≤ p.item.toInt + w.tier.itemWidth
  -- an instant lies in one partition, that of its item and its table
  holds : ∀ t, w.start ≤ t → t < w.stop → ∀ p,
    p ∈ partitions ∧ w.Holds p t ↔ p = w.partitionOf tablePrefix t
  meets : ∀ p ∈ partitions, ∃ t, w.start ≤ t ∧ t < w.stop ∧ w.Holds p t
  nonempty : 1 ≤ partitions.length
  few : partitions.length ≤ maxPartitions

variable {w : Window} {tablePrefix : String} {partitions : List Partition}

theorem firstItem_le (w : Window) : w.firstItem ≤ w.start.toInt := by
  have := Int.emod_nonneg w.start.toInt (Int.ne_of_gt w.tier.itemWidth_pos)
  unfold firstItem
  omega

theorem start_lt_firstItem_add (w : Window) : w.start.toInt < w.firstItem + w.tier.itemWidth := by
  have := Int.emod_lt_of_pos w.start.toInt w.tier.itemWidth_pos
  unfold firstItem
  omega

theorem sub_emod_eq_iff {t item width : Int} (hwidth : 0 < width) (hdvd : width ∣ item) :
    t - t % width = item ↔ item ≤ t ∧ t < item + width := by
  have hlow := Int.emod_nonneg t (Int.ne_of_gt hwidth)
  have hlt := Int.emod_lt_of_pos t hwidth
  constructor
  · rintro rfl
    omega
  · rintro ⟨hfrom, hto⟩
    have hdown := sub_emod_le_sub_emod hwidth hfrom
    rw [Int.emod_eq_zero_of_dvd hdvd, Int.sub_zero] at hdown
    have hrest : width ∣ t - t % width - item := Int.dvd_sub Int.dvd_self_sub_emod hdvd
    have hzero := Int.eq_zero_of_dvd_of_nonneg_of_lt (by omega) (by omega) hrest
    omega

theorem meets_iff (hlt : w.start.toInt < w.stop.toInt) (item : Int) :
    w.Meets item ↔ item ∈ w.items := by
  have hwidth := w.tier.itemWidth_pos
  rw [mem_items_iff]
  constructor
  · rintro ⟨hdvd, t, hstart, hstop, hfrom, hto⟩
    rw [Int64.le_iff_toInt_le] at hstart
    rw [Int64.lt_iff_toInt_lt] at hstop
    have hfirst := sub_emod_le_sub_emod hwidth hstart
    rw [(sub_emod_eq_iff hwidth hdvd).mpr ⟨hfrom, hto⟩] at hfirst
    exact ⟨hlt, hfirst, by omega, hdvd⟩
  · rintro ⟨-, hfirst, hstop, hdvd⟩
    have hafter := w.start_lt_firstItem_add
    refine ⟨hdvd, ?_⟩
    by_cases hbefore : item ≤ w.start.toInt
    · exact ⟨w.start, Int64.le_refl _, Int64.lt_iff_toInt_lt.mpr hlt, hbefore, by omega⟩
    · -- the item begins in the window, so its beginning is a timestamp
      have hlow := Timestamp.lowest_le_toInt w.start
      have hhigh := Timestamp.toInt_le_highest w.stop
      have hitem : (Timestamp.clamp item).toInt = item := by
        rw [Timestamp.toInt_clamp]
        omega
      refine ⟨Timestamp.clamp item, ?_, ?_, by omega, by omega⟩
      · rw [Int64.le_iff_toInt_le]
        omega
      · rw [Int64.lt_iff_toInt_lt]
        omega

theorem itemCount_pos (hlt : w.start.toInt < w.stop.toInt) : 0 < w.itemCount := by
  have := w.firstItem_le
  rw [lt_itemCount_iff]
  omega

theorem pairwise_items (w : Window) : w.items.Pairwise (· < ·) := by
  unfold items
  split
  · exact .nil
  · rw [List.pairwise_map]
    refine List.pairwise_lt_range.imp fun {j k} hjk => ?_
    have := Int.mul_lt_mul_of_pos_right (Int.ofNat_lt.mpr hjk) w.tier.itemWidth_pos
    omega

theorem length_items (hlt : w.start.toInt < w.stop.toInt) : (w.items.length : Int) = w.itemCount := by
  have := itemCount_pos hlt
  rw [items, if_neg (Int.not_le.mpr hlt), List.length_map, List.length_range]
  omega

theorem ncard_meets (hlt : w.start.toInt < w.stop.toInt) :
    ({item | w.Meets item}.ncard : Int) = w.itemCount := by
  have hset : {item | w.Meets item} = (w.items.toFinset : Set Int) := by
    ext item
    simp [meets_iff hlt]
  rw [hset, Set.ncard_coe_finset,
    List.toFinset_card_of_nodup (w.pairwise_items.imp Int.ne_of_lt), length_items hlt]

theorem map_item_partitions (h : w.partitions tablePrefix = .ok partitions) :
    partitions.map (·.item.toInt) = w.items :=
  map_eq_of_mapM (fun _ _ hat => (partitionAt_eq_ok hat).1) (partitions_eq_ok h).2

theorem isChain_items (w : Window) : w.items.IsChain fun i j => j - i = w.tier.itemWidth := by
  unfold items
  split
  · exact .nil
  · rw [List.isChain_map, List.isChain_range]
    intro k _
    rw [Nat.succ_eq_add_one, Int.natCast_succ, Int.add_mul]
    omega

theorem head?_items (hlt : w.start.toInt < w.stop.toInt) : w.items.head? = some w.firstItem := by
  have hsome : w.itemCount.toNat ≠ 0 := by
    have := itemCount_pos hlt
    omega
  rw [items, if_neg (Int.not_le.mpr hlt), List.head?_map, List.head?_range, if_neg hsome]
  simp

theorem getLast?_items (hlt : w.start.toInt < w.stop.toInt) :
    w.items.getLast? = some (w.firstItem + (w.itemCount - 1) * w.tier.itemWidth) := by
  have hpos := itemCount_pos hlt
  have hsome : w.itemCount.toNat ≠ 0 := by omega
  have hlast : ((w.itemCount.toNat - 1 : Nat) : Int) = w.itemCount - 1 := by omega
  rw [items, if_neg (Int.not_le.mpr hlt), List.getLast?_map, List.getLast?_range, if_neg hsome,
    Option.map_some, hlast]

theorem isGreatest_firstItem (w : Window) :
    IsGreatest {i : Int | w.tier.itemWidth ∣ i ∧ i ≤ w.start.toInt} w.firstItem :=
  isGreatest_sub_emod w.start.toInt w.tier.itemWidth_pos

theorem itemCount_le_of_check (hlt : w.start.toInt < w.stop.toInt) (h : w.check = .ok ()) :
    w.itemCount ≤ maxPartitions := by
  unfold check at h
  rw [if_neg (Int.not_le.mpr hlt)] at h
  split at h
  · cases h
  · exact Int.not_lt.mp ‹_›

-- An instant of a window lies in its own partition, and in no other of the window.
theorem mem_and_holds_iff (h : w.partitions tablePrefix = .ok partitions) {t : Timestamp}
    (hstart : w.start ≤ t) (hstop : t < w.stop) (p : Partition) :
    p ∈ partitions ∧ w.Holds p t ↔ p = w.partitionOf tablePrefix t := by
  have hwidth := w.tier.itemWidth_pos
  have hlt : w.start < w.stop := Int64.lt_of_le_of_lt hstart hstop
  have hown := (partitionOf_mem_iff h hstart (Int64.le_of_lt hstop)).mpr ⟨hlt, .inl hstop⟩
  have hrange : Timestamp.lowest ≤ t.toInt - t.toInt % w.tier.itemWidth := by
    have hfirst := lowest_le_firstItem h (Int64.lt_iff_toInt_lt.mp hlt)
    have hmono := sub_emod_le_sub_emod hwidth (Int64.le_iff_toInt_le.mp hstart)
    unfold firstItem at hfirst
    omega
  have hepoch : (w.tier.itemEpoch t).toInt = t.toInt - t.toInt % w.tier.itemWidth := by
    rw [Tier.itemEpoch, Timestamp.toInt_floor _ hwidth, floorTo]
    omega
  have hdvd : w.tier.itemWidth ∣ (w.tier.itemEpoch t).toInt := hepoch ▸ Int.dvd_self_sub_emod
  constructor
  · rintro ⟨hp, hfrom, hto⟩
    obtain ⟨hitem, htable⟩ := (mem_partitions_iff h p).mp hp
    have hitemdvd := ((w.mem_items_iff _).mp hitem).2.2.2
    have heq : p.item = w.tier.itemEpoch t := by
      apply Int64.toInt_inj.mp
      rw [hepoch]
      exact ((sub_emod_eq_iff hwidth hitemdvd).mpr ⟨Int64.le_iff_toInt_le.mp hfrom, hto⟩).symm
    cases p
    simp only at heq htable
    rw [htable, heq, Tier.tableEpoch_itemEpoch]
    rfl
  · rintro rfl
    obtain ⟨hfrom, hto⟩ := (sub_emod_eq_iff hwidth hdvd).mp hepoch.symm
    exact ⟨hown, Int64.le_iff_toInt_le.mpr hfrom, hto⟩

theorem tiles_of_partitions (hlt : w.start < w.stop)
    (h : w.partitions tablePrefix = .ok partitions) : w.Tiles tablePrefix partitions := by
  have hlt := Int64.lt_iff_toInt_lt.mp hlt
  have hitems := map_item_partitions h
  have hpos := itemCount_pos hlt
  have hlength : (partitions.length : Int) = w.itemCount := by
    rw [← length_items hlt, ← hitems, List.length_map]
  have hcount := itemCount_le_of_check hlt (partitions_eq_ok h).1
  refine ⟨?_, ?_, ?_, ?_, ?_, ?_, by omega, by omega⟩
  · have hpairwise := w.pairwise_items
    rw [← hitems, List.pairwise_map] at hpairwise
    exact hpairwise.imp Int64.lt_iff_toInt_lt.mpr
  · have hchain := w.isChain_items
    rwa [← hitems, List.isChain_map] at hchain
  · intro p hp
    have hhead := head?_items hlt
    rw [← hitems, List.head?_map, hp] at hhead
    have hitem : p.item.toInt = w.firstItem := Option.some.inj hhead
    rw [hitem]
    exact w.isGreatest_firstItem
  · intro p hp
    have hlast := getLast?_items hlt
    rw [← hitems, List.getLast?_map, hp] at hlast
    have hitem : p.item.toInt = w.firstItem + (w.itemCount - 1) * w.tier.itemWidth :=
      Option.some.inj hlast
    have hbefore := (w.lt_itemCount_iff (w.itemCount - 1)).mp (by omega)
    have hafter := (not_congr (w.lt_itemCount_iff w.itemCount)).mp (Int.lt_irrefl _)
    rw [Int.sub_mul] at hitem hbefore
    rw [Int64.lt_iff_toInt_lt]
    omega
  · exact fun t hstart hstop p => mem_and_holds_iff h hstart hstop p
  · intro p hp
    obtain ⟨-, t, hstart, hstop, hfrom, hto⟩ :=
      (meets_iff hlt p.item.toInt).mpr ((mem_partitions_iff h p).mp hp).1
    exact ⟨t, hstart, hstop, Int64.le_iff_toInt_le.mpr hfrom, hto⟩

theorem partitions_eq_tooLarge_iff (hlt : w.start.toInt < w.stop.toInt) (tablePrefix : String)
    (k : Int) : w.partitions tablePrefix = .error (.tooLarge k)
      ↔ w.itemCount = k ∧ maxPartitions < w.itemCount := by
  have hcheck : w.check = if maxPartitions < w.itemCount then .error (.tooLarge w.itemCount)
      else if w.firstItem < Timestamp.lowest then .error .outOfRange else .ok () :=
    if_neg (Int.not_le.mpr hlt)
  constructor
  · intro h
    rw [Window.partitions, hcheck] at h
    by_cases hlarge : maxPartitions < w.itemCount
    · rw [if_pos hlarge] at h
      cases h
      exact ⟨rfl, hlarge⟩
    · rw [if_neg hlarge] at h
      split at h
      · rename_i herror
        split at herror <;> cases herror
        cases h
      · obtain ⟨item, -, hat⟩ := exists_of_mapM_error h
        cases partitionAt_eq_error hat
  · rintro ⟨rfl, hlarge⟩
    rw [Window.partitions, hcheck, if_pos hlarge]

-- Within the limit, a window is refused for an item or a table that begins below every timestamp.
theorem partitions_eq_outOfRange_iff (hlt : w.start.toInt < w.stop.toInt) (tablePrefix : String) :
    w.partitions tablePrefix = .error .outOfRange ↔ w.itemCount ≤ maxPartitions ∧
      ∃ i ∈ w.items, i < Timestamp.lowest ∨ i - i % w.tier.tableWidth < Timestamp.lowest := by
  constructor
  · intro h
    have hfew : w.itemCount ≤ maxPartitions := by
      apply Int.le_of_not_gt
      intro hlarge
      rw [(partitions_eq_tooLarge_iff hlt tablePrefix _).mpr ⟨rfl, hlarge⟩] at h
      cases h
    refine ⟨hfew, ?_⟩
    have hfirst : w.firstItem ∈ w.items := List.mem_of_head? (head?_items hlt)
    cases hall : w.items.mapM (partitionAt w.tier tablePrefix) with
    | ok partitions =>
        -- the check alone has refused the window
        refine ⟨_, hfirst, .inl ?_⟩
        apply Int.lt_of_not_ge
        intro hrange
        rw [Window.partitions, check, if_neg (Int.not_le.mpr hlt), if_neg (Int.not_lt.mpr hfew),
          if_neg (Int.not_lt.mpr hrange), hall] at h
        cases h
    | error e =>
        obtain ⟨i, hi, hat⟩ := exists_of_mapM_error hall
        refine ⟨i, hi, .inr ?_⟩
        apply Int.lt_of_not_ge
        intro hrange
        have hhigh := Timestamp.toInt_le_highest w.stop
        have hstop := ((w.mem_items_iff i).mp hi).2.2.1
        have hitem : i ≤ Timestamp.highest := by omega
        obtain ⟨p, hp⟩ := partitionAt_ok tablePrefix hrange hitem
        rw [hp] at hat
        cases hat
  · rintro ⟨hfew, i, hi, hbelow⟩
    have hmod := Int.emod_nonneg i (Int.ne_of_gt w.tier.tableWidth_pos)
    have hat : partitionAt w.tier tablePrefix i = .error .outOfRange :=
      partitionAt_error tablePrefix (by omega)
    cases h : w.partitions tablePrefix with
    | ok partitions =>
        have hok := (mapM_eq_ok_iff _ _ _).mp (partitions_eq_ok h).2
        have hin := List.mem_map_of_mem (f := partitionAt w.tier tablePrefix) hi
        rw [hok, hat] at hin
        simp at hin
    | error e =>
        cases e with
        | outOfRange => rfl
        | tooLarge k =>
            have hlarge := ((partitions_eq_tooLarge_iff hlt tablePrefix k).mp h).2
            omega

-- A put holds instants of its own item and table only.
theorem partition_of_put {samples : List Sample} {put : ItemPut}
    (hput : put ∈ Metric.tierPuts tablePrefix samples w.tier) {s : Sample} (hs : s ∈ put.samples) :
    (⟨put.table, put.item⟩ : Partition) = w.partitionOf tablePrefix s.time := by
  obtain ⟨item, -, rfl⟩ := List.mem_map.mp hput
  have hitem : w.tier.itemEpoch s.time = item := by simpa using (List.mem_filter.mp hs).2
  simp only [partitionOf, ← hitem, Tier.tableEpoch_itemEpoch]

-- Every sample is put at its slot, into the partition of its own instant.
theorem exists_put {samples : List Sample} {s : Sample} (hs : s ∈ samples) :
    ∃ put ∈ Metric.tierPuts tablePrefix samples w.tier,
      { s with time := w.tier.slot s.time } ∈ put.samples ∧
      (⟨put.table, put.item⟩ : Partition) = w.partitionOf tablePrefix s.time := by
  have hslotted : { s with time := w.tier.slot s.time } ∈ Metric.slotted w.tier samples :=
    List.mem_map_of_mem hs
  have hepoch := (Metric.mem_itemEpochs w.tier _ _).mpr ⟨_, hslotted, rfl⟩
  have hput := List.mem_map_of_mem (f := fun item => (⟨w.tier.tableName tablePrefix
    (w.tier.tableEpoch item), item, (Metric.slotted w.tier samples).filter fun s =>
      w.tier.itemEpoch s.time = item⟩ : ItemPut)) hepoch
  have hmem : { s with time := w.tier.slot s.time } ∈ ((Metric.slotted w.tier samples).filter
      fun r => w.tier.itemEpoch r.time = w.tier.itemEpoch (w.tier.slot s.time)) :=
    List.mem_filter.mpr ⟨hslotted, by simp⟩
  refine ⟨_, hput, hmem, ?_⟩
  simp only [partitionOf, Tier.itemEpoch_slot, Tier.tableEpoch_itemEpoch]

-- The partitions of a window are those of its instants, side by side, and are the ones that these
-- instants are written to. A window has none when too many items meet it, or when one of them or its
-- table begins below every timestamp. No number on the way leaves its word.
theorem partitions_tile (w : Window) (tablePrefix : String) (hlt : w.start < w.stop) :
    (∀ partitions, w.partitions tablePrefix = .ok partitions → w.Tiles tablePrefix partitions) ∧
    (∀ k, w.partitions tablePrefix = .error (.tooLarge k)
      ↔ ({i | w.Meets i}.ncard : Int) = k ∧ maxPartitions < k) ∧
    (w.partitions tablePrefix = .error .outOfRange
      ↔ ({i | w.Meets i}.ncard : Int) ≤ maxPartitions ∧
        ∃ i, w.Meets i ∧ (i < Timestamp.lowest ∨ i - i % w.tier.tableWidth < Timestamp.lowest)) ∧
    w.partitionsInWords tablePrefix = some (w.partitions tablePrefix) ∧
    (∀ samples, ∀ s ∈ samples, ∃ put ∈ Metric.tierPuts tablePrefix samples w.tier,
      { s with time := w.tier.slot s.time } ∈ put.samples ∧
      (⟨put.table, put.item⟩ : Partition) = w.partitionOf tablePrefix s.time) ∧
    (∀ samples, ∀ put ∈ Metric.tierPuts tablePrefix samples w.tier, ∀ s ∈ put.samples,
      (⟨put.table, put.item⟩ : Partition) = w.partitionOf tablePrefix s.time) := by
  have hless := Int64.lt_iff_toInt_lt.mp hlt
  refine ⟨fun _ h => tiles_of_partitions hlt h, ?_, ?_, w.partitionsInWords_eq tablePrefix,
    fun _ _ hs => exists_put hs, fun _ _ hput _ hs => partition_of_put hput hs⟩
  · intro k
    rw [partitions_eq_tooLarge_iff hless, ncard_meets hless]
    exact and_congr_right fun hk => by rw [hk]
  · rw [partitions_eq_outOfRange_iff hless, ncard_meets hless]
    simp only [meets_iff hless]

-- The hours before and after zero lie in two tables, of which the first begins below zero.
theorem partitions_tile_zero :
    (⟨-1800, 1800⟩ : Window).start < (⟨-1800, 1800⟩ : Window).stop ∧
      (⟨-1800, 1800⟩ : Window).Tiles "p" [⟨"p-1m1h--86400", -3600⟩, ⟨"p-1m1h-0", 0⟩] := by
  have hlt : (⟨-1800, 1800⟩ : Window).start < (⟨-1800, 1800⟩ : Window).stop := by decide
  have hpartitions : (⟨-1800, 1800⟩ : Window).partitions "p"
      = .ok [⟨"p-1m1h--86400", -3600⟩, ⟨"p-1m1h-0", 0⟩] := rfl
  exact ⟨hlt, (partitions_tile ⟨-1800, 1800⟩ "p" hlt).1 _ hpartitions⟩

end Cadence.Window
