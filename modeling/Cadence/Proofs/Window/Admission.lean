import Cadence.Proofs.Window
import Cadence.Service

namespace Cadence.Window

-- The beginning of the table that holds the start. It may lie below every timestamp.
def firstTable (w : Window) : Int := w.start.toInt - w.start.toInt % w.tier.tableWidth

-- The first item begins at a timestamp, its table does not.
structure Overhangs (w : Window) : Prop where
  start_lt_stop : w.start.toInt < w.stop.toInt
  item : Timestamp.lowest ≤ w.firstItem
  table : w.firstTable < Timestamp.lowest

theorem firstItem_sub_emod (w : Window) :
    w.firstItem - w.firstItem % w.tier.tableWidth = w.firstTable := by
  have hitem := w.tier.itemWidth_pos
  have htable := w.tier.tableWidth_pos
  have hdown : w.firstItem - w.firstItem % w.tier.tableWidth ≤ w.firstTable := by
    have hmod := Int.emod_nonneg w.start.toInt (Int.ne_of_gt hitem)
    apply sub_emod_le_sub_emod htable
    unfold firstItem
    omega
  -- the table begins with an item, so the first item is not before it
  have hup : w.firstTable ≤ w.firstItem - w.firstItem % w.tier.tableWidth := by
    have hdvd : w.tier.tableWidth ∣ w.firstTable := Int.dvd_self_sub_emod
    have hstart : w.firstTable ≤ w.start.toInt := by
      have := Int.emod_nonneg w.start.toInt (Int.ne_of_gt htable)
      unfold firstTable
      omega
    have hfirst : w.firstTable ≤ w.firstItem := by
      have hround := sub_emod_le_sub_emod hitem hstart
      rw [Int.emod_eq_zero_of_dvd (Int.dvd_trans w.tier.itemWidth_dvd_tableWidth hdvd),
        Int.sub_zero] at hround
      exact hround
    have hround := sub_emod_le_sub_emod htable hfirst
    rw [Int.emod_eq_zero_of_dvd hdvd, Int.sub_zero] at hround
    exact hround
  omega

theorem partitionAt_ok {tier : Tier} {item : Int} (tablePrefix : String)
    (htable : Timestamp.lowest ≤ item - item % tier.tableWidth) (hitem : item ≤ Timestamp.highest) :
    ∃ p, partitionAt tier tablePrefix item = .ok p := by
  have hmod := Int.emod_nonneg item (Int.ne_of_gt tier.tableWidth_pos)
  have hepoch : Timestamp.ofInt? item = some (Int64.ofInt item) := if_pos (by omega)
  have htable : Timestamp.ofInt? (item - item % tier.tableWidth)
      = some (Int64.ofInt (item - item % tier.tableWidth)) := if_pos (by omega)
  exact ⟨_, by rw [partitionAt, hepoch, htable]⟩

theorem partitionAt_error {tier : Tier} {item : Int} (tablePrefix : String)
    (htable : item - item % tier.tableWidth < Timestamp.lowest) :
    partitionAt tier tablePrefix item = .error .outOfRange := by
  have hnone : Timestamp.ofInt? (item - item % tier.tableWidth) = none := if_neg (by omega)
  rw [partitionAt, hnone]

-- Only in the finest tier is an item shorter than its table.
theorem Overhangs.tier_eq {w : Window} (h : w.Overhangs) : w.tier = .minute := by
  have hitem := h.item
  have htable := h.table
  unfold firstItem at hitem
  unfold firstTable at htable
  cases htier : w.tier with
  | minute => rfl
  | fiveMinute | hour | day =>
      rw [htier] at hitem htable
      simp only [Tier.itemWidth] at hitem
      omega

-- In the finest tier no window is too large.
theorem Overhangs.check_eq {w : Window} (h : w.Overhangs) : w.check = .ok () := by
  have hlt := h.start_lt_stop
  have hitem := h.item
  have htier := h.tier_eq
  have hspan : w.stop.toInt - w.start.toInt < 86400 := by
    apply Int.lt_of_not_ge
    intro hlong
    unfold tier Tier.forSpan Tier.secondsPerDay at htier
    split at htier
    · cases htier
    · split at htier
      · cases htier
      · cases htier
  have hcount : ¬maxPartitions < w.itemCount := by
    rw [lt_itemCount_iff, firstItem, htier]
    simp only [maxPartitions, Tier.itemWidth]
    have := Int.emod_lt_of_pos w.start.toInt (b := 3600) (by decide)
    omega
  rw [check, if_neg (by omega), if_neg hcount, if_neg (by omega)]

theorem partitionAt_eq_error {tier : Tier} {tablePrefix : String} {item : Int} {e : WindowError}
    (h : partitionAt tier tablePrefix item = .error e) : e = .outOfRange := by
  unfold partitionAt at h
  split at h
  · cases h
  · cases h
    rfl

theorem Overhangs.partitions_eq {w : Window} (h : w.Overhangs) (tablePrefix : String) :
    w.partitions tablePrefix = .error .outOfRange := by
  have hlt := h.start_lt_stop
  have hfirst : partitionAt w.tier tablePrefix w.firstItem = .error .outOfRange := by
    apply partitionAt_error
    rw [firstItem_sub_emod]
    exact h.table
  have hmem : w.firstItem ∈ w.items := by
    have hmod := Int.emod_nonneg w.start.toInt (Int.ne_of_gt w.tier.itemWidth_pos)
    have hstop : w.firstItem < w.stop.toInt := by
      unfold firstItem
      omega
    exact (w.mem_items_iff _).mpr ⟨hlt, Int.le_refl _, hstop, w.itemWidth_dvd_firstItem⟩
  have hpartitions : w.partitions tablePrefix = w.items.mapM (partitionAt w.tier tablePrefix) := by
    rw [Window.partitions, h.check_eq]
  rw [hpartitions]
  cases hall : w.items.mapM (partitionAt w.tier tablePrefix) with
  | error e =>
      obtain ⟨item, -, hitem⟩ := exists_of_mapM_error hall
      rw [partitionAt_eq_error hitem]
  | ok partitions =>
      have hok := (mapM_eq_ok_iff _ _ _).mp hall
      have hin := List.mem_map_of_mem (f := partitionAt w.tier tablePrefix) hmem
      rw [hok, hfirst] at hin
      simp at hin

-- Every other window that is admitted has its partitions.
theorem exists_partitions {w : Window} (hcheck : w.check = .ok ()) (hover : ¬w.Overhangs)
    (tablePrefix : String) : ∃ partitions, w.partitions tablePrefix = .ok partitions := by
  rw [Window.partitions, hcheck]
  apply exists_mapM_eq_ok
  intro item hitem
  obtain ⟨hlt, hfirst, hstop, -⟩ := (w.mem_items_iff item).mp hitem
  have hhigh := Timestamp.toInt_le_highest w.stop
  have hrange : Timestamp.lowest ≤ w.firstItem := by
    unfold check at hcheck
    split at hcheck
    · omega
    · split at hcheck
      · cases hcheck
      · split at hcheck
        · cases hcheck
        · omega
  have htable : Timestamp.lowest ≤ w.firstTable := by
    apply Int.le_of_not_gt
    intro hbelow
    exact hover ⟨hlt, hrange, hbelow⟩
  have hround := sub_emod_le_sub_emod w.tier.tableWidth_pos hfirst
  rw [firstItem_sub_emod] at hround
  exact partitionAt_ok tablePrefix (by omega) (by omega)

theorem check_of_renderWindow {p : RenderParameters} {now : Timestamp} {w : Window}
    (h : Service.renderWindow p now = .ok w) : w.check = .ok () := by
  simp only [Service.renderWindow, bind, Except.bind] at h
  split at h
  · cases h
  · split at h
    · cases h
    · rename_i since _ _ until_ _
      by_cases hafter : until_.toInt < since.toInt
      · rw [if_pos hafter] at h
        cases h
      · rw [if_neg hafter] at h
        simp only [pure, Except.pure] at h
        split at h
        · cases h
        · rename_i hcheck
          cases h
          unfold Except.mapError at hcheck
          split at hcheck
          · cases hcheck
          · assumption

-- The check and the partitions come to one verdict for all windows but those that overhang, which
-- the check admits. So it is with the windows that are rendered and the plans of their reads.
theorem map_partitions_eq_check_iff (w : Window) (tablePrefix : String) :
    ((w.partitions tablePrefix).map (fun _ => ()) = w.check ↔ ¬w.Overhangs) ∧
    (w.Overhangs → w.tier = .minute ∧ w.check = .ok () ∧
      w.partitions tablePrefix = .error .outOfRange) ∧
    (∀ p now, Service.renderWindow p now = .ok w → ∀ batchLimit names,
      ((∃ units, FetchUnit.plan ⟨tablePrefix, batchLimit⟩ w names = .ok units) ↔ ¬w.Overhangs)) := by
  have hadmitted : w.check = .ok () →
      ((∃ partitions, w.partitions tablePrefix = .ok partitions) ↔ ¬w.Overhangs) := by
    intro hcheck
    constructor
    · rintro ⟨partitions, hpartitions⟩ hover
      rw [hover.partitions_eq tablePrefix] at hpartitions
      cases hpartitions
    · intro hover
      exact exists_partitions hcheck hover tablePrefix
  refine ⟨?_, fun hover => ⟨hover.tier_eq, hover.check_eq, hover.partitions_eq tablePrefix⟩, ?_⟩
  · cases hcheck : w.check with
    | error e =>
        have hover : ¬w.Overhangs := by
          intro hover
          rw [hover.check_eq] at hcheck
          cases hcheck
        have hpartitions : w.partitions tablePrefix = .error e := by
          rw [Window.partitions, hcheck]
        rw [hpartitions]
        exact iff_of_true rfl hover
    | ok _ =>
        rw [← hadmitted hcheck]
        cases w.partitions tablePrefix with
        | error e => simp [Except.map]
        | ok partitions => simp [Except.map]
  · intro p now hrender batchLimit names
    rw [← hadmitted (check_of_renderWindow hrender), FetchUnit.plan]
    cases w.partitions tablePrefix with
    | error e => simp [Except.map]
    | ok partitions => simp [Except.map]

-- The hour that the first timestamps complete lies in a day that they do not.
theorem map_partitions_ne_check :
    Service.renderWindow ⟨[], "-9223372036854774000", "-9223372036854773990"⟩ 0
      = .ok ⟨-9223372036854774000, -9223372036854773990⟩ ∧
    (⟨-9223372036854774000, -9223372036854773990⟩ : Window).check = .ok () ∧
    (⟨-9223372036854774000, -9223372036854773990⟩ : Window).partitions "g" = .error .outOfRange ∧
    ¬∃ units, FetchUnit.plan ⟨"g", 1⟩ ⟨-9223372036854774000, -9223372036854773990⟩ ["m"]
      = .ok units := by
  have hrender : Service.renderWindow ⟨[], "-9223372036854774000", "-9223372036854773990"⟩ 0
      = .ok ⟨-9223372036854774000, -9223372036854773990⟩ := by decide +kernel
  have hover : (⟨-9223372036854774000, -9223372036854773990⟩ : Window).Overhangs := by
    exact ⟨by decide, by decide, by decide⟩
  obtain ⟨-, hverdict, hplan⟩ :=
    map_partitions_eq_check_iff ⟨-9223372036854774000, -9223372036854773990⟩ "g"
  obtain ⟨-, hcheck, hpartitions⟩ := hverdict hover
  refine ⟨hrender, hcheck, hpartitions, ?_⟩
  rw [hplan _ _ hrender]
  exact not_not_intro hover

end Cadence.Window
