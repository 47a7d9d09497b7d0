import Mathlib.Algebra.Divisibility.Basic
import Mathlib.Algebra.Ring.Int.Defs
import Cadence.Proofs.Transform.Words

namespace Cadence

variable {α : Type}

namespace Grid

def lcmInWords (a b : Int) : Option Int :=
  if a = 0 ∨ b = 0 then some 0
  else do
    let divisor ← Timestamp.word? (Int.gcd a b)
    let product ← Timestamp.word? (Int.tdiv a divisor * b)
    Timestamp.word? product.natAbs

def commonStepInWords (series : List (Series α)) : Option Int := do
  let common ← series.foldlM (fun (l : Int) s => lcmInWords l s.step) 1
  return max common 1

def filled (series : List (Series α)) : List (Series α) := series.filter fun s => 0 < s.values.size

def ofSeriesInWords (series : List (Series α)) : Option Grid := do
  let step ← commonStepInWords series
  let stops : List Int ← (filled series).mapM fun s => s.instantInWords (s.values.size - 1)
  match ((filled series).map (·.start)).min?, stops.max? with
  | some first, some last => do
    let start := floorTo first step
    return ⟨start, step, ← countSlots start step last⟩
  | _, _ => return ⟨floorTo ((series.map (·.start)).min?.getD 0) step, step, 0⟩

def addPointInWords [Quantity α] (g : Grid) (buckets : Array (Bucket α)) (p : Int × Option α) :
    Option (Array (Bucket α)) :=
  match p.2 with
  | none => some buckets
  | some x => do
    let away ← Timestamp.word? (p.1 - g.start)
    let slot := Int.tdiv away g.step
    return if slot < 0 then buckets
      else buckets.modify slot.toNat fun b => (Quantity.add b.1 x, b.2 + 1)

def meansInWords [Quantity α] (g : Grid) (s : Series α) : Option (Array (Option α)) := do
  let points ← s.pointsInWords
  let buckets ← points.foldlM g.addPointInWords (Array.replicate g.slots (Quantity.zero, 0))
  return buckets.map fun b => if b.2 = 0 then none else some (Quantity.divide b.1 b.2)

end Grid

def aggregateInWords [Quantity α] (a : Aggregation) (name : String) (series : List (Series α)) :
    Option (Series α) := do
  let grid ← Grid.ofSeriesInWords series
  let columns ← series.mapM grid.meansInWords
  let values ← (List.range grid.slots).mapM fun slot => do
    let row ← columns.mapM fun column => column[slot]?
    return match row.filterMap id with
      | [] => none
      | x :: xs => Quantity.defined (a.combine (x :: xs))
  return ⟨name, name, grid.start, grid.step, values.toArray⟩

-- The least common multiple of the steps of some series fits a word, and so do their spans: the series with
-- slots lie among the timestamps, and the slots from the start of one to the stop of another can be counted.
structure Grid.Room (series : List (Series α)) : Prop where
  step : commonStep series ≤ Timestamp.highest
  range : ∀ s ∈ filled series, Timestamp.lowest ≤ s.start ∧ s.stop ≤ Timestamp.highest
  span : ∀ s ∈ filled series, ∀ r ∈ filled series,
    r.stop - floorTo s.start (commonStep series) ≤ Timestamp.highest ∧
    Int.tdiv (r.stop - floorTo s.start (commonStep series)) (commonStep series) < Timestamp.highest

namespace Grid

variable {w : Window} {series : List (Series α)}

theorem lcmInWords_eq {l step : Int} (hl : 0 < l) (hstep : 0 < step)
    (hfit : (Int.lcm l step : Int) ≤ Timestamp.highest) :
    lcmInWords l step = some (Int.lcm l step : Int) := by
  have hgcd : 0 < (Int.gcd l step : Int) :=
    Int.natCast_pos.mpr (Int.gcd_pos_of_ne_zero_left step (Int.ne_of_gt hl))
  have hlcm : 0 < (Int.lcm l step : Int) :=
    Int.natCast_pos.mpr (Int.lcm_pos (Int.ne_of_gt hl) (Int.ne_of_gt hstep))
  have hgcdle : (Int.gcd l step : Int) ≤ l := Int.le_of_dvd hl (Int.gcd_dvd_left l step)
  have hle : l ≤ (Int.lcm l step : Int) := Int.le_of_dvd hlcm (Int.dvd_lcm_left l step)
  -- dividing before multiplying keeps the product at the least common multiple
  have hproduct : Int.tdiv l (Int.gcd l step) * step = Int.lcm l step := by
    obtain ⟨k, hk⟩ := Int.gcd_dvd_left l step
    have hquotient : Int.tdiv l (Int.gcd l step) = k := Int.tdiv_eq_of_eq_mul_right (Int.ne_of_gt hgcd) hk
    apply Int.eq_of_mul_eq_mul_left (Int.ne_of_gt hgcd)
    rw [hquotient, ← Int.mul_assoc, ← hk, ← Int.natCast_mul, Int.gcd_mul_lcm, Int.natCast_mul,
      Int.natAbs_of_nonneg (Int.le_of_lt hl), Int.natAbs_of_nonneg (Int.le_of_lt hstep)]
  rw [lcmInWords, if_neg (by omega), Timestamp.word?_nonneg (Int.le_of_lt hgcd) (by omega),
    Option.bind_eq_bind, Option.bind_some, hproduct, Timestamp.word?_nonneg (Int.le_of_lt hlcm) hfit]
  exact Timestamp.word?_nonneg (Int.le_of_lt hlcm) hfit

theorem foldl_lcm_dvd_iff (series : List (Series α)) (l n : Int) :
    series.foldl (fun l s => (Int.lcm l s.step : Int)) l ∣ n ↔ l ∣ n ∧ ∀ s ∈ series, s.step ∣ n := by
  induction series generalizing l with
  | nil => simp
  | cons s rest ih =>
      have hlcm : (Int.lcm l s.step : Int) ∣ n ↔ l ∣ n ∧ s.step ∣ n :=
        ⟨fun h => ⟨(Int.dvd_lcm_left l s.step).trans h, (Int.dvd_lcm_right l s.step).trans h⟩,
          fun h => Int.coe_lcm_dvd h.1 h.2⟩
      rw [List.foldl_cons, ih, hlcm, List.forall_mem_cons, and_assoc]

theorem foldl_lcm_pos (hpos : ∀ s ∈ series, 0 < s.step) {l : Int} (hl : 0 < l) :
    0 < series.foldl (fun l s => (Int.lcm l s.step : Int)) l := by
  induction series generalizing l with
  | nil => exact hl
  | cons s rest ih =>
      refine ih (fun r hr => hpos r (List.mem_cons_of_mem _ hr)) ?_
      exact Int.natCast_pos.mpr
        (Int.lcm_pos (Int.ne_of_gt hl) (Int.ne_of_gt (hpos s List.mem_cons_self)))

theorem commonStep_pos (series : List (Series α)) : 0 < commonStep series := by
  unfold commonStep
  omega

theorem commonStep_eq_foldl (hpos : ∀ s ∈ series, 0 < s.step) :
    commonStep series = series.foldl (fun l s => (Int.lcm l s.step : Int)) 1 :=
  Int.max_eq_left (foldl_lcm_pos hpos Int.one_pos)

-- The common step is the least common multiple of the steps.
theorem commonStep_dvd_iff (hpos : ∀ s ∈ series, 0 < s.step) (n : Int) :
    commonStep series ∣ n ↔ ∀ s ∈ series, s.step ∣ n := by
  rw [commonStep_eq_foldl hpos, foldl_lcm_dvd_iff]
  simp

theorem step_dvd_commonStep (hpos : ∀ s ∈ series, 0 < s.step) :
    ∀ s ∈ series, s.step ∣ commonStep series :=
  (commonStep_dvd_iff hpos _).mp (Int.dvd_refl _)

theorem commonStepInWords_eq (hpos : ∀ s ∈ series, 0 < s.step)
    (hfit : commonStep series ≤ Timestamp.highest) :
    commonStepInWords series = some (commonStep series) := by
  have hcommon := commonStep_pos series
  -- a multiple on the way divides the last one
  have hstep : ∀ s ∈ series, ∀ l, 0 < l ∧ l ∣ commonStep series →
      lcmInWords l s.step = some (Int.lcm l s.step : Int) ∧
        0 < (Int.lcm l s.step : Int) ∧ (Int.lcm l s.step : Int) ∣ commonStep series := by
    rintro s hs l ⟨hl, hdvd⟩
    have hlcm := Int.coe_lcm_dvd hdvd (step_dvd_commonStep hpos s hs)
    have hle := Int.le_of_dvd hcommon hlcm
    refine ⟨lcmInWords_eq hl (hpos s hs) (by omega), ?_, hlcm⟩
    exact Int.natCast_pos.mpr (Int.lcm_pos (Int.ne_of_gt hl) (Int.ne_of_gt (hpos s hs)))
  obtain ⟨hfold, -⟩ := foldlM_eq_some _ hstep ⟨Int.one_pos, Int.one_dvd _⟩
  rw [commonStepInWords, hfold]
  rfl

theorem commonStep_of_window (h : ∀ s ∈ series, s.step = w.step) (hne : series ≠ []) :
    commonStep series = w.step := by
  have hpos : ∀ s ∈ series, 0 < s.step := fun s hs => by
    rw [h s hs]
    exact w.step_pos
  obtain ⟨s, hs⟩ := List.exists_mem_of_ne_nil series hne
  have hmultiple : commonStep series ∣ w.step :=
    (commonStep_dvd_iff hpos _).mpr fun r hr => by rw [h r hr]
  have hdivisor : w.step ∣ commonStep series := h s hs ▸ step_dvd_commonStep hpos s hs
  exact Int.dvd_antisymm (Int.le_of_lt (commonStep_pos series)) (Int.le_of_lt w.step_pos) hmultiple hdivisor

theorem floorTo_of_dvd {t width : Int} (h : width ∣ t) (hlow : Timestamp.lowest ≤ t) :
    floorTo t width = t := by
  rw [floorTo, Int.emod_eq_zero_of_dvd h, Int.sub_zero, Int.max_eq_right hlow]

theorem mem_filled {s : Series α} : s ∈ filled series ↔ s ∈ series ∧ 0 < s.values.size := by
  simp [filled]

theorem exists_first (hne : series ≠ []) : ∃ s ∈ series,
    (series.map (·.start)).min? = some s.start ∧ ∀ t ∈ series, s.start ≤ t.start := by
  obtain ⟨s, rest, rfl⟩ := List.exists_cons_of_ne_nil hne
  obtain ⟨first, hfirst⟩ : ∃ first, ((s :: rest).map (·.start)).min? = some first := ⟨_, rfl⟩
  obtain ⟨hmem, hleast⟩ := List.min?_eq_some_iff.mp hfirst
  obtain ⟨r, hr, rfl⟩ := List.mem_map.mp hmem
  exact ⟨r, hr, hfirst, fun t ht => hleast _ (List.mem_map_of_mem ht)⟩

theorem exists_last (hne : series ≠ []) : ∃ s ∈ series,
    (series.map (·.stop)).max? = some s.stop ∧ ∀ t ∈ series, t.stop ≤ s.stop := by
  obtain ⟨s, rest, rfl⟩ := List.exists_cons_of_ne_nil hne
  obtain ⟨last, hlast⟩ : ∃ last, ((s :: rest).map (·.stop)).max? = some last := ⟨_, rfl⟩
  obtain ⟨hmem, hgreatest⟩ := List.max?_eq_some_iff.mp hlast
  obtain ⟨r, hr, rfl⟩ := List.mem_map.mp hmem
  exact ⟨r, hr, hlast, fun t ht => hgreatest _ (List.mem_map_of_mem ht)⟩

-- The grid of some series goes from the first start to the last stop of those that have slots.
theorem ofSeries_eq (hne : series ≠ []) :
    (filled series = [] ∧ ∃ s ∈ series, (∀ t ∈ series, s.start ≤ t.start) ∧
      ofSeries series = ⟨floorTo s.start (commonStep series), commonStep series, 0⟩) ∨
    ∃ s ∈ filled series, ∃ r ∈ filled series,
      (∀ t ∈ filled series, s.start ≤ t.start ∧ t.stop ≤ r.stop) ∧
      ofSeries series = ⟨floorTo s.start (commonStep series), commonStep series,
        (Int.tdiv (r.stop - floorTo s.start (commonStep series)) (commonStep series) + 1).toNat⟩ := by
  rw [ofSeries, ← filled]
  by_cases hnone : filled series = []
  · obtain ⟨s, hs, hfirst, hleast⟩ := exists_first hne
    refine .inl ⟨hnone, s, hs, hleast, ?_⟩
    simp only [hnone, hfirst, Option.getD_some]
    rfl
  · obtain ⟨s, hs, hfirst, hleast⟩ := exists_first hnone
    obtain ⟨r, hr, hlast, hgreatest⟩ := exists_last hnone
    refine .inr ⟨s, hs, r, hr, fun t ht => ⟨hleast t ht, hgreatest t ht⟩, ?_⟩
    simp only [hfirst, hlast]

theorem floorTo_le {t width : Int} (hwidth : 0 < width) (hlow : Timestamp.lowest ≤ t) :
    floorTo t width ≤ t := by
  have hmod := Int.emod_nonneg t (Int.ne_of_gt hwidth)
  unfold floorTo
  omega

theorem Room.inRange (h : Room series) (hpos : ∀ s ∈ series, 0 < s.step) {s : Series α}
    (hs : s ∈ filled series) : s.InRange := by
  obtain ⟨hlow, hhigh⟩ := h.range s hs
  have hfloor := floorTo_le (commonStep_pos series) hlow
  have hspan := (h.span s hs s hs).1
  exact ⟨hpos s (mem_filled.mp hs).1, hlow, hhigh, by omega⟩

theorem ofSeriesInWords_eq (h : Room series) (hpos : ∀ s ∈ series, 0 < s.step) :
    ofSeriesInWords series = some (ofSeries series) := by
  have hstops : (filled series).mapM (fun s => s.instantInWords (s.values.size - 1))
      = some ((filled series).map (·.stop)) := by
    refine mapM_eq_some fun s hs => (h.inRange hpos hs).instantInWords_eq ?_
    exact Nat.sub_one_lt_of_lt (mem_filled.mp hs).2
  rw [ofSeriesInWords, ofSeries, commonStepInWords_eq hpos h.step, ← filled]
  simp only [Option.bind_eq_bind, Option.bind_some, hstops]
  by_cases hnone : filled series = []
  · rw [hnone]
    rfl
  · obtain ⟨s, hs, hfirst, -⟩ := exists_first hnone
    obtain ⟨r, hr, hlast, hgreatest⟩ := exists_last hnone
    have hfloor := floorTo_le (commonStep_pos series) (h.range s hs).1
    have hafter := (h.inRange hpos hs).start_le_stop
    have hlater := hgreatest s hs
    obtain ⟨hspan, hcount⟩ := h.span s hs r hr
    have hslots := countSlots_eq (commonStep_pos series)
      (show floorTo s.start (commonStep series) ≤ r.stop by omega) hspan hcount
    simp only [hfirst, hlast, hslots]
    rfl

theorem ofSeries_start_le (h : Room series) : ∀ s ∈ filled series, (ofSeries series).start ≤ s.start ∧
    s.stop - (ofSeries series).start ≤ Timestamp.highest := by
  intro s hs
  rcases ofSeries_eq (List.ne_nil_of_mem (mem_filled.mp hs).1) with ⟨hnone, -⟩ | ⟨r, hr, last, -, hends, hgrid⟩
  · rw [hnone] at hs
    cases hs
  · have hfloor := floorTo_le (commonStep_pos series) (h.range r hr).1
    rw [hgrid]
    exact ⟨Int.le_trans hfloor (hends s hs).1, (h.span r hr s hs).1⟩

theorem floorTo_start (h : ∀ s ∈ series, s.Fits w) (hne : series ≠ []) {s : Series α} (hs : s ∈ series) :
    floorTo s.start (commonStep series) = s.start := by
  rw [commonStep_of_window (fun s hs => (h s hs).step) hne]
  exact floorTo_of_dvd (h s hs).aligned (h s hs).lowest

theorem room_of_fits (h : ∀ s ∈ series, s.Fits w) (hne : series ≠ []) : Room series := by
  have hcommon := commonStep_of_window (fun s hs => (h s hs).step) hne
  have hwide : (86400 : Int) ≤ Timestamp.highest := by decide
  have hinside : ∀ s ∈ filled series, s.InRange ∧ w.firstSlot ≤ s.start ∧ s.stop ≤ w.stop.toInt ∧
      w.stop.toInt - w.firstSlot < Timestamp.highest := by
    intro s hs
    obtain ⟨hs, hslots⟩ := mem_filled.mp hs
    exact ⟨(h s hs).inRange hslots, (h s hs).inside hslots⟩
  refine ⟨?_, fun s hs => ?_, fun s hs r hr => ?_⟩
  · rw [hcommon]
    exact Int.le_trans w.step_le hwide
  · obtain ⟨hrange, -⟩ := hinside s hs
    exact ⟨hrange.lowest, hrange.highest⟩
  · obtain ⟨hown, hlow, hhigh, hshort⟩ := hinside s hs
    obtain ⟨hown', hlow', hhigh', -⟩ := hinside r hr
    have hafter := hown.start_le_stop
    have hafter' := hown'.start_le_stop
    have hfew := Int.natAbs_tdiv_le_natAbs (r.stop - s.start) w.step
    rw [floorTo_start h hne (mem_filled.mp hs).1, hcommon]
    exact ⟨by omega, by omega⟩

theorem ofSeries_fits (h : ∀ s ∈ series, s.Fits w) (hne : series ≠ []) : (ofSeries series).Fits w := by
  have hcommon := commonStep_of_window (fun s hs => (h s hs).step) hne
  rcases ofSeries_eq hne with ⟨-, s, hs, -, hgrid⟩ | ⟨s, hs, r, hr, hends, hgrid⟩
  · have hfits : s.grid.Fits w := h s hs
    rw [hgrid, floorTo_start h hne hs, hcommon]
    exact ⟨rfl, hfits.aligned, hfits.lowest, hfits.highest, fun hslots => absurd hslots (Nat.lt_irrefl 0)⟩
  · obtain ⟨hs', hslots⟩ := mem_filled.mp hs
    obtain ⟨hr, hslots'⟩ := mem_filled.mp hr
    have hfits : s.grid.Fits w := h s hs'
    obtain ⟨hlow, -, hshort⟩ := hfits.inside hslots
    have hafter : s.start ≤ r.stop :=
      Int.le_trans ((h s hs').inRange hslots).start_le_stop (hends s hs).2
    rw [hgrid, floorTo_start h hne hs', hcommon]
    exact fits_of_last hfits.aligned hfits.lowest hlow hafter ((h r hr).inside hslots').2.1 hshort

variable [Quantity α] {g : Grid}

theorem size_addPoint (buckets : Array (Bucket α)) (p : Int × Option α) :
    (g.addPoint buckets p).size = buckets.size := by
  unfold addPoint
  split
  · rfl
  · dsimp only
    split
    · rfl
    · exact Array.size_modify

theorem size_foldl_addPoint (points : List (Int × Option α)) (buckets : Array (Bucket α)) :
    (points.foldl g.addPoint buckets).size = buckets.size := by
  induction points generalizing buckets with
  | nil => rfl
  | cons p points ih => rw [List.foldl_cons, ih, size_addPoint]

theorem size_means (g : Grid) (s : Series α) : (g.means s).size = g.slots := by
  rw [means, Array.size_map, size_foldl_addPoint, Array.size_replicate]

-- The means of a series that does not begin before the grid and ends near enough to its start.
theorem meansInWords_eq {s : Series α} (h : 0 < s.values.size → s.InRange)
    (hnear : 0 < s.values.size → g.start ≤ s.start ∧ s.stop - g.start ≤ Timestamp.highest) :
    g.meansInWords s = some (g.means s) := by
  have hpoints : ∀ p ∈ s.points, ∀ buckets : Array (Bucket α), True →
      g.addPointInWords buckets p = some (g.addPoint buckets p) ∧ True := by
    intro p hp buckets _
    obtain ⟨⟨value, slot⟩, hslot, rfl⟩ := List.mem_map.mp hp
    have hslot := (List.mem_zipIdx' hslot).1
    rw [Array.length_toList] at hslot
    have hfilled := Nat.zero_lt_of_lt hslot
    obtain ⟨hstart, hstop⟩ := (h hfilled).instant_bounds hslot
    obtain ⟨hgrid, hspan⟩ := hnear hfilled
    refine ⟨?_, trivial⟩
    unfold addPointInWords addPoint
    cases value with
    | none => rfl
    | some x =>
        simp only [Timestamp.word?_nonneg (show 0 ≤ s.instant slot - g.start by omega) (by omega)]
        rfl
  obtain ⟨hfold, -⟩ := foldlM_eq_some (fun _ => True) hpoints
    (b := Array.replicate g.slots (Quantity.zero, 0)) trivial
  rw [meansInWords, Series.pointsInWords_eq h, Option.bind_eq_bind, Option.bind_some, hfold]
  rfl

end Grid

theorem aggregateInWords_of_means [Quantity α] {series : List (Series α)} (a : Aggregation) (name : String)
    (hgrid : Grid.ofSeriesInWords series = some (Grid.ofSeries series))
    (hmeans : ∀ s ∈ series,
      (Grid.ofSeries series).meansInWords s = some ((Grid.ofSeries series).means s)) :
    aggregateInWords a name series = some (aggregate a name series) := by
  let g := Grid.ofSeries series
  have hcolumns : series.mapM g.meansInWords = some (series.map g.means) := mapM_eq_some hmeans
  have hrow : ∀ slot ∈ List.range g.slots, (series.map g.means).mapM (fun column => column[slot]?)
      = some ((series.map g.means).map fun column => column[slot]?.join) := by
    intro slot hslot
    apply mapM_eq_some
    intro column hcolumn
    obtain ⟨s, -, rfl⟩ := List.mem_map.mp hcolumn
    have hin : slot < (g.means s).size := by
      rw [Grid.size_means]
      exact List.mem_range.mp hslot
    rw [Array.getElem?_eq_getElem hin]
    rfl
  have hvalues : (List.range g.slots).mapM (fun slot => do
        let row ← (series.map g.means).mapM fun column => column[slot]?
        return match row.filterMap id with
          | [] => none
          | x :: xs => Quantity.defined (a.combine (x :: xs)))
      = some ((List.range g.slots).map fun slot =>
          match Grid.row (series.map g.means) slot with
          | [] => none
          | x :: xs => Quantity.defined (a.combine (x :: xs))) := by
    apply mapM_eq_some
    intro slot hslot
    rw [hrow slot hslot, Option.bind_eq_bind, Option.bind_some, List.filterMap_map]
    rfl
  rw [aggregateInWords, hgrid, Option.bind_eq_bind, Option.bind_some]
  change (series.mapM g.meansInWords).bind _ = _
  rw [hcolumns, Option.bind_some, hvalues]
  rw [Option.bind_eq_bind, Option.bind_some, aggregate, ← List.toArray_range, List.map_toArray]
  rfl

-- Where there is room for the series, every result on the way to their aggregation fits.
theorem aggregateInWords_of_room [Quantity α] {series : List (Series α)} (a : Aggregation)
    (name : String) (h : Grid.Room series) (hpos : ∀ s ∈ series, 0 < s.step) :
    aggregateInWords a name series = some (aggregate a name series) := by
  refine aggregateInWords_of_means a name (Grid.ofSeriesInWords_eq h hpos) fun s hs => ?_
  refine Grid.meansInWords_eq (fun hslots => h.inRange hpos (Grid.mem_filled.mpr ⟨hs, hslots⟩)) ?_
  exact fun hslots => Grid.ofSeries_start_le h s (Grid.mem_filled.mpr ⟨hs, hslots⟩)

-- The aggregation of series of a window fits it, and so does every result on the way to it.
theorem aggregateInWords_eq [Quantity α] {w : Window} {series : List (Series α)} (a : Aggregation)
    (name : String) (h : ∀ s ∈ series, s.Fits w) (hne : series ≠ []) :
    aggregateInWords a name series = some (aggregate a name series) ∧
      (aggregate a name series).Fits w := by
  constructor
  · refine aggregateInWords_of_room a name (Grid.room_of_fits h hne) fun s hs => ?_
    rw [show s.step = w.step from (h s hs).step]
    exact w.step_pos
  · rw [Series.Fits, Series.grid, aggregate]
    simp only [Array.size_map, Array.size_range]
    exact Grid.ofSeries_fits h hne

end Cadence
