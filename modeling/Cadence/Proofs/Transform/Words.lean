import Cadence.Proofs.Window.Admission
import Cadence.Transform.Builtin
import Cadence.PointSet

namespace Cadence

-- The first slot of a window's grid. It may lie below every timestamp.
def Window.firstSlot (w : Window) : Int := w.start.toInt - w.start.toInt % w.step

-- The values of a grid from a start with so many slots, where every point falls into one.
def PointSet.layOut (start step : Int) (slots : Nat) (points : List (Int × Option Float)) :
    Array (Option Float) :=
  points.foldl (fun values p => values.setIfInBounds (Int.tdiv (p.1 - start) step).toNat p.2)
    (Array.replicate slots none)

variable {α : Type}

namespace Series

def instantInWords (s : Series α) (slot : Nat) : Option Int := do
  let along ← Timestamp.word? (s.step * slot)
  Timestamp.word? (s.start + along)

def pointsInWords (s : Series α) : Option (List (Int × Option α)) :=
  s.values.toList.zipIdx.mapM fun (value, slot) => do return (← s.instantInWords slot, value)

end Series

-- A grid on the multiples of a window's step, and inside the window as far as it has slots. The window is
-- shorter than the range of timestamps then.
structure Grid.Fits (w : Window) (g : Grid) : Prop where
  step : g.step = w.step
  aligned : w.step ∣ g.start
  lowest : Timestamp.lowest ≤ g.start
  highest : g.start ≤ Timestamp.highest
  inside : 0 < g.slots → w.firstSlot ≤ g.start ∧
    g.start + g.step * (g.slots - 1 : Nat) ≤ w.stop.toInt ∧
    w.stop.toInt - w.firstSlot < Timestamp.highest

def Series.grid (s : Series α) : Grid := ⟨s.start, s.step, s.values.size⟩

def Series.Fits (w : Window) (s : Series α) : Prop := s.grid.Fits w

-- A series whose instants are timestamps, and whose length fits a word.
structure Series.InRange (s : Series α) : Prop where
  step : 0 < s.step
  lowest : Timestamp.lowest ≤ s.start
  highest : s.stop ≤ Timestamp.highest
  span : s.stop - s.start ≤ Timestamp.highest

theorem foldlM_eq_some {β γ : Type} {f : β → γ → Option β} {g : β → γ → β} (P : β → Prop)
    {xs : List γ} (h : ∀ x ∈ xs, ∀ b, P b → f b x = some (g b x) ∧ P (g b x)) {b : β} (hb : P b) :
    xs.foldlM f b = some (xs.foldl g b) ∧ P (xs.foldl g b) := by
  induction xs generalizing b with
  | nil => exact ⟨rfl, hb⟩
  | cons x xs ih =>
      obtain ⟨hstep, hnext⟩ := h x List.mem_cons_self b hb
      rw [List.foldlM_cons, hstep, List.foldl_cons]
      exact ih (fun y hy => h y (List.mem_cons_of_mem x hy)) hnext

theorem mapM_eq_some_iff {β γ : Type} (f : β → Option γ) (xs : List β) (ys : List γ) :
    xs.mapM f = some ys ↔ xs.map f = ys.map some := by
  induction xs generalizing ys with
  | nil => cases ys <;> simp
  | cons x xs ih =>
      rw [List.mapM_cons]
      cases hx : f x with
      | none => cases ys <;> simp [hx]
      | some y =>
          cases hxs : xs.mapM f with
          | none => cases ys <;> simp [← ih, hx, hxs]
          | some rest => cases ys <;> simp [← ih, hx, hxs]

theorem mapM_eq_some {β γ : Type} {f : β → Option γ} {g : β → γ} {xs : List β}
    (h : ∀ x ∈ xs, f x = some (g x)) : xs.mapM f = some (xs.map g) := by
  rw [mapM_eq_some_iff, List.map_map]
  exact List.map_congr_left h

theorem exists_mapM_eq_some {β γ : Type} {f : β → Option γ} {P : γ → Prop} {xs : List β}
    (h : ∀ x ∈ xs, ∃ y, f x = some y ∧ P y) : ∃ ys, xs.mapM f = some ys ∧ ∀ y ∈ ys, P y := by
  induction xs with
  | nil => exact ⟨[], rfl, by simp⟩
  | cons x xs ih =>
      obtain ⟨y, hy, hfirst⟩ := h x List.mem_cons_self
      obtain ⟨ys, hys, hrest⟩ := ih fun z hz => h z (List.mem_cons_of_mem x hz)
      refine ⟨y :: ys, ?_, List.forall_mem_cons.mpr ⟨hfirst, hrest⟩⟩
      rw [List.mapM_cons, hy, hys]
      rfl

theorem mapM_eq_none {β γ : Type} {f : β → Option γ} {xs : List β} (h : ∃ x ∈ xs, f x = none) :
    xs.mapM f = none := by
  induction xs with
  | nil => simp at h
  | cons x xs ih =>
      rw [List.mapM_cons]
      cases hx : f x with
      | none => rfl
      | some y => rw [ih (by simpa [hx] using h)]; rfl

theorem tdiv_le_tdiv {a b c : Int} (hc : 0 < c) (ha : 0 ≤ a) (h : a ≤ b) :
    Int.tdiv a c ≤ Int.tdiv b c := by
  rw [Int.tdiv_eq_ediv_of_nonneg ha, Int.tdiv_eq_ediv_of_nonneg (Int.le_trans ha h)]
  exact Int.ediv_le_ediv hc h

theorem mul_tdiv_le {a c : Int} (hc : 0 < c) (ha : 0 ≤ a) : c * Int.tdiv a c ≤ a := by
  rw [Int.tdiv_eq_ediv_of_nonneg ha]
  exact Int.mul_ediv_self_le (Int.ne_of_gt hc)

theorem tdiv_le_self {a : Int} (ha : 0 ≤ a) (c : Int) : Int.tdiv a c ≤ a := by
  rw [Int.tdiv_eq_ediv_of_nonneg ha]
  exact Int.ediv_le_self c ha

theorem countSlots_eq {start step last : Int} (hstep : 0 < step) (hafter : start ≤ last)
    (hspan : last - start ≤ Timestamp.highest)
    (hcount : Int.tdiv (last - start) step < Timestamp.highest) :
    countSlots start step last = some (Int.tdiv (last - start) step + 1).toNat := by
  have hlength : 0 ≤ last - start := by omega
  have hslots := Int.tdiv_nonneg hlength (Int.le_of_lt hstep)
  rw [countSlots, Timestamp.word?_nonneg hlength hspan, Option.bind_eq_bind,
    Option.bind_some, Timestamp.word?_nonneg (by omega) (by omega)]
  exact if_pos (by omega)

theorem Window.step_pos (w : Window) : 0 < w.step := w.tier.step_pos

theorem Window.step_le (w : Window) : w.step ≤ 86400 := by
  unfold step
  cases w.tier <;> decide

theorem Window.firstSlot_le_highest (w : Window) : w.firstSlot ≤ Timestamp.highest := by
  have hmod := Int.emod_nonneg w.start.toInt (Int.ne_of_gt w.step_pos)
  have hhigh := Timestamp.toInt_le_highest w.start
  unfold firstSlot
  omega

theorem Grid.fits_of_last {w : Window} {start last : Int} (haligned : w.step ∣ start)
    (hlowest : Timestamp.lowest ≤ start) (hlow : w.firstSlot ≤ start) (hafter : start ≤ last)
    (hlast : last ≤ w.stop.toInt) (hshort : w.stop.toInt - w.firstSlot < Timestamp.highest) :
    Grid.Fits w ⟨start, w.step, (Int.tdiv (last - start) w.step + 1).toNat⟩ := by
  have hhigh := Timestamp.toInt_le_highest w.stop
  have hslots := Int.tdiv_nonneg (show 0 ≤ last - start by omega) (Int.le_of_lt w.step_pos)
  have hend := mul_tdiv_le w.step_pos (show 0 ≤ last - start by omega)
  have hslot : (((Int.tdiv (last - start) w.step + 1).toNat - 1 : Nat) : Int)
      = Int.tdiv (last - start) w.step := by omega
  refine ⟨rfl, haligned, hlowest, ?_, fun _ => ⟨hlow, ?_, hshort⟩⟩
  · change start ≤ _
    omega
  · simp only [hslot]
    omega

namespace PointSet

theorem exists_bounds {s : PointSet} (h : s.points ≠ ∅) :
    ∃ first last, s.points.minKey? = some first ∧ s.points.maxKey? = some last ∧
      first ∈ s.points ∧ last ∈ s.points ∧ ∀ t ∈ s.points, first ≤ t ∧ t ≤ last := by
  obtain ⟨first, hfirst⟩ :=
    Option.isSome_iff_exists.mp (Std.ExtTreeMap.isSome_minKey?_iff_ne_empty.mpr h)
  obtain ⟨last, hlast⟩ :=
    Option.isSome_iff_exists.mp (Std.ExtTreeMap.isSome_maxKey?_iff_ne_empty.mpr h)
  obtain ⟨hmin, hleast⟩ := Std.ExtTreeMap.minKey?_eq_some_iff_mem_and_forall.mp hfirst
  obtain ⟨hmax, hgreatest⟩ := Std.ExtTreeMap.maxKey?_eq_some_iff_mem_and_forall.mp hlast
  refine ⟨first, last, hfirst, hlast, hmin, hmax, fun t ht => ⟨?_, ?_⟩⟩
  · exact Int.isLE_compare.mp (hleast t ht)
  · exact Int.isLE_compare.mp (hgreatest t ht)

theorem mem_points_of_mem_toList {s : PointSet} {p : Int × Option Float} (h : p ∈ s.toList) :
    p.1 ∈ s.points := by
  rw [Std.ExtTreeMap.mem_iff_isSome_getElem?, Std.ExtTreeMap.mem_toList_iff_getElem?_eq_some.mp h]
  rfl

theorem foldlM_place {start step last : Int} (points : List (Int × Option Float))
    (hstep : 0 < step) (hspan : last - start ≤ Timestamp.highest)
    (hpoints : ∀ p ∈ points, start ≤ p.1 ∧ p.1 ≤ last) :
    points.foldlM (place start step)
        (Array.replicate (Int.tdiv (last - start) step + 1).toNat none)
      = some (layOut start step (Int.tdiv (last - start) step + 1).toNat points) := by
  refine (foldlM_eq_some (fun values : Array (Option Float) =>
    values.size = (Int.tdiv (last - start) step + 1).toNat) ?_ Array.size_replicate).1
  intro p hp values hsize
  obtain ⟨hafter, hbefore⟩ := hpoints p hp
  have haway : 0 ≤ p.1 - start := by omega
  have hslot := Int.tdiv_nonneg haway (Int.le_of_lt hstep)
  have hlast := tdiv_le_tdiv hstep haway (show p.1 - start ≤ last - start by omega)
  refine ⟨?_, by rw [Array.size_setIfInBounds, hsize]⟩
  rw [place, Timestamp.word?_nonneg haway (by omega)]
  exact if_pos ⟨hslot, by omega⟩

variable {s : PointSet} {w : Window}

-- A set with points is laid out from the slot of its first point to that of its last one, if all results
-- on the way fit.
theorem toSeries_of_bounds {first last : Int} (hstep : 0 < s.step)
    (hmin : s.points.minKey? = some first) (hmax : s.points.maxKey? = some last)
    (hbetween : ∀ t ∈ s.points, first ≤ t ∧ t ≤ last)
    (hlow : Timestamp.lowest ≤ first - first % s.step)
    (hhigh : first - first % s.step ≤ Timestamp.highest)
    (hspan : last - (first - first % s.step) ≤ Timestamp.highest)
    (hcount : Int.tdiv (last - (first - first % s.step)) s.step < Timestamp.highest)
    (hafter : first ≤ last) (emptyStart : Int) :
    s.toSeries emptyStart = some (.ofValues s.name (first - first % s.step) s.step
      (layOut (first - first % s.step) s.step
        (Int.tdiv (last - (first - first % s.step)) s.step + 1).toNat s.toList)) := by
  have hwide : max s.step 1 = s.step := by omega
  have hmod := Int.emod_nonneg first (Int.ne_of_gt hstep)
  have hplaced := foldlM_place s.toList hstep hspan fun p hp => by
    have := hbetween p.1 (mem_points_of_mem_toList hp)
    omega
  have hslots := countSlots_eq hstep (show first - first % s.step ≤ last by omega) hspan hcount
  rw [toSeries, hmin, hmax, hwide]
  simp only [Timestamp.word?_eq_some hlow hhigh, hslots, hplaced, Option.bind_eq_bind, Option.bind_some]
  rfl

-- A set with points has a series if the slot of its first point is a timestamp, and the distance from it to
-- the last point and the count of the slots between fit.
theorem isSome_toSeries_iff {first last : Int} (hstep : 0 < s.step)
    (hmin : s.points.minKey? = some first) (hmax : s.points.maxKey? = some last)
    (hbetween : ∀ t ∈ s.points, first ≤ t ∧ t ≤ last) (hafter : first ≤ last) (emptyStart : Int) :
    (s.toSeries emptyStart).isSome ↔
      (Timestamp.lowest ≤ first - first % s.step ∧ first - first % s.step ≤ Timestamp.highest) ∧
      last - (first - first % s.step) ≤ Timestamp.highest ∧
      Int.tdiv (last - (first - first % s.step)) s.step < Timestamp.highest := by
  constructor
  · intro hsome
    have hwide : max s.step 1 = s.step := by omega
    obtain ⟨series, hseries⟩ := Option.isSome_iff_exists.mp hsome
    rw [toSeries, hmin, hmax, hwide] at hseries
    obtain ⟨start, hstart, hseries⟩ := Option.bind_eq_some_iff.mp hseries
    obtain ⟨slots, hslots, -⟩ := Option.bind_eq_some_iff.mp hseries
    obtain ⟨length, hlength, hslots⟩ := Option.bind_eq_some_iff.mp hslots
    obtain ⟨count, hcount, -⟩ := Option.bind_eq_some_iff.mp hslots
    obtain ⟨hfirst, rfl⟩ := Timestamp.word?_eq_some_iff.mp hstart
    obtain ⟨hspan, rfl⟩ := Timestamp.word?_eq_some_iff.mp hlength
    obtain ⟨hslots, rfl⟩ := Timestamp.word?_eq_some_iff.mp hcount
    exact ⟨hfirst, hspan.2, by omega⟩
  · rintro ⟨⟨hlow, hhigh⟩, hspan, hcount⟩
    rw [toSeries_of_bounds hstep hmin hmax hbetween hlow hhigh hspan hcount hafter]
    rfl

theorem size_layOut (start step : Int) (slots : Nat) (points : List (Int × Option Float)) :
    (layOut start step slots points).size = slots := by
  have hfold : ∀ values : Array (Option Float),
      (points.foldl (fun values p =>
        values.setIfInBounds (Int.tdiv (p.1 - start) step).toNat p.2) values).size = values.size := by
    induction points with
    | nil => exact fun _ => rfl
    | cons p points ih =>
        intro values
        rw [List.foldl_cons, ih, Array.size_setIfInBounds]
  rw [layOut, hfold, Array.size_replicate]

theorem toSeries_of_empty (hstep : s.step = w.step) (hnone : s.points = ∅) :
    s.toSeries w.start.toInt
      = (Timestamp.word? w.firstSlot).map fun start => .ofValues s.name start w.step #[] := by
  have hpos := w.step_pos
  have hwide : max s.step 1 = w.step := by omega
  have hmin : s.points.minKey? = none := Std.ExtTreeMap.minKey?_eq_none_iff.mpr hnone
  rw [toSeries, hmin, hwide]
  exact Option.map_eq_bind.symm

theorem fits_of_empty (hstep : s.step = w.step) (hstart : Timestamp.lowest ≤ w.firstSlot)
    (hnone : s.points = ∅) : ∃ series, s.toSeries w.start.toInt = some series ∧ series.Fits w := by
  have hslot := w.firstSlot_le_highest
  have hempty : (Series.ofValues s.name w.firstSlot w.step #[]).grid.slots = 0 := by
    simp [Series.ofValues, Series.grid]
  rw [toSeries_of_empty hstep hnone, Timestamp.word?_eq_some hstart hslot]
  refine ⟨.ofValues s.name w.firstSlot w.step #[], rfl, rfl, Int.dvd_self_sub_emod, hstart, hslot,
    fun hfilled => ?_⟩
  omega

theorem fits_of_filled (hstep : s.step = w.step) (hstart : Timestamp.lowest ≤ w.firstSlot)
    (hpoints : ∀ t ∈ s.points, w.start.toInt ≤ t ∧ t ≤ w.stop.toInt) (hsome : s.points ≠ ∅)
    (hshort : w.stop.toInt - w.firstSlot < Timestamp.highest) :
    ∃ series, s.toSeries w.start.toInt = some series ∧ series.Fits w := by
  have hpos : 0 < s.step := hstep ▸ w.step_pos
  obtain ⟨first, last, hmin, hmax, hfirst, hlast, hbetween⟩ := exists_bounds hsome
  have hmod := Int.emod_nonneg first (Int.ne_of_gt hpos)
  have hstop := (hpoints last hlast).2
  have hhigh := Timestamp.toInt_le_highest w.stop
  have hafter := (hbetween last hlast).1
  have hslot : w.firstSlot ≤ first - first % s.step := by
    rw [hstep]
    exact sub_emod_le_sub_emod w.step_pos (hpoints first hfirst).1
  have hfew := tdiv_le_self (show 0 ≤ last - (first - first % s.step) by omega) s.step
  refine ⟨_, toSeries_of_bounds hpos hmin hmax hbetween (by omega) (by omega) (by omega) (by omega)
    hafter w.start.toInt, ?_⟩
  rw [Series.Fits, Series.grid]
  simp only [Series.ofValues, Array.size_map, size_layOut]
  rw [hstep] at hslot hmod ⊢
  exact Grid.fits_of_last Int.dvd_self_sub_emod (Int.le_trans hstart hslot) hslot (by omega) hstop hshort

-- A set in a window has a series, and that fits.
theorem exists_toSeries (hstep : s.step = w.step) (hstart : Timestamp.lowest ≤ w.firstSlot)
    (hpoints : ∀ t ∈ s.points, w.start.toInt ≤ t ∧ t ≤ w.stop.toInt)
    (hshort : s.points ≠ ∅ → w.stop.toInt - w.firstSlot < Timestamp.highest) :
    ∃ series, s.toSeries w.start.toInt = some series ∧ series.Fits w := by
  by_cases hnone : s.points = ∅
  · exact fits_of_empty hstep hstart hnone
  · exact fits_of_filled hstep hstart hpoints hnone (hshort hnone)

end PointSet

namespace Series

variable {w : Window} {s : Series α}

theorem InRange.instant_bounds (h : s.InRange) {slot : Nat} (hslot : slot < s.values.size) :
    s.start ≤ s.instant slot ∧ s.instant slot ≤ s.stop := by
  have hlast : (slot : Int) ≤ (s.values.size - 1 : Nat) := by omega
  have hbefore := Int.mul_le_mul_of_nonneg_left hlast (Int.le_of_lt h.step)
  have hafter := Int.mul_nonneg (Int.le_of_lt h.step) (Int.natCast_nonneg slot)
  unfold instant stop
  exact ⟨by omega, by omega⟩

theorem InRange.start_le_stop (h : s.InRange) : s.start ≤ s.stop := by
  have hspan := Int.mul_nonneg (Int.le_of_lt h.step) (Int.natCast_nonneg (s.values.size - 1))
  unfold stop
  omega

theorem InRange.instantInWords_eq (h : s.InRange) {slot : Nat} (hslot : slot < s.values.size) :
    s.instantInWords slot = some (s.instant slot) := by
  obtain ⟨hafter, hbefore⟩ := h.instant_bounds hslot
  have hlow := h.lowest
  have hhigh := h.highest
  have hspan := h.span
  unfold instant at hafter hbefore
  rw [instantInWords, Timestamp.word?_nonneg (by omega) (by omega)]
  exact Timestamp.word?_eq_some (by omega) (by omega)

theorem pointsInWords_eq (h : 0 < s.values.size → s.InRange) : s.pointsInWords = some s.points := by
  apply mapM_eq_some
  rintro ⟨value, slot⟩ hmem
  have hslot := (List.mem_zipIdx' hmem).1
  rw [Array.length_toList] at hslot
  simp only [(h (Nat.zero_lt_of_lt hslot)).instantInWords_eq hslot]
  rfl

theorem Fits.inRange (h : s.Fits w) (hslots : 0 < s.values.size) : s.InRange := by
  obtain ⟨hfirst, hlast, hshort⟩ := h.inside hslots
  have hhigh := Timestamp.toInt_le_highest w.stop
  have hstop : s.stop ≤ w.stop.toInt := hlast
  have hstart : w.firstSlot ≤ s.start := hfirst
  exact ⟨Int.lt_of_lt_of_le w.step_pos (Int.le_of_eq h.step.symm), h.lowest, by omega, by omega⟩

theorem Fits.instantInWords_eq (h : s.Fits w) {slot : Nat} (hslot : slot < s.values.size) :
    s.instantInWords slot = some (s.instant slot) :=
  (h.inRange (Nat.zero_lt_of_lt hslot)).instantInWords_eq hslot

theorem Fits.pointsInWords_eq (h : s.Fits w) : s.pointsInWords = some s.points :=
  Series.pointsInWords_eq h.inRange

end Series

end Cadence
