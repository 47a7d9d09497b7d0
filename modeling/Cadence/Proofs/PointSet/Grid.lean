import Cadence.Proofs.PointMap
import Cadence.Proofs.Transform.Slots

namespace Cadence

namespace PointSet

-- What a set holds at an instant, if it is a number.
def value? (s : PointSet) (t : Int) : Option Float := s.points[t]?.join.bind defined

-- A series that lays out a set on the multiples of its step. Its slots go from that of the first point to
-- that of the last one, and each holds what the set holds at the latest instant in it.
structure LaidOut (s : PointSet) (series : Series Float) : Prop where
  name : series.name = s.name
  step : series.step = s.step
  start : ∃ first ∈ s.points, (∀ t ∈ s.points, first ≤ t) ∧ series.start = first - first % s.step
  stop : ∃ last ∈ s.points, (∀ t ∈ s.points, t ≤ last) ∧
    0 < series.values.size ∧ series.InSlot (series.values.size - 1) last
  filled : ∀ slot, ∀ t ∈ s.points, series.InSlot slot t →
    (∀ u ∈ s.points, series.InSlot slot u → u ≤ t) → series.values[slot]? = some (s.value? t)
  unfilled : ∀ slot < series.values.size,
    (∀ t ∈ s.points, ¬series.InSlot slot t) → series.values[slot]? = some none

def slotOf (start step : Int) (p : Int × Option Float) : Nat := (Int.tdiv (p.1 - start) step).toNat

theorem getElem?_foldl_setIfInBounds (start step : Int) (points : List (Int × Option Float))
    (values : Array (Option Float)) (slot : Nat) :
    (points.foldl (fun values p => values.setIfInBounds (slotOf start step p) p.2) values)[slot]?
      = values[slot]?.map fun old =>
          (lastUnder (slotOf start step) Prod.snd slot points).getD old := by
  induction points generalizing values with
  | nil => simp [lastUnder, lastSome_nil]
  | cons p points ih =>
      rw [List.foldl_cons, ih, lastUnder_cons, Array.getElem?_setIfInBounds]
      by_cases hp : slotOf start step p = slot
      · subst hp
        by_cases hin : slotOf start step p < values.size
        · simp [hin]
        · simp [hin]
      · simp [hp]

theorem getElem?_layOut {start step : Int} {slots slot : Nat} (h : slot < slots)
    (points : List (Int × Option Float)) :
    (layOut start step slots points)[slot]?
      = some ((lastUnder (slotOf start step) Prod.snd slot points).getD none) := by
  have hfold := getElem?_foldl_setIfInBounds start step points (Array.replicate slots none) slot
  rwa [Array.getElem?_replicate, if_pos h, Option.map_some] at hfold

variable {s : PointSet} {start step : Int}

theorem pairwise_toList (s : PointSet) : s.toList.Pairwise (·.1 < ·.1) := by
  have hordered := Std.ExtTreeMap.ordered_keys_toList (t := s.points)
  exact hordered.imp fun hlt => compareOfLessAndEq_eq_lt.mp hlt

-- The value at the latest instant of a set in a slot is that of the last point that falls into it.
theorem lastUnder_slotOf (hstep : 0 < step) (hstart : ∀ t ∈ s.points, start ≤ t) {slot : Nat} {t : Int}
    {value : Option Float} (ht : s.points[t]? = some value) (hslot : Cadence.InSlot start step slot t)
    (hlatest : ∀ u ∈ s.points, Cadence.InSlot start step slot u → u ≤ t) :
    lastUnder (slotOf start step) Prod.snd slot s.toList = some value := by
  have hmem := Std.ExtTreeMap.mem_toList_iff_getElem?_eq_some.mpr ht
  obtain ⟨before, after, hsplit⟩ := List.append_of_mem hmem
  have hordered := s.pairwise_toList
  rw [toList, hsplit, List.pairwise_append] at hordered
  have hafter := (List.pairwise_cons.mp hordered.2.1).1
  have hfalls := (inSlot_iff hstep (hslot.start_le hstep) slot).mp hslot
  refine (lastUnder_eq_some_iff_append _ _ _ _ _).mpr ⟨before, (t, value), after, hsplit, hfalls, ?_, rfl⟩
  intro p hp hfalls
  have hpoint : p.1 ∈ s.points := by
    apply mem_points_of_mem_toList
    rw [toList, hsplit]
    exact List.mem_append_right _ (List.mem_cons_of_mem _ hp)
  have hle := hlatest p.1 hpoint ((inSlot_iff hstep (hstart p.1 hpoint) slot).mpr hfalls)
  have hlt := hafter p hp
  omega

theorem lastUnder_slotOf_eq_none (hstep : 0 < step) (hstart : ∀ t ∈ s.points, start ≤ t) {slot : Nat}
    (hnone : ∀ t ∈ s.points, ¬Cadence.InSlot start step slot t) :
    lastUnder (slotOf start step) Prod.snd slot s.toList = none := by
  rw [lastUnder_eq_none_iff]
  intro p hp hfalls
  have hpoint := mem_points_of_mem_toList hp
  exact hnone p.1 hpoint ((inSlot_iff hstep (hstart p.1 hpoint) slot).mpr hfalls)

theorem getElem?_ofValues_layOut {slots slot : Nat} (h : slot < slots) :
    (Series.ofValues s.name start step (layOut start step slots s.toList)).values[slot]?
      = some (((lastUnder (slotOf start step) Prod.snd slot s.toList).getD none).bind defined) := by
  rw [Series.ofValues, Array.getElem?_map, getElem?_layOut h, Option.map_some]

theorem laidOut_ofValues {first last : Int} (hstep : 0 < s.step) (hfirst : first ∈ s.points)
    (hlast : last ∈ s.points) (hbetween : ∀ t ∈ s.points, first ≤ t ∧ t ≤ last)
    (hslot : start = first - first % s.step) :
    s.LaidOut (.ofValues s.name start s.step
      (layOut start s.step (Int.tdiv (last - start) s.step + 1).toNat s.toList)) := by
  have hstart : ∀ t ∈ s.points, start ≤ t := fun t ht => by
    have hmod := Int.emod_nonneg first (Int.ne_of_gt hstep)
    have hle := (hbetween t ht).1
    omega
  obtain ⟨hslots, hend⟩ := inSlot_last hstep (hstart last hlast)
  have hlt : ∀ slot, ∀ t ∈ s.points, Cadence.InSlot start s.step slot t →
      slot < (Int.tdiv (last - start) s.step + 1).toNat := fun slot t ht hin =>
    hin.lt_slots hstep (hbetween t ht).2
  -- from here on only these facts on the count of the slots are used
  generalize (Int.tdiv (last - start) s.step + 1).toNat = slots at *
  have hsize : (Series.ofValues s.name start s.step
      (layOut start s.step slots s.toList)).values.size = slots := by
    rw [Series.ofValues, Array.size_map, size_layOut]
  refine ⟨rfl, rfl, ⟨first, hfirst, fun t ht => (hbetween t ht).1, hslot⟩,
    ⟨last, hlast, fun t ht => (hbetween t ht).2, ?_⟩, ?_, ?_⟩
  · rw [hsize]
    exact ⟨hslots, hend⟩
  · intro slot t ht hin hlatest
    obtain ⟨value, hpoint⟩ := Option.isSome_iff_exists.mp (Std.ExtTreeMap.mem_iff_isSome_getElem?.mp ht)
    rw [getElem?_ofValues_layOut (hlt slot t ht hin), lastUnder_slotOf hstep hstart hpoint hin hlatest,
      value?, hpoint]
    rfl
  · intro slot hlt hnone
    rw [hsize] at hlt
    rw [getElem?_ofValues_layOut hlt, lastUnder_slotOf_eq_none hstep hstart hnone]
    rfl

theorem laidOut_toSeries (hstep : 0 < s.step) (hsome : s.points ≠ ∅) {emptyStart : Int}
    {series : Series Float} (h : s.toSeries emptyStart = some series) : s.LaidOut series := by
  obtain ⟨first, last, hmin, hmax, hfirst, hlast, hbetween⟩ := exists_bounds hsome
  have hafter := (hbetween last hlast).1
  obtain ⟨⟨hlow, hhigh⟩, hspan, hcount⟩ :=
    (isSome_toSeries_iff hstep hmin hmax hbetween hafter emptyStart).mp (by rw [h]; rfl)
  rw [toSeries_of_bounds hstep hmin hmax hbetween hlow hhigh hspan hcount hafter] at h
  rw [← Option.some.inj h]
  exact laidOut_ofValues hstep hfirst hlast hbetween rfl

namespace LaidOut

variable {series : Series Float} (h : s.LaidOut series) (hstep : 0 < s.step)
include h hstep

theorem step_pos : 0 < series.step := by
  rw [h.step]
  exact hstep

variable (hdvd : ∀ t ∈ s.points, s.step ∣ t)
include hdvd

-- Where all instants are multiples of the step, a point falls into the slot that begins at its instant.
theorem inSlot_iff {t : Int} (ht : t ∈ s.points) (slot : Nat) :
    series.InSlot slot t ↔ t = series.instant slot := by
  obtain ⟨first, -, -, hstart⟩ := h.start
  refine inSlot_iff_eq_of_dvd (h.step_pos hstep) ?_
  rw [h.step, hstart]
  exact Int.dvd_sub (hdvd t ht) Int.dvd_self_sub_emod

-- No other point falls into that slot.
theorem value_eq {t : Int} (ht : t ∈ s.points) {slot : Nat} (hslot : t = series.instant slot) :
    series.values[slot]? = some (s.value? t) := by
  refine h.filled slot t ht ((h.inSlot_iff hstep hdvd ht slot).mpr hslot) fun u hu hin => ?_
  rw [(h.inSlot_iff hstep hdvd hu slot).mp hin, hslot]

theorem exists_slot {t : Int} (ht : t ∈ s.points) : ∃ slot : Nat, t = series.instant slot := by
  obtain ⟨first, -, hleast, hstart⟩ := h.start
  have hafter : series.start ≤ t := by
    have hmod := Int.emod_nonneg first (Int.ne_of_gt hstep)
    have hle := hleast t ht
    omega
  obtain ⟨slot, hslot⟩ := exists_inSlot (h.step_pos hstep) hafter
  exact ⟨slot, (h.inSlot_iff hstep hdvd ht slot).mp hslot⟩

theorem mem_points_iff (t : Int) (x : Float) : (t, some x) ∈ series.points ↔ s.value? t = some x := by
  rw [Series.mem_points_iff]
  constructor
  · rintro ⟨slot, hslot, rfl⟩
    by_cases hmem : series.instant slot ∈ s.points
    · exact Option.some.inj ((h.value_eq hstep hdvd hmem rfl).symm.trans hslot)
    · have hnone : ∀ u ∈ s.points, ¬series.InSlot slot u := fun u hu hin =>
        hmem ((h.inSlot_iff hstep hdvd hu slot).mp hin ▸ hu)
      have hlt : slot < series.values.size := (Array.getElem?_eq_some_iff.mp hslot).1
      rw [h.unfilled slot hlt hnone] at hslot
      cases hslot
  · intro hx
    have hmem : t ∈ s.points := by
      rw [Std.ExtTreeMap.mem_iff_isSome_getElem?]
      cases hpoint : s.points[t]? with
      | none => simp [value?, hpoint] at hx
      | some value => rfl
    obtain ⟨slot, hslot⟩ := h.exists_slot hstep hdvd hmem
    exact ⟨slot, by rw [h.value_eq hstep hdvd hmem hslot, hx], hslot.symm⟩

end LaidOut

theorem ne_empty_of_mem {t : Int} (h : t ∈ s.points) : s.points ≠ ∅ := by
  intro hnone
  rw [hnone] at h
  exact Std.ExtTreeMap.not_mem_empty h

end PointSet

end Cadence
