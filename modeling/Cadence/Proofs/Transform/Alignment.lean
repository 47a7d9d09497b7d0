import Cadence.Proofs.Transform.Builtin
import Cadence.Proofs.Transform.Slots

namespace Cadence

variable {α : Type} {w : Window}

-- A grid of a window: it begins on a multiple of the step, with the window's first slot if it has no slots,
-- and no slot lies outside the window.
structure Grid.Aligned (w : Window) (g : Grid) : Prop where
  step : g.step = w.step
  multiple : w.step ∣ g.start
  unfilled : g.slots = 0 → g.start = w.firstSlot
  inside : ∀ slot < g.slots,
    w.start.toInt ≤ g.start + g.step * slot ∧ g.start + g.step * slot ≤ w.stop.toInt

theorem Grid.aligned_of_unfilled {start : Int} (hmultiple : w.step ∣ start) (hstart : start = w.firstSlot) :
    Grid.Aligned w ⟨start, w.step, 0⟩ :=
  ⟨rfl, hmultiple, fun _ => hstart, fun slot hslot => absurd hslot (Nat.not_lt_zero slot)⟩

theorem Grid.aligned_of_ends {start last : Int} (hmultiple : w.step ∣ start)
    (hstart : w.start.toInt ≤ start) (hafter : start ≤ last) (hstop : last ≤ w.stop.toInt) :
    Grid.Aligned w ⟨start, w.step, (Int.tdiv (last - start) w.step + 1).toNat⟩ := by
  have hlength : 0 ≤ last - start := by omega
  have hcount := Int.tdiv_nonneg hlength (Int.le_of_lt w.step_pos)
  have hend := mul_tdiv_le w.step_pos hlength
  refine ⟨rfl, hmultiple, fun hnone => ?_, fun slot hslot => ?_⟩
  · dsimp only at hnone
    omega
  · have hle : (slot : Int) ≤ Int.tdiv (last - start) w.step := by
      dsimp only at hslot
      omega
    have hnonneg := Int.mul_nonneg (Int.le_of_lt w.step_pos) (Int.natCast_nonneg slot)
    have hmul := Int.mul_le_mul_of_nonneg_left hle (Int.le_of_lt w.step_pos)
    dsimp only
    exact ⟨by omega, by omega⟩

-- Between the ends of a grid each multiple of the step from its start is a slot.
theorem Grid.exists_slot {start step last t : Int} (hpos : 0 < step) (hdvd : step ∣ t - start)
    (hafter : start ≤ t) (hbefore : t ≤ last) :
    ∃ slot < (Int.tdiv (last - start) step + 1).toNat, t = start + step * slot := by
  obtain ⟨slot, hslot⟩ := exists_inSlot hpos hafter
  exact ⟨slot, hslot.lt_slots hpos hbefore, (inSlot_iff_eq_of_dvd hpos hdvd).mp hslot⟩

theorem Grid.Aligned.lowest_le {g : Grid} (h : g.Aligned w) (hlow : Timestamp.lowest ≤ w.firstSlot) :
    Timestamp.lowest ≤ g.start := by
  by_cases hslots : g.slots = 0
  · rw [h.unfilled hslots]
    exact hlow
  · have hfirst := (h.inside 0 (Nat.pos_of_ne_zero hslots)).1
    have hstart := Timestamp.lowest_le_toInt w.start
    simp only [Int.natCast_zero, Int.mul_zero, Int.add_zero] at hfirst
    omega

namespace Series

variable {s : Series α}

theorem aligned_instant (h : s.grid.Aligned w) (slot : Nat) : w.step ∣ s.instant slot := by
  rw [instant, show s.step = w.step from h.step]
  exact Int.dvd_add h.multiple (Int.dvd_mul_right _ _)

theorem instant_zero (s : Series α) : s.instant 0 = s.start := by simp [instant]

theorem instant_le_instant (hstep : 0 < s.step) {slot slot' : Nat} (hle : slot ≤ slot') :
    s.instant slot ≤ s.instant slot' := by
  have hmul := Int.mul_le_mul_of_nonneg_left (Int.ofNat_le.mpr hle) (Int.le_of_lt hstep)
  unfold instant
  omega

end Series

namespace PointSet

-- The series of a set whose points lie in the window, on multiples of its step.
theorem toSeries_aligned {set : PointSet} {series : Series Float} (hstep : set.step = w.step)
    (hpoints : ∀ t ∈ set.points, w.start.toInt ≤ t ∧ t ≤ w.stop.toInt ∧ w.step ∣ t)
    (h : set.toSeries w.start.toInt = some series) : series.grid.Aligned w := by
  by_cases hnone : set.points = ∅
  · rw [toSeries_of_empty hstep hnone] at h
    obtain ⟨start, hstart, rfl⟩ := Option.map_eq_some_iff.mp h
    obtain ⟨-, rfl⟩ := Timestamp.word?_eq_some_iff.mp hstart
    have hgrid : (Series.ofValues set.name w.firstSlot w.step #[]).grid = ⟨w.firstSlot, w.step, 0⟩ := by
      simp [Series.grid, Series.ofValues]
    rw [hgrid]
    exact Grid.aligned_of_unfilled Int.dvd_self_sub_emod rfl
  · obtain ⟨first, last, hmin, hmax, hfirst, hlast, hbetween⟩ := exists_bounds hnone
    obtain ⟨hstart, -, hmultiple⟩ := hpoints first hfirst
    obtain ⟨-, hstop, -⟩ := hpoints last hlast
    have hafter := (hbetween last hlast).1
    have hpos : 0 < set.step := hstep ▸ w.step_pos
    have hfits := (isSome_toSeries_iff hpos hmin hmax hbetween hafter w.start.toInt).mp (by rw [h]; rfl)
    rw [toSeries_of_bounds hpos hmin hmax hbetween hfits.1.1 hfits.1.2 hfits.2.1 hfits.2.2 hafter] at h
    have hslot : first - first % set.step = first := by
      rw [hstep, Int.emod_eq_zero_of_dvd hmultiple, Int.sub_zero]
    rw [hslot] at h
    have hgrid : series.grid = ⟨first, w.step, (Int.tdiv (last - first) w.step + 1).toNat⟩ := by
      rw [← Option.some.inj h]
      simp only [hstep, Series.grid, Series.ofValues, Array.size_map, size_layOut]
    rw [hgrid]
    exact Grid.aligned_of_ends hmultiple hstart hafter hstop

end PointSet

theorem lookup_of_mem {points : List (Int × Option α)} (hapart : points.Pairwise (·.1 ≠ ·.1))
    {p : Int × Option α} (hp : p ∈ points) : points.lookup p.1 = some p.2 := by
  obtain ⟨before, after, rfl⟩ := List.append_of_mem hp
  refine List.lookup_eq_some_iff.mpr ⟨before, after, rfl, fun q hq => ?_⟩
  have hne := (List.pairwise_append.mp hapart).2.2 q hq p List.mem_cons_self
  simpa using Ne.symm hne

theorem Series.pairwise_points (s : Series α) (hstep : 0 < s.step) : s.points.Pairwise (·.1 ≠ ·.1) := by
  have hslots : (s.values.toList.zipIdx.map Prod.snd).Pairwise (· < ·) := by
    rw [List.zipIdx_map_snd]
    exact List.pairwise_lt_range'
  rw [points, List.pairwise_map]
  refine (List.pairwise_map.mp hslots).imp fun {p q} hlt => ?_
  have hmul := Int.mul_lt_mul_of_pos_left (Int.ofNat_lt.mpr hlt) hstep
  unfold instant
  simp only [ne_eq]
  omega

namespace Grid

variable [Quantity α]

def buckets (g : Grid) (s : Series α) : Array (Bucket α) :=
  s.points.foldl g.addPoint (Array.replicate g.slots (Quantity.zero, 0))

def bucketOf : Option α → Bucket α
  | some x => (Quantity.add Quantity.zero x, 1)
  | none => (Quantity.zero, 0)

-- A grid on which no series is resampled: it has their step, each point goes into the bucket of its own
-- instant, whose mean is that of the point alone, and no bucket takes more than one.
structure Keeps (g : Grid) (series : List (Series α)) : Prop where
  step : ∀ s ∈ series, s.step = g.step
  own : ∀ s ∈ series, ∀ p ∈ s.points, ∃ k < g.slots, p.1 = g.start + g.step * k ∧
    (g.buckets s)[k]? = some (bucketOf p.2) ∧
    (g.means s)[k]? = some (p.2.map fun x => Quantity.divide (Quantity.add Quantity.zero x) 1)
  single : ∀ s ∈ series, ∀ bucket ∈ g.buckets s, bucket.2 ≤ 1

theorem means_eq (g : Grid) (s : Series α) :
    g.means s = (g.buckets s).map fun b => if b.2 = 0 then none else some (Quantity.divide b.1 b.2) :=
  rfl

variable {g : Grid}

theorem getElem?_means {s : Series α} {k : Nat} {value : Option α}
    (h : (g.buckets s)[k]? = some (bucketOf value)) :
    (g.means s)[k]? = some (value.map fun x => Quantity.divide (Quantity.add Quantity.zero x) 1) := by
  rw [means_eq, Array.getElem?_map, h]
  cases value <;> rfl

omit [Quantity α] in
theorem valuesIn_eq_lookup (hstep : 0 < g.step) {points : List (Int × Option α)}
    (hslots : ∀ p ∈ points, ∃ slot : Nat, p.1 = g.start + g.step * slot)
    (hapart : points.Pairwise (·.1 ≠ ·.1)) (k : Nat) :
    g.valuesIn k points = (points.lookup (g.start + g.step * k)).join.toList := by
  induction points with
  | nil => rfl
  | cons p points ih =>
      obtain ⟨hfirst, hrest⟩ := List.pairwise_cons.mp hapart
      obtain ⟨slot, hslot⟩ := hslots p List.mem_cons_self
      have hown : InSlot g.start g.step k p.1 ↔ p.1 = g.start + g.step * k := by
        refine inSlot_iff_eq_of_dvd hstep ⟨slot, ?_⟩
        omega
      rw [valuesIn_cons, valuesIn_singleton, ih (fun q hq => hslots q (List.mem_cons_of_mem _ hq)) hrest,
        List.lookup_cons]
      by_cases hk : p.1 = g.start + g.step * k
      · have hnone : points.lookup (g.start + g.step * k) = none := by
          rw [List.lookup_eq_none_iff]
          intro q hq
          simpa [← hk] using hfirst q hq
        rw [if_pos (hown.mpr hk)]
        simp [hk, hnone]
      · have hbeq : (g.start + g.step * (k : Int) == p.1) = false := by
          simpa using Ne.symm hk
        rw [if_neg (mt hown.mp hk), hbeq]
        rfl

theorem getElem?_foldl_addPoint (hstep : 0 < g.step) {points : List (Int × Option α)}
    (hslots : ∀ p ∈ points, ∃ slot : Nat, p.1 = g.start + g.step * slot)
    (hapart : points.Pairwise (·.1 ≠ ·.1)) (buckets : Array (Bucket α)) (k : Nat) :
    (points.foldl g.addPoint buckets)[k]?
      = buckets[k]?.map fun b =>
          match (points.lookup (g.start + g.step * k)).join with
          | none => b
          | some x => (Quantity.add b.1 x, b.2 + 1) := by
  have hafter : ∀ p ∈ points, g.start ≤ p.1 := by
    intro p hp
    obtain ⟨slot, hslot⟩ := hslots p hp
    have hnonneg := Int.mul_nonneg (Int.le_of_lt hstep) (Int.natCast_nonneg slot)
    omega
  rw [getElem?_addPoints hstep hafter, valuesIn_eq_lookup hstep hslots hapart]
  cases (points.lookup (g.start + g.step * k)).join <;> rfl

-- A grid that has the step of some series and a slot for each of their instants keeps them.
theorem keeps_of_covers {series : List (Series α)} (hpos : 0 < g.step)
    (hstep : ∀ s ∈ series, s.step = g.step)
    (hcovers : ∀ s ∈ series, ∀ slot < s.values.size,
      ∃ k < g.slots, s.instant slot = g.start + g.step * k) : g.Keeps series := by
  have hslots : ∀ s ∈ series, ∀ p ∈ s.points, ∃ k < g.slots, p.1 = g.start + g.step * k := by
    intro s hs p hp
    obtain ⟨⟨value, slot⟩, hslot, rfl⟩ := List.mem_map.mp hp
    have hlt := (List.mem_zipIdx' hslot).1
    rw [Array.length_toList] at hlt
    exact hcovers s hs slot hlt
  have hapart : ∀ s ∈ series, s.points.Pairwise (·.1 ≠ ·.1) := fun s hs =>
    s.pairwise_points (hstep s hs ▸ hpos)
  have hbucket : ∀ s ∈ series, ∀ k < g.slots,
      (g.buckets s)[k]? = some (bucketOf (s.points.lookup (g.start + g.step * k)).join) := by
    intro s hs k hk
    have hinstants : ∀ p ∈ s.points, ∃ slot : Nat, p.1 = g.start + g.step * slot := by
      intro p hp
      obtain ⟨slot, -, hinstant⟩ := hslots s hs p hp
      exact ⟨slot, hinstant⟩
    rw [buckets, getElem?_foldl_addPoint hpos hinstants (hapart s hs), Array.getElem?_replicate,
      if_pos hk, Option.map_some]
    cases (s.points.lookup (g.start + g.step * k)).join <;> simp [bucketOf]
  refine ⟨hstep, fun s hs p hp => ?_, fun s hs bucket hmem => ?_⟩
  · obtain ⟨k, hk, hinstant⟩ := hslots s hs p hp
    have hown : (g.buckets s)[k]? = some (bucketOf p.2) := by
      rw [hbucket s hs k hk, ← hinstant, lookup_of_mem (hapart s hs) hp]
      rfl
    exact ⟨k, hk, hinstant, hown, getElem?_means hown⟩
  · obtain ⟨k, hk, rfl⟩ := Array.mem_iff_getElem.mp hmem
    have hsize : (g.buckets s).size = g.slots := by
      rw [buckets, size_foldl_addPoint, Array.size_replicate]
    have hown := hbucket s hs k (hsize ▸ hk)
    rw [Array.getElem?_eq_getElem hk] at hown
    rw [Option.some.inj hown]
    cases (s.points.lookup (g.start + g.step * k)).join <;> simp [bucketOf]

variable {series : List (Series α)}

omit [Quantity α] in
theorem commonStep_eq (h : ∀ s ∈ series, s.grid.Aligned w) (hne : series ≠ []) :
    commonStep series = w.step :=
  commonStep_of_window (fun s hs => (h s hs).step) hne

theorem unfilled_aligned (h : ∀ s ∈ series, s.grid.Aligned w) (hnone : filled series = [])
    {s : Series α} (hs : s ∈ series) :
    Grid.Aligned w ⟨s.start, w.step, 0⟩ ∧ Keeps ⟨s.start, w.step, 0⟩ series := by
  have hempty : ∀ t ∈ series, t.values.size = 0 := by
    intro t ht
    by_contra hslots
    have hmem := mem_filled.mpr ⟨ht, Nat.pos_of_ne_zero hslots⟩
    rw [hnone] at hmem
    cases hmem
  refine ⟨aligned_of_unfilled (h s hs).multiple ((h s hs).unfilled (hempty s hs)), ?_⟩
  refine keeps_of_covers w.step_pos (fun t ht => (h t ht).step) fun t ht slot hslot => ?_
  rw [hempty t ht] at hslot
  cases hslot

omit [Quantity α] in
-- The instants of aligned series lie between the first start and the last stop of those that have slots.
theorem instant_between {s r : Series α} (h : ∀ s ∈ series, s.grid.Aligned w)
    (hends : ∀ t ∈ filled series, s.start ≤ t.start ∧ t.stop ≤ r.stop) {t : Series α} (ht : t ∈ series)
    {slot : Nat} (hslot : slot < t.values.size) :
    s.start ≤ t.instant slot ∧ t.instant slot ≤ r.stop := by
  obtain ⟨hfirst, hlast⟩ := hends t (mem_filled.mpr ⟨ht, Nat.zero_lt_of_lt hslot⟩)
  have hstep : 0 < t.step :=
    calc 0 < w.step := w.step_pos
      _ = t.step := (h t ht).step.symm
  have hafter := Series.instant_le_instant hstep (Nat.zero_le slot)
  have hbefore := Series.instant_le_instant hstep (Nat.le_sub_one_of_lt hslot)
  rw [Series.instant_zero] at hafter
  exact ⟨Int.le_trans hfirst hafter, Int.le_trans hbefore hlast⟩

theorem filled_aligned {s r : Series α} (h : ∀ s ∈ series, s.grid.Aligned w) (hs : s ∈ filled series)
    (hr : r ∈ filled series) (hends : ∀ t ∈ filled series, s.start ≤ t.start ∧ t.stop ≤ r.stop) :
    Grid.Aligned w ⟨s.start, w.step, (Int.tdiv (r.stop - s.start) w.step + 1).toNat⟩ ∧
      Keeps ⟨s.start, w.step, (Int.tdiv (r.stop - s.start) w.step + 1).toNat⟩ series := by
  obtain ⟨hs, hslots⟩ := mem_filled.mp hs
  obtain ⟨hr, hslots'⟩ := mem_filled.mp hr
  have hlast := Nat.sub_one_lt_of_lt hslots'
  have hstart : w.start.toInt ≤ s.start := by
    have hfirst : w.start.toInt ≤ s.instant 0 := ((h s hs).inside 0 hslots).1
    rwa [Series.instant_zero] at hfirst
  have hstop : r.stop ≤ w.stop.toInt := ((h r hr).inside _ hlast).2
  refine ⟨aligned_of_ends (h s hs).multiple hstart (instant_between h hends hr hlast).1 hstop, ?_⟩
  refine keeps_of_covers w.step_pos (fun t ht => (h t ht).step) fun t ht slot hslot => ?_
  obtain ⟨hafter, hbefore⟩ := instant_between h hends ht hslot
  have hdvd := Int.dvd_sub (Series.aligned_instant (h t ht) slot) (h s hs).multiple
  exact exists_slot w.step_pos hdvd hafter hbefore

-- The grid of aligned series is aligned and keeps all of them.
theorem ofSeries_aligned (h : ∀ s ∈ series, s.grid.Aligned w) (hne : series ≠ [])
    (hlow : Timestamp.lowest ≤ w.firstSlot) :
    (ofSeries series).Aligned w ∧ (ofSeries series).Keeps series := by
  have hfloor : ∀ s ∈ series, floorTo s.start w.step = s.start :=
    fun s hs => floorTo_of_dvd (h s hs).multiple ((h s hs).lowest_le hlow)
  rcases ofSeries_eq hne with ⟨hnone, s, hs, -, hgrid⟩ | ⟨s, hs, r, hr, hends, hgrid⟩
  · rw [hgrid, commonStep_eq h hne, hfloor s hs]
    exact unfilled_aligned h hnone hs
  · rw [hgrid, commonStep_eq h hne, hfloor s (mem_filled.mp hs).1]
    exact filled_aligned h hs hr hends

end Grid

-- An aggregation of aligned series is aligned.
theorem Builtin.aligned_combine {function : String} {a : Aggregation} {args : List Argument}
    {series : List (Series Float)} (hlow : Timestamp.lowest ≤ w.firstSlot)
    (hargs : ∀ b ∈ args, b.On (Grid.Aligned w)) (h : combine function a args = .ok series) :
    ∀ s ∈ series, s.grid.Aligned w := by
  unfold combine at h
  obtain ⟨list, hlist, h⟩ := exists_of_bind_eq_ok h
  have haligned := on_allSeries hargs hlist
  split at h
  · obtain rfl : [] = series := Except.ok.inj h
    exact fun _ hs => absurd hs List.not_mem_nil
  · rename_i first rest
    have hcombined := Except.ok.inj h
    subst hcombined
    intro s hs
    rw [List.mem_singleton.mp hs, Series.grid, aggregate]
    simp only [Array.size_map, Array.size_range]
    exact (Grid.ofSeries_aligned haligned (List.cons_ne_nil first rest) hlow).1

-- Of the built-in functions none makes another grid from aligned series.
theorem Registry.builtin_aligned (hlow : Timestamp.lowest ≤ w.firstSlot) :
    Registry.builtin.Agrees (Grid.Aligned w) .builtin :=
  agrees_of_combine fun _ _ => Transform.agrees_ofChecked (Builtin.aligned_combine hlow)

end Cadence
