import Cadence.Proofs.Transform.Words

namespace Cadence

-- Whether an instant falls into a slot of the grid that begins at `start`.
def InSlot (start step : Int) (slot : Nat) (t : Int) : Prop :=
  start + step * slot ≤ t ∧ t < start + step * (slot + 1)

instance (start step : Int) (slot : Nat) (t : Int) : Decidable (InSlot start step slot t) :=
  inferInstanceAs (Decidable (_ ∧ _))

def Series.InSlot {α : Type} (s : Series α) (slot : Nat) (t : Int) : Prop :=
  Cadence.InSlot s.start s.step slot t

variable {start step t last : Int} {slot : Nat}

theorem inSlot_iff (hstep : 0 < step) (hafter : start ≤ t) (slot : Nat) :
    InSlot start step slot t ↔ (Int.tdiv (t - start) step).toNat = slot := by
  have haway : 0 ≤ t - start := by omega
  have hfloor := Int.ediv_nonneg haway (Int.le_of_lt hstep)
  have hquotient : (t - start) / step = slot ↔ InSlot start step slot t := by
    rw [InSlot, Int.ediv_eq_iff_of_pos hstep, Int.mul_add, Int.mul_one, Int.mul_comm step]
    omega
  rw [← hquotient, Int.tdiv_eq_ediv_of_nonneg haway]
  omega

theorem InSlot.start_le (h : InSlot start step slot t) (hstep : 0 < step) : start ≤ t := by
  have hslot := Int.mul_nonneg (Int.le_of_lt hstep) (Int.natCast_nonneg slot)
  have hafter := h.1
  omega

theorem InSlot.slot_eq {slot' : Nat} (hstep : 0 < step) (h : InSlot start step slot t)
    (h' : InSlot start step slot' t) : slot = slot' := by
  have hafter := h.start_le hstep
  rw [inSlot_iff hstep hafter] at h h'
  rw [← h, h']

-- A grid that ends with the slot of an instant has the slots of all instants before it.
theorem InSlot.lt_slots (hstep : 0 < step) (h : InSlot start step slot t) (hbefore : t ≤ last) :
    slot < (Int.tdiv (last - start) step + 1).toNat := by
  have hafter := h.start_le hstep
  rw [inSlot_iff hstep hafter] at h
  have hle := tdiv_le_tdiv hstep (show 0 ≤ t - start by omega) (show t - start ≤ last - start by omega)
  have hslot := Int.tdiv_nonneg (show 0 ≤ t - start by omega) (Int.le_of_lt hstep)
  omega

theorem exists_inSlot (hstep : 0 < step) (hafter : start ≤ t) : ∃ slot, InSlot start step slot t :=
  ⟨_, (inSlot_iff hstep hafter _).mpr rfl⟩

theorem inSlot_last (hstep : 0 < step) (hafter : start ≤ last) :
    0 < (Int.tdiv (last - start) step + 1).toNat ∧
      InSlot start step ((Int.tdiv (last - start) step + 1).toNat - 1) last := by
  have hslots := Int.tdiv_nonneg (show 0 ≤ last - start by omega) (Int.le_of_lt hstep)
  refine ⟨by omega, (inSlot_iff hstep hafter _).mpr ?_⟩
  omega

-- Each instant between the ends of a grid falls into exactly one of its slots.
theorem existsUnique_slot (hstep : 0 < step) (hafter : start ≤ t) (hbefore : t ≤ last) :
    ∃! slot, slot < (Int.tdiv (last - start) step + 1).toNat ∧ InSlot start step slot t := by
  obtain ⟨slot, hslot⟩ := exists_inSlot hstep hafter
  exact ⟨slot, ⟨hslot.lt_slots hstep hbefore, hslot⟩, fun other hother => hother.2.slot_eq hstep hslot⟩

-- Of the multiples of the step only the first instant of a slot falls into it.
theorem inSlot_iff_eq_of_dvd (hstep : 0 < step) (hdvd : step ∣ t - start) :
    InSlot start step slot t ↔ t = start + step * slot := by
  obtain ⟨k, hk⟩ := hdvd
  constructor
  · rintro ⟨hafter, hbefore⟩
    have hlow : step * slot ≤ step * k := by omega
    have hhigh : step * k < step * (slot + 1) := by omega
    have hfirst := Int.le_of_mul_le_mul_left hlow hstep
    have hnext := Int.lt_of_mul_lt_mul_left hhigh (Int.le_of_lt hstep)
    have heq : k = slot := by omega
    rw [← heq, ← hk]
    omega
  · rintro rfl
    have hone : step * ((slot : Int) + 1) = step * slot + step := by rw [Int.mul_add, Int.mul_one]
    exact ⟨Int.le_refl _, by omega⟩

theorem Series.mem_points_iff {α : Type} (s : Series α) (t : Int) (value : Option α) :
    (t, value) ∈ s.points ↔ ∃ slot : Nat, s.values[slot]? = some value ∧ s.instant slot = t := by
  simp only [points, List.mem_map, Prod.exists, Prod.mk.injEq, List.mem_zipIdx_iff_getElem?,
    Array.getElem?_toList]
  constructor
  · rintro ⟨_, slot, hslot, hinstant, rfl⟩
    exact ⟨slot, hslot, hinstant⟩
  · rintro ⟨slot, hslot, hinstant⟩
    exact ⟨value, slot, hslot, hinstant, rfl⟩

namespace Grid

variable {α : Type} {g : Grid}

def valuesIn (g : Grid) (slot : Nat) (points : List (Int × Option α)) : List α :=
  points.filterMap fun p => if InSlot g.start g.step slot p.1 then p.2 else none

theorem valuesIn_cons (g : Grid) (slot : Nat) (p : Int × Option α) (points : List (Int × Option α)) :
    g.valuesIn slot (p :: points) = g.valuesIn slot [p] ++ g.valuesIn slot points :=
  List.filterMap_append (l := [p])

theorem valuesIn_singleton (g : Grid) (slot : Nat) (p : Int × Option α) :
    g.valuesIn slot [p] = if InSlot g.start g.step slot p.1 then p.2.toList else [] := by
  obtain ⟨t, value⟩ := p
  unfold valuesIn
  by_cases hin : InSlot g.start g.step slot t
  · cases value <;> simp [hin]
  · simp [hin]

variable [Quantity α]

-- A point adds its value to the bucket of its slot, and leaves the other buckets alone.
theorem getElem?_addPoint (hstep : 0 < g.step) {p : Int × Option α} (hafter : g.start ≤ p.1)
    (buckets : Array (Bucket α)) (slot : Nat) :
    (g.addPoint buckets p)[slot]? = buckets[slot]?.map fun b =>
      ((g.valuesIn slot [p]).foldl Quantity.add b.1, b.2 + (g.valuesIn slot [p]).length) := by
  obtain ⟨t, value⟩ := p
  cases value with
  | none => simp [addPoint, valuesIn_singleton]
  | some x =>
      have hslot := Int.tdiv_nonneg (Int.sub_nonneg.mpr hafter) (Int.le_of_lt hstep)
      have hfalls := inSlot_iff hstep hafter slot
      simp only [addPoint, if_neg (Int.not_lt.mpr hslot), Array.getElem?_modify]
      rw [valuesIn_singleton]
      by_cases hin : InSlot g.start g.step slot t
      · rw [if_pos (hfalls.mp hin), if_pos hin]
        rfl
      · rw [if_neg fun heq => hin (hfalls.mpr heq), if_neg hin]
        simp

theorem getElem?_addPoints (hstep : 0 < g.step) {points : List (Int × Option α)}
    (hafter : ∀ p ∈ points, g.start ≤ p.1) (buckets : Array (Bucket α)) (slot : Nat) :
    (points.foldl g.addPoint buckets)[slot]? = buckets[slot]?.map fun b =>
      ((g.valuesIn slot points).foldl Quantity.add b.1, b.2 + (g.valuesIn slot points).length) := by
  induction points generalizing buckets with
  | nil => simp [valuesIn]
  | cons p points ih =>
      rw [List.foldl_cons, ih fun q hq => hafter q (List.mem_cons_of_mem _ hq),
        getElem?_addPoint hstep (hafter p List.mem_cons_self), Option.map_map, valuesIn_cons g slot p points]
      simp only [Function.comp_def, List.foldl_append, List.length_append, Nat.add_assoc]

end Grid

end Cadence
