import Cadence.Proofs.Transform.Builtin
import Cadence.Proofs.Transform.Slots
import Mathlib.Algebra.BigOperators.Group.List.Basic
import Mathlib.Algebra.Order.Field.Rat

namespace Cadence

instance : Quantity ℚ where
  zero := 0
  add := (· + ·)
  divide total count := total / count
  least xs := xs.min?.getD 0
  greatest xs := xs.max?.getD 0
  defined := some

variable {α : Type}

def mean (xs : List ℚ) : Option ℚ := if xs = [] then none else some (xs.sum / xs.length)

-- The means of the series that have values in a slot.
def Grid.meansIn (g : Grid) (slot : Nat) (series : List (Series ℚ)) : List ℚ :=
  series.filterMap fun s => mean (g.valuesIn slot s.points)

def Aggregation.Combines (a : Aggregation) (xs : List ℚ) (x : ℚ) : Prop :=
  match a with
  | sum => x = xs.sum
  | average => x = xs.sum / xs.length
  | min => x ∈ xs ∧ ∀ y ∈ xs, x ≤ y
  | max => x ∈ xs ∧ ∀ y ∈ xs, y ≤ x

namespace Series

-- A series whose slots cover some series. Its step is their least common multiple, it begins with the first
-- of those that have slots and ends with the last one, and each of their points falls into one slot.
structure Covers (r : Series α) (series : List (Series α)) : Prop where
  step : 0 < r.step ∧ ∀ n, r.step ∣ n ↔ ∀ s ∈ series, s.step ∣ n
  unfilled : Grid.filled series = [] → r.values.size = 0 ∧
    ∃ first ∈ series, (∀ s ∈ series, first.start ≤ s.start) ∧ r.start = floorTo first.start r.step
  filled : Grid.filled series ≠ [] → ∃ first ∈ Grid.filled series, ∃ last ∈ Grid.filled series,
    (∀ s ∈ Grid.filled series, first.start ≤ s.start ∧ s.stop ≤ last.stop) ∧
    r.start = floorTo first.start r.step ∧
    0 < r.values.size ∧ r.InSlot (r.values.size - 1) last.stop
  points : ∀ s ∈ series, ∀ p ∈ s.points, ∃! slot, slot < r.values.size ∧ r.InSlot slot p.1

-- A series that holds in each slot what an aggregation makes of the means of some series there.
structure Aggregates (r : Series ℚ) (a : Aggregation) (series : List (Series ℚ)) : Prop where
  covers : r.Covers series
  absent : ∀ slot < r.values.size, r.values[slot]? = some none ↔
    ∀ s ∈ series, ∀ p ∈ s.points, r.InSlot slot p.1 → p.2 = none
  value : ∀ slot x, r.values[slot]? = some (some x) → a.Combines (r.grid.meansIn slot series) x

end Series

namespace Grid

variable {g : Grid} {series : List (Series α)}

-- Only series with slots have points, and these lie between the start of the grid and the stop of the series.
theorem bounds_of_mem_points (h : Room series) (hpos : ∀ s ∈ series, 0 < s.step) {s : Series α}
    (hs : s ∈ series) : ∀ p ∈ s.points, s ∈ filled series ∧ (ofSeries series).start ≤ p.1 ∧ p.1 ≤ s.stop := by
  rintro ⟨t, value⟩ hp
  obtain ⟨slot, hslot, rfl⟩ := (s.mem_points_iff t value).mp hp
  have hlt := (Array.getElem?_eq_some_iff.mp hslot).1
  have hfilled := mem_filled.mpr ⟨hs, Nat.zero_lt_of_lt hlt⟩
  obtain ⟨hafter, hbefore⟩ := (h.inRange hpos hfilled).instant_bounds hlt
  exact ⟨hfilled, Int.le_trans (ofSeries_start_le h s hfilled).1 hafter, hbefore⟩

theorem step_ofSeries (series : List (Series α)) : (ofSeries series).step = commonStep series := by
  unfold ofSeries
  dsimp only
  split <;> rfl

theorem covers_of_grid {r : Series α} (hne : series ≠ []) (h : Room series)
    (hpos : ∀ s ∈ series, 0 < s.step) (hr : r.grid = ofSeries series) : r.Covers series := by
  have hcommon := commonStep_pos series
  have hstep : r.step = commonStep series := (congrArg Grid.step hr).trans (step_ofSeries series)
  have hmultiple : 0 < r.step ∧ ∀ n, r.step ∣ n ↔ ∀ s ∈ series, s.step ∣ n := by
    rw [hstep]
    exact ⟨hcommon, commonStep_dvd_iff hpos⟩
  rcases ofSeries_eq hne with ⟨hnone, first, hfirst, hleast, hgrid⟩ | ⟨first, hfirst, last, hlast, hends, hgrid⟩
  · obtain ⟨hstart, -, hsize⟩ := Grid.mk.inj (hr.trans hgrid)
    refine ⟨hmultiple, fun _ => ⟨hsize, first, hfirst, hleast, ?_⟩, fun hsome => absurd hnone hsome, ?_⟩
    · rw [hstart, hstep]
    · intro s hs p hp
      have hfilled := (bounds_of_mem_points h hpos hs p hp).1
      rw [hnone] at hfilled
      cases hfilled
  · obtain ⟨hstart, -, hsize⟩ := Grid.mk.inj (hr.trans hgrid)
    have hfloor := floorTo_le hcommon (h.range first hfirst).1
    have hafter := (h.inRange hpos hfirst).start_le_stop
    have hbefore := (hends first hfirst).2
    obtain ⟨hslots, hend⟩ := inSlot_last hcommon
      (show floorTo first.start (commonStep series) ≤ last.stop by omega)
    refine ⟨hmultiple, fun hnone => absurd hfirst (hnone ▸ List.not_mem_nil), fun _ =>
      ⟨first, hfirst, last, hlast, hends, ?_, ?_, ?_⟩, ?_⟩
    · rw [hstart, hstep]
    · rw [hsize]
      exact hslots
    · rw [Series.InSlot, hstart, hstep, hsize]
      exact hend
    · intro s hs p hp
      obtain ⟨hfilled, hstarts, hstops⟩ := bounds_of_mem_points h hpos hs p hp
      rw [hgrid] at hstarts
      simp only [Series.InSlot, hstart, hstep, hsize]
      exact existsUnique_slot hcommon hstarts (Int.le_trans hstops (hends s hfilled).2)

section Buckets

variable [Quantity α]

theorem grid_aggregate (a : Aggregation) (name : String) (series : List (Series α)) :
    (aggregate a name series).grid = ofSeries series := by
  simp [Series.grid, aggregate]

theorem getElem?_aggregate (a : Aggregation) (name : String) {slot : Nat}
    (hslot : slot < (ofSeries series).slots) :
    (aggregate a name series).values[slot]? = some (match row (series.map (ofSeries series).means) slot with
      | [] => none
      | x :: xs => Quantity.defined (a.combine (x :: xs))) := by
  have hrange : (Array.range (ofSeries series).slots)[slot]? = some slot := by
    rw [Array.getElem?_range, if_pos hslot]
  exact Array.getElem?_map.trans (congrArg (Option.map _) hrange)

end Buckets

section Fractions

variable {series : List (Series ℚ)}

theorem sumOf_fractions (xs : List ℚ) : sumOf xs = xs.sum := by
  cases xs with
  | nil => rfl
  | cons x xs =>
      have hfirst : (0 : ℚ) + x = x := zero_add x
      rw [List.sum_eq_foldl, List.foldl_cons, hfirst]
      rfl

theorem getElem?_means_fractions (hstep : 0 < g.step) {s : Series ℚ} (hafter : ∀ p ∈ s.points, g.start ≤ p.1)
    {slot : Nat} (hslot : slot < g.slots) : (g.means s)[slot]? = some (mean (g.valuesIn slot s.points)) := by
  have hsum : (g.valuesIn slot s.points).foldl Quantity.add Quantity.zero = (g.valuesIn slot s.points).sum :=
    List.sum_eq_foldl.symm
  rw [means, Array.getElem?_map, getElem?_addPoints hstep hafter, Array.getElem?_replicate, if_pos hslot,
    Option.map_some, Option.map_some, hsum, mean]
  simp only [Nat.zero_add, List.length_eq_zero_iff]
  rfl

theorem row_means (hstep : 0 < g.step) (hafter : ∀ s ∈ series, ∀ p ∈ s.points, g.start ≤ p.1) {slot : Nat}
    (hslot : slot < g.slots) : row (series.map g.means) slot = g.meansIn slot series := by
  rw [row, meansIn, List.filterMap_map]
  refine List.filterMap_congr fun s hs => ?_
  rw [Function.comp_apply, getElem?_means_fractions hstep (hafter s hs) hslot]
  rfl

theorem combines_combine (a : Aggregation) (x : ℚ) (xs : List ℚ) :
    a.Combines (x :: xs) (a.combine (x :: xs)) := by
  cases a with
  | sum => exact sumOf_fractions (x :: xs)
  | average => exact congrArg (· / ((x :: xs).length : ℚ)) (sumOf_fractions (x :: xs))
  | min =>
      obtain ⟨low, hlow⟩ : ∃ low, (x :: xs).min? = some low := ⟨_, rfl⟩
      have hleast : Aggregation.min.combine (x :: xs) = low := congrArg (·.getD 0) hlow
      rw [hleast]
      exact List.min?_eq_some_iff.mp hlow
  | max =>
      obtain ⟨high, hhigh⟩ : ∃ high, (x :: xs).max? = some high := ⟨_, rfl⟩
      have hgreatest : Aggregation.max.combine (x :: xs) = high := congrArg (·.getD 0) hhigh
      rw [hgreatest]
      exact List.max?_eq_some_iff.mp hhigh

theorem mean_eq_none_iff (xs : List ℚ) : mean xs = none ↔ xs = [] := by
  simp [mean]

theorem meansIn_eq_nil_iff (g : Grid) (slot : Nat) (series : List (Series ℚ)) : g.meansIn slot series = [] ↔
    ∀ s ∈ series, ∀ p ∈ s.points, InSlot g.start g.step slot p.1 → p.2 = none := by
  simp only [meansIn, valuesIn, List.filterMap_eq_nil_iff, mean_eq_none_iff, ite_eq_right_iff]

-- A slot holds what the aggregation makes of the means in it, if there are any.
theorem getElem?_aggregate_fractions (a : Aggregation) (name : String) (h : Room series)
    (hpos : ∀ s ∈ series, 0 < s.step) {slot : Nat} (hslot : slot < (ofSeries series).slots) :
    ((ofSeries series).meansIn slot series = [] ∧ (aggregate a name series).values[slot]? = some none) ∨
    ∃ x, (aggregate a name series).values[slot]? = some (some x) ∧
      (ofSeries series).meansIn slot series ≠ [] ∧ a.Combines ((ofSeries series).meansIn slot series) x := by
  have hstep : 0 < (ofSeries series).step := by
    rw [step_ofSeries]
    exact commonStep_pos series
  have hvalue := getElem?_aggregate a name hslot
  rw [row_means hstep (fun s hs p hp => (bounds_of_mem_points h hpos hs p hp).2.1) hslot] at hvalue
  cases hmeans : (ofSeries series).meansIn slot series with
  | nil =>
      rw [hmeans] at hvalue
      exact .inl ⟨rfl, hvalue⟩
  | cons x xs =>
      rw [hmeans] at hvalue
      exact .inr ⟨a.combine (x :: xs), hvalue, List.cons_ne_nil x xs, combines_combine a x xs⟩

end Fractions

end Grid

theorem aggregates_aggregate (a : Aggregation) (name : String) {series : List (Series ℚ)} (hne : series ≠ [])
    (h : Grid.Room series) (hpos : ∀ s ∈ series, 0 < s.step) :
    (aggregate a name series).Aggregates a series := by
  have hgrid := Grid.grid_aggregate a name series
  have hsize : (aggregate a name series).values.size = (Grid.ofSeries series).slots := congrArg Grid.slots hgrid
  have hnone := fun slot => Grid.meansIn_eq_nil_iff (Grid.ofSeries series) slot series
  refine ⟨Grid.covers_of_grid hne h hpos hgrid, fun slot hslot => ?_, fun slot x hx => ?_⟩
  · rw [hsize] at hslot
    refine Iff.trans ?_ (hnone slot)
    rcases Grid.getElem?_aggregate_fractions a name h hpos hslot with ⟨hmeans, hvalue⟩ | ⟨x, hvalue, hmeans, -⟩
    · simp [hmeans, hvalue]
    · simp [hmeans, hvalue]
  · have hslot := (Array.getElem?_eq_some_iff.mp hx).1
    rw [hsize] at hslot
    rw [hgrid]
    rcases Grid.getElem?_aggregate_fractions a name h hpos hslot with ⟨-, hvalue⟩ | ⟨y, hvalue, -, hcombines⟩
    · rw [hvalue] at hx
      cases hx
    · rw [hvalue] at hx
      cases hx
      exact hcombines

namespace Builtin

def aggregations : List (String × Aggregation) :=
  [("averageSeries", .average), ("maxSeries", .max), ("minSeries", .min), ("sumSeries", .sum)]

theorem find?_of_mem_aggregations {function : String} {a : Aggregation} (h : (function, a) ∈ aggregations) :
    Registry.builtin.find? function = some (.ofChecked (combine function a)) := by
  simp only [aggregations, List.mem_cons, Prod.mk.injEq, List.not_mem_nil, or_false] at h
  rcases h with ⟨rfl, rfl⟩ | ⟨rfl, rfl⟩ | ⟨rfl, rfl⟩ | ⟨rfl, rfl⟩ <;> rfl

theorem combine_eq_ok {function : String} (a : Aggregation) {args : List Argument}
    {series : List (Series Float)} (hargs : allSeries function args = .ok series) (hne : series ≠ []) :
    combine function a args = .ok [aggregate a (callName function (series.map (·.label))) series] := by
  obtain ⟨s, rest, rfl⟩ := List.exists_cons_of_ne_nil hne
  rw [combine, hargs]
  rfl

-- Each of the functions makes one series, whose slots cover the given ones, and no result on the way to it
-- leaves its word. In exact arithmetic the values are exact as well.
theorem aggregations_exact {function : String} {a : Aggregation} (hfunction : (function, a) ∈ aggregations) :
    (∃ f, Registry.builtin.find? function = some f ∧ ∀ args series, allSeries function args = .ok series →
      series ≠ [] → (∀ s ∈ series, 1 ≤ s.step) → Grid.Room series →
      ∃ name, f args = .ok [aggregate a name series] ∧
        aggregateInWords a name series = some (aggregate a name series) ∧
        (aggregate a name series).Covers series) ∧
    ∀ (name : String) (series : List (Series ℚ)), series ≠ [] → (∀ s ∈ series, 1 ≤ s.step) →
      Grid.Room series →
      aggregateInWords a name series = some (aggregate a name series) ∧
      (aggregate a name series).Aggregates a series := by
  constructor
  · refine ⟨_, find?_of_mem_aggregations hfunction, fun args series hargs hne hstep hroom => ?_⟩
    refine ⟨callName function (series.map (·.label)), ?_, aggregateInWords_of_room a _ hroom hstep, ?_⟩
    · rw [Transform.ofChecked, combine_eq_ok a hargs hne]
      rfl
    · exact Grid.covers_of_grid hne hroom hstep (Grid.grid_aggregate a _ series)
  · intro name series hne hstep hroom
    exact ⟨aggregateInWords_of_room a name hroom hstep, aggregates_aggregate a name hne hroom hstep⟩

-- Three steps, of which one belongs to a series without slots, and a slot without values.
theorem aggregations_exact_three_steps :
    ∃ (f : Transform) (doubles : List (Series Float)) (series : List (Series ℚ)),
      ("sumSeries", .sum) ∈ aggregations ∧ Registry.builtin.find? "sumSeries" = some f ∧
      allSeries "sumSeries" [.series doubles] = .ok doubles ∧ doubles ≠ [] ∧
      (∀ s ∈ doubles, 1 ≤ s.step) ∧ Grid.Room doubles ∧
      (∃ name, f [.series doubles] = .ok [aggregate .sum name doubles] ∧
        aggregateInWords .sum name doubles = some (aggregate .sum name doubles) ∧
        (aggregate .sum name doubles).Covers doubles) ∧
      series ≠ [] ∧ (∀ s ∈ series, 1 ≤ s.step) ∧ Grid.Room series ∧
      aggregateInWords .sum "m" series = some (aggregate .sum "m" series) ∧
      (aggregate .sum "m" series).Aggregates .sum series ∧
      (aggregate .sum "m" series).grid = ⟨0, 180, 3⟩ ∧
      (aggregate .sum "m" series).values = #[some (23 / 2), none, some 5] := by
  let doubles : List (Series Float) := [⟨"a", "a", 60, 60, #[some 1.0, some 2.0]⟩,
    ⟨"b", "b", 0, 90, #[some 10.0, none, none, none, some 5.0]⟩, ⟨"c", "c", -1000, 45, #[]⟩]
  let series : List (Series ℚ) := [⟨"a", "a", 60, 60, #[some 1, some 2]⟩,
    ⟨"b", "b", 0, 90, #[some 10, none, none, none, some 5]⟩, ⟨"c", "c", -1000, 45, #[]⟩]
  have hroom : Grid.Room doubles := ⟨by decide, by decide, by decide⟩
  have hroom' : Grid.Room series := ⟨by decide, by decide, by decide⟩
  obtain ⟨⟨f, hf, hdoubles⟩, hseries⟩ :=
    aggregations_exact (show ("sumSeries", .sum) ∈ aggregations by decide)
  have hargs : allSeries "sumSeries" [.series doubles] = .ok doubles := rfl
  have hcovers := hdoubles _ doubles hargs (List.cons_ne_nil _ _) (by decide) hroom
  obtain ⟨hwords, haggregates⟩ := hseries "m" series (by decide) (by decide) hroom'
  exact ⟨f, doubles, series, by decide, hf, hargs, List.cons_ne_nil _ _, by decide, hroom, hcovers,
    by decide, by decide, hroom', hwords, haggregates, by decide +kernel, by decide +kernel⟩

end Builtin

end Cadence
