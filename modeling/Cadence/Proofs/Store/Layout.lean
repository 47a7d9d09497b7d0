import Cadence.Proofs.Store.Series

namespace Cadence

open Keyed

variable {σ : Type} {b : Backend σ} {settings : StoreSettings} {order : Nat → Fanout.Order}
  {pattern : String} {w : Window} {m : PointMap} {s s' : σ}

theorem Reply.bounds_of_held {reply : Reply} {name : String} {t : Int} {value : Option Float}
    (h : reply.held w name t = some value) : w.start.toInt ≤ t ∧ t ≤ w.stop.toInt := by
  cases reply with
  | error e => cases h
  | ok items =>
      obtain ⟨bytes, -, hpoint⟩ := Option.bind_eq_some_iff.mp h
      obtain ⟨_, hm, rfl, -⟩ := exists_of_lastUnder hpoint
      obtain ⟨sample, hsample, rfl⟩ := List.mem_map.mp hm
      obtain ⟨hstart, hstop⟩ := of_decide_eq_true (List.mem_filter.mp hsample).2
      exact ⟨Int64.le_iff_toInt_le.mp hstart, Int64.le_iff_toInt_le.mp hstop⟩

theorem exists_parts (h : outcome (b.fetchMap settings order pattern w) s = (.ok m, s')) :
    ∃ partitions parts, w.partitions settings.tablePrefix = .ok partitions ∧
      (w.entries (Names.expand pattern)).mergeAll parts = .ok m ∧
      ∀ part ∈ parts, partitions ≠ [] ∧ ∃ reply : Reply, part = reply.part w := by
  cases hpartitions : w.partitions settings.tablePrefix with
  | error e =>
      rw [outcome_fetchMap_of_error settings order hpartitions] at h
      cases h
  | ok partitions =>
      rw [outcome_fetchMap_of_ok settings order hpartitions] at h
      obtain ⟨parts, t, hruns, hunited⟩ := outcome_bind_eq_ok h
      refine ⟨partitions, parts, rfl, ?_, ?_⟩
      · cases hmerge : (w.entries (Names.expand pattern)).mergeAll parts with
        | ok united =>
            rw [hmerge] at hunited
            cases hunited
            rfl
        | error e =>
            rw [hmerge] at hunited
            cases hunited
      · intro part hpart
        obtain ⟨_, htask, t, hread⟩ := Fanout.exists_of_mem_runTasks hruns hpart
        obtain ⟨u, hu, rfl⟩ := List.mem_map.mp htask
        exact ⟨List.ne_nil_of_mem ((FetchUnit.mem_units u).mp hu).1, _,
          (Reply.points_eq_ok_iff.mp hread).2⟩

theorem sets_of_fetchMap (h : outcome (b.fetchMap settings order pattern w) s = (.ok m, s')) :
    ∃ partitions, w.partitions settings.tablePrefix = .ok partitions ∧
      (∀ name ∈ Names.expand pattern, (m.get? name).isSome) ∧
      ∀ set ∈ m.toList, set.step = w.step ∧
        ∀ t ∈ set.points, partitions ≠ [] ∧ w.start.toInt ≤ t ∧ t ≤ w.stop.toInt := by
  obtain ⟨partitions, parts, hpartitions, hmerge, hparts⟩ := exists_parts h
  have huniform : ∀ part ∈ parts, part.Uniform w.step := by
    intro part hpart
    obtain ⟨-, reply, rfl⟩ := hparts part hpart
    exact reply.uniform_part w
  obtain ⟨united, hall, hm, hkeys, hat⟩ :=
    PointMap.mergeAll_uniform (w.uniform_entries (Names.expand pattern)) huniform
  obtain rfl : m = united := Except.ok.inj (hmerge.symm.trans hall)
  refine ⟨partitions, hpartitions, ?_, ?_⟩
  · exact fun name hname => (hkeys name).mpr (.inl ((w.isSome_get?_entries _ name).mpr hname))
  · intro set hset
    obtain ⟨name, hget⟩ := (PointMap.mem_toList_iff m set).mp hset
    refine ⟨(hm name set hget).2, fun t ht => ?_⟩
    obtain ⟨value, hvalue⟩ := Option.isSome_iff_exists.mp (Std.ExtTreeMap.mem_iff_isSome_getElem?.mp ht)
    have hpoint : m.at? name t = some value := by
      rw [PointMap.at?, hget]
      exact hvalue
    rw [hat, w.at?_entries, Option.or_none] at hpoint
    obtain ⟨part, hpart, hheld⟩ := exists_of_lastSome hpoint
    obtain ⟨hne, reply, rfl⟩ := hparts part hpart
    rw [Reply.at?_part] at hheld
    exact ⟨hne, Reply.bounds_of_held hheld⟩

theorem Window.step_of_empty (h : w.stop.toInt ≤ w.start.toInt) : w.step = 60 := by
  unfold step tier Tier.forSpan Tier.secondsPerDay
  rw [if_neg (by omega), if_neg (by omega), if_neg (by omega)]
  rfl

-- No window with partitions but an empty one has its first slot below every timestamp, and that one begins
-- at one of the lowest eight, of which the last is a multiple of a minute.
theorem Window.lowest_le_firstSlot {tablePrefix : String} {partitions : List Partition}
    (h : w.partitions tablePrefix = .ok partitions)
    (hstart : w.start < w.stop ∨ Timestamp.lowest + 8 ≤ w.start.toInt) :
    Timestamp.lowest ≤ w.firstSlot := by
  by_cases hlt : w.start.toInt < w.stop.toInt
  · exact lowest_le_firstSlot_of_lt h hlt
  · have hlate : Timestamp.lowest + 8 ≤ w.start.toInt :=
      hstart.resolve_left fun hless => hlt (Int64.lt_iff_toInt_lt.mp hless)
    rw [firstSlot, step_of_empty (by omega)]
    unfold Timestamp.lowest at *
    omega

theorem Window.word?_firstSlot_eq_none (hempty : w.stop.toInt ≤ w.start.toInt)
    (hstart : w.start.toInt < Timestamp.lowest + 8) : Timestamp.word? w.firstSlot = none := by
  refine if_neg fun hfits => ?_
  rw [firstSlot, step_of_empty hempty] at hfits
  unfold Timestamp.lowest at *
  omega

-- Points lie in no empty window, so a set there has none of them to take its start from.
theorem PointSet.toSeries_of_early {set : PointSet} (hstep : set.step = w.step)
    (hpoints : set.points ≠ ∅ → w.start.toInt < w.stop.toInt)
    (hstart : ¬(w.start < w.stop ∨ Timestamp.lowest + 8 ≤ w.start.toInt)) :
    set.points = ∅ ∧ set.toSeries w.start.toInt = none := by
  have hempty : w.stop.toInt ≤ w.start.toInt :=
    Int.not_lt.mp fun hless => hstart (.inl (Int64.lt_iff_toInt_lt.mpr hless))
  have hearly : w.start.toInt < Timestamp.lowest + 8 := Int.not_le.mp fun hlate => hstart (.inr hlate)
  have hnone : set.points = ∅ := by
    by_contra hsome
    exact absurd (hpoints hsome) (Int.not_lt.mpr hempty)
  refine ⟨hnone, ?_⟩
  rw [toSeries_of_empty hstep hnone, w.word?_firstSlot_eq_none hempty hearly]
  rfl

-- The last slot of a series that fits is an instant, also of one that has none.
theorem Series.Fits.stopInWords_eq {series : Series Float} (h : series.Fits w) :
    series.instantInWords (series.values.size - 1) = some series.stop := by
  by_cases hfilled : 0 < series.values.size
  · exact h.instantInWords_eq (by omega)
  · have hsize : series.values.size = 0 := by omega
    rw [instantInWords, stop, hsize]
    have hzero : Timestamp.word? 0 = some 0 := by decide
    have hstart : Timestamp.word? series.start = some series.start :=
      Timestamp.word?_eq_some h.lowest h.highest
    simp only [Nat.zero_sub, Int.natCast_zero, Int.mul_zero, Int.add_zero, hzero, Option.bind_eq_bind,
      Option.bind_some, hstart]

-- A fetch has series, and reading them stays in words, unless its window is empty and begins at one of the
-- lowest eight timestamps: the grid of such a window begins below them, and no set has a series.
theorem toSeries_fetchMap (h : outcome (b.fetchMap settings order pattern w) s = (.ok m, s')) :
    ((w.start < w.stop ∨ Timestamp.lowest + 8 ≤ w.start.toInt) →
      ∃ series, m.toSeries w.start.toInt = some series ∧ ∀ r ∈ series,
        r.instantInWords (r.values.size - 1) = some r.stop ∧ r.pointsInWords = some r.points) ∧
    (¬(w.start < w.stop ∨ Timestamp.lowest + 8 ≤ w.start.toInt) →
      (∀ name ∈ Names.expand pattern, (m.get? name).isSome) ∧
      ∀ set ∈ m.toList, set.points = ∅ ∧ set.toSeries w.start.toInt = none) := by
  obtain ⟨partitions, hpartitions, hnames, hsets⟩ := sets_of_fetchMap h
  constructor
  · intro hstart
    have hlow := Window.lowest_le_firstSlot hpartitions hstart
    obtain ⟨series, hseries, hfits⟩ : ∃ series, m.toSeries w.start.toInt = some series ∧
        ∀ r ∈ series, r.Fits w := by
      refine exists_mapM_eq_some fun set hset => ?_
      obtain ⟨hstep, hpoints⟩ := hsets set hset
      refine PointSet.exists_toSeries hstep hlow (fun t ht => (hpoints t ht).2) fun hsome => ?_
      obtain ⟨first, -, -, -, hfirst, -⟩ := PointSet.exists_bounds hsome
      exact Window.short_of_partitions hpartitions (hpoints first hfirst).1
    exact ⟨series, hseries, fun r hr => ⟨(hfits r hr).stopInWords_eq, (hfits r hr).pointsInWords_eq⟩⟩
  · intro hstart
    refine ⟨hnames, fun set hset => ?_⟩
    obtain ⟨hstep, hpoints⟩ := hsets set hset
    refine PointSet.toSeries_of_early hstep (fun hsome => ?_) hstart
    obtain ⟨first, -, -, -, hfirst, -⟩ := PointSet.exists_bounds hsome
    exact Window.lt_of_partitions hpartitions (hpoints first hfirst).1

-- The window of the lowest timestamp alone: its points can be had and its series cannot.
theorem toSeries_fetchMap_lowest :
    ∃ m, outcome (backend.fetchMap ⟨"g", 1⟩ List.range "m"
        ⟨-9223372036854775808, -9223372036854775808⟩) (Database.empty (some Sample.mergeRule))
          = (.ok m, Database.empty (some Sample.mergeRule)) ∧
      (∃ set ∈ m.toList, set.toSeries (-9223372036854775808) = none) ∧
      outcome ((Store.ofBackend backend ⟨"g", 1⟩).fetch "m"
          ⟨-9223372036854775808, -9223372036854775808⟩) (Database.empty (some Sample.mergeRule))
        = (.error .overflow, Database.empty (some Sample.mergeRule)) := by
  have hfetch : ∃ m, outcome (backend.fetchMap ⟨"g", 1⟩ List.range "m"
      ⟨-9223372036854775808, -9223372036854775808⟩) (Database.empty (some Sample.mergeRule))
        = (.ok m, Database.empty (some Sample.mergeRule)) := by
    rw [outcome_fetchMap_of_ok ⟨"g", 1⟩ List.range
      (show (⟨-9223372036854775808, -9223372036854775808⟩ : Window).partitions "g" = .ok [] from rfl)]
    exact ⟨_, rfl⟩
  obtain ⟨m, hm⟩ := hfetch
  obtain ⟨-, hlowest⟩ := toSeries_fetchMap hm
  obtain ⟨hnames, hsets⟩ := hlowest (by decide)
  have hname : "m" ∈ Names.expand "m" :=
    Names.mem_expand_plain (by decide) (by decide) (by decide)
  obtain ⟨set, hset⟩ := Option.isSome_iff_exists.mp (hnames "m" hname)
  have hmem := (PointMap.mem_toList_iff m set).mpr ⟨"m", hset⟩
  have hnone : m.toSeries (-9223372036854775808) = none :=
    mapM_eq_none ⟨set, hmem, (hsets set hmem).2⟩
  refine ⟨m, hm, ⟨set, hmem, (hsets set hmem).2⟩, ?_⟩
  have hseries := outcome_series hm
  rwa [show (⟨-9223372036854775808, -9223372036854775808⟩ : Window).start.toInt
    = -9223372036854775808 from rfl, hnone] at hseries

end Cadence
