import Cadence.Proofs.Backend.Keyed
import Cadence.Proofs.Fanout
import Cadence.Proofs.Names
import Cadence.Proofs.Store.Replies

namespace Cadence

open Sample Keyed

-- Whether a window shows a value at an instant, if some samples lie there.
def Window.Shows (w : Window) (samples : List Sample) (t : Int) (value : Option Float) : Prop :=
  ∃ x : Timestamp, x.toInt = t ∧ w.start ≤ x ∧ x ≤ w.stop ∧
    ∃ bits, lastAt x samples = some bits ∧ defined (Float.ofBits bits) = value

theorem Window.not_shows_nil (w : Window) (t : Int) (value : Option Float) :
    ¬w.Shows [] t value := by
  rintro ⟨x, -, -, -, bits, hbits, -⟩
  cases hbits

namespace FetchUnit

theorem pairwise_windowPoints (w : Window) {samples : List Sample}
    (h : samples.Pairwise (·.time ≠ ·.time)) : (windowPoints w samples).Pairwise (·.1 ≠ ·.1) := by
  rw [windowPoints, List.pairwise_map]
  refine (h.filter _).imp ?_
  intro r s hne he
  exact hne (Int64.toInt_inj.mp he)

theorem lastUnder_windowPoints (w : Window) (samples : List Sample) (t : Int)
    (value : Option Float) :
    lastUnder Prod.fst Prod.snd t (windowPoints w (union [] samples)) = some value
      ↔ w.Shows samples t value := by
  rw [lastUnder_eq_some_iff (pairwise_windowPoints w (pairwise_union [] samples))]
  simp only [windowPoints, List.mem_map, List.mem_filter, mem_union_nil, decide_eq_true_eq]
  constructor
  · rintro ⟨_, ⟨s, ⟨hlast, hstart, hstop⟩, rfl⟩, ht, hvalue⟩
    exact ⟨s.time, ht, hstart, hstop, s.bits, hlast, hvalue⟩
  · rintro ⟨x, ht, hstart, hstop, bits, hlast, hvalue⟩
    exact ⟨_, ⟨⟨x, bits⟩, ⟨hlast, hstart, hstop⟩, rfl⟩, ht, hvalue⟩

end FetchUnit

-- The value that a window shows at an instant, if some samples lie there.
def Window.shown (w : Window) (samples : List Sample) (t : Int) : Option (Option Float) :=
  lastUnder Prod.fst Prod.snd t (FetchUnit.windowPoints w (union [] samples))

theorem Window.shown_eq_some_iff (w : Window) {samples : List Sample} {t : Int} {value : Option Float} :
    w.shown samples t = some value ↔ w.Shows samples t value :=
  FetchUnit.lastUnder_windowPoints w samples t value

namespace FetchUnit

theorem pointsOf_eq_ok (w : Window) {records : List (String × Bytes)}
    {samples : String → List Sample}
    (h : ∀ r ∈ records, r.2 = encode (union [] (samples r.1))) :
    ∃ part, pointsOf w records = .ok part ∧ part.Uniform w.step ∧
      (∀ name, (part.get? name).isSome → ∃ r ∈ records, r.1 = name) ∧
      ∀ name t value, part.at? name t = some value
        ↔ (∃ r ∈ records, r.1 = name) ∧ w.Shows (samples name) t value := by
  let setOf := fun name : String =>
    PointSet.ofPoints name w.step (windowPoints w (union [] (samples name)))
  have hname : ∀ name, (setOf name).name = name := fun name => PointSet.name_ofPoints name _ _
  have husable : Reply.Usable (.ok records) := by
    intro r hr
    rw [h r hr]
    exact ⟨_, decode_encode _⟩
  have hsets : records.map (Reply.itemSet w) = (records.map Prod.fst).map setOf := by
    rw [List.map_map]
    apply List.map_congr_left
    rintro ⟨name, bytes⟩ hr
    have hbytes : bytes = encode (union [] (samples name)) := h _ hr
    rw [Reply.itemSet, hbytes, decodeWhole_encode]
    rfl
  have hpart : pointsOf w records = .ok (PointMap.ofList ((records.map Prod.fst).map setOf)) := by
    rw [← hsets]
    exact Reply.points_of_usable w husable
  have hmem : ∀ name, name ∈ records.map Prod.fst ↔ ∃ r ∈ records, r.1 = name :=
    fun name => List.mem_map
  refine ⟨_, hpart, ?_, ?_, ?_⟩
  · exact PointMap.uniform_ofList_map hname (fun name => PointSet.step_ofPoints name _ _) _
  · intro name hs
    rwa [PointMap.isSome_get?_ofList_map hname, hmem] at hs
  · intro name t value
    rw [PointMap.at?, PointMap.get?_ofList_map hname, ← hmem]
    by_cases hn : name ∈ records.map Prod.fst
    · rw [if_pos hn, Option.bind_some, PointSet.getElem?_ofPoints, lastUnder_windowPoints]
      simp [hn]
    · simp [hn]

-- What a read yields: what the window shows of the samples of its item.
structure Yields (u : FetchUnit) (w : Window) (log : List Entry) (part : PointMap) : Prop where
  uniform : part.Uniform w.step
  names : ∀ name, (part.get? name).isSome → name ∈ u.names
  shows : ∀ name t value, part.at? name t = some value
    ↔ name ∈ u.names ∧
      w.Shows (itemSamples log u.partition.table u.partition.item name) t value

theorem Yields.at?_eq {u : FetchUnit} {w : Window} {log : List Entry} {part : PointMap}
    (h : u.Yields w log part) (name : String) (t : Int) :
    part.at? name t = if name ∈ u.names then
      w.shown (itemSamples log u.partition.table u.partition.item name) t else none := by
  apply Option.ext
  intro value
  rw [h.shows]
  split
  · rename_i hn
    rw [w.shown_eq_some_iff]
    exact and_iff_right hn
  · rename_i hn
    simp [hn]

variable {db : Database} {tables : List String} {log : List Entry}

theorem points_eq_ok (hc : Contents db tables log) (w : Window) (u : FetchUnit) :
    ∃ part, points w (batchGet u.partition.table u.partition.item u.names db) = .ok part ∧
      u.Yields w log part := by
  by_cases ht : u.partition.table ∈ tables
  · obtain ⟨found, hfound, -, hrecords⟩ := batchGet_of_mem hc ht u.partition.item u.names
    have hbytes : ∀ r ∈ found, r.2
        = encode (union [] (itemSamples log u.partition.table u.partition.item r.1)) := by
      intro r hr
      have hrecord := ((hrecords r.1 r.2).mp hr).2
      unfold record? at hrecord
      split at hrecord
      · exact (Option.some.inj hrecord).symm
      · cases hrecord
    obtain ⟨part, hpart, huniform, hnames, hat⟩ := pointsOf_eq_ok w hbytes
    refine ⟨part, by rw [hfound]; exact hpart, ⟨huniform, ?_, ?_⟩⟩
    · intro name hs
      obtain ⟨r, hr, rfl⟩ := hnames name hs
      exact ((hrecords r.1 r.2).mp hr).1
    · intro name t value
      rw [hat]
      refine and_congr_left fun hshows => ?_
      constructor
      · rintro ⟨r, hr, rfl⟩
        exact ((hrecords r.1 r.2).mp hr).1
      · intro hname
        by_cases hput : ∃ e ∈ log, e.IsOf u.partition.table u.partition.item name
        · exact ⟨(name, _), (hrecords name _).mpr ⟨hname, if_pos hput⟩, rfl⟩
        · rw [itemSamples_eq_nil fun e he hof => hput ⟨e, he, hof⟩] at hshows
          exact absurd hshows (w.not_shows_nil t value)
  · rw [batchGet_of_not_mem hc ht]
    refine ⟨PointMap.empty, rfl, ⟨?_, ?_, ?_⟩⟩
    · intro name s hs
      simp [PointMap.get?, PointMap.empty] at hs
    · simp [PointMap.get?, PointMap.empty]
    · intro name t value
      have hnil : itemSamples log u.partition.table u.partition.item name = [] := by
        apply itemSamples_eq_nil
        rintro e he ⟨htable, -, -⟩
        exact ht (htable ▸ hc.created e he)
      simp [PointMap.at?, PointMap.get?, PointMap.empty, hnil, w.not_shows_nil]

def units (settings : StoreSettings) (partitions : List Partition) (names : List String) :
    List FetchUnit :=
  partitions.flatMap fun p => (Names.batches settings.batchLimit names).map fun batch => ⟨p, batch⟩

theorem mem_units {settings : StoreSettings} {partitions : List Partition} {names : List String}
    (u : FetchUnit) :
    u ∈ units settings partitions names
      ↔ u.partition ∈ partitions ∧ u.names ∈ Names.batches settings.batchLimit names := by
  simp only [units, List.mem_flatMap, List.mem_map]
  constructor
  · rintro ⟨p, hp, batch, hbatch, rfl⟩
    exact ⟨hp, hbatch⟩
  · rintro ⟨hp, hbatch⟩
    exact ⟨u.partition, hp, u.names, hbatch, rfl⟩

theorem exists_outcome_runTasks (hc : Contents db tables log) (w : Window) :
    ∃ partOf : FetchUnit → PointMap, (∀ u : FetchUnit, u.Yields w log (partOf u)) ∧
      ∀ (us : List FetchUnit) (order : Fanout.Order), order.Perm (List.range us.length) →
        outcome (Fanout.runTasks order (us.map (run backend w))) db = (.ok (us.map partOf), db) := by
  obtain ⟨partOf, hpart⟩ := Classical.skolem.mp fun u => points_eq_ok hc w u
  have hrun : ∀ u, outcome (run backend w u) db = (.ok (partOf u), db) :=
    fun u => congrArg (·, db) (hpart u).1
  refine ⟨partOf, fun u => (hpart u).2, ?_⟩
  intro us order horder
  have hvalues : (us.map (run backend w)).map (fun task => (outcome task db).1)
      = (us.map partOf).map .ok := by
    rw [List.map_map, List.map_map]
    exact List.map_congr_left fun u _ => by rw [Function.comp_apply, hrun, Function.comp_apply]
  have hlength : us.length = (us.map partOf).length := (List.length_map _).symm
  rw [Fanout.outcome_runTasks, hvalues, List.length_map, hlength,
    Fanout.collect_values (hlength ▸ horder)]
  intro task htask
  obtain ⟨u, -, rfl⟩ := List.mem_map.mp htask
  rw [hrun]

theorem mem_of_mem_units {settings : StoreSettings} {partitions : List Partition}
    {names : List String} {u : FetchUnit} (hu : u ∈ units settings partitions names) {name : String}
    (hn : name ∈ u.names) : name ∈ names :=
  (Names.mem_batches settings.batchLimit names name).mp ⟨u.names, ((mem_units u).mp hu).2, hn⟩

-- Whatever the size of the batches, the last partition that shows a point of a name decides.
theorem lastSome_units {w : Window} {partOf : FetchUnit → PointMap}
    (hyields : ∀ u : FetchUnit, u.Yields w log (partOf u)) (settings : StoreSettings)
    (partitions : List Partition) (names : List String) (name : String) (t : Int) :
    lastSome (fun part => part.at? name t) ((units settings partitions names).map partOf)
      = if name ∈ names then
          lastSome (fun p => w.shown (itemSamples log p.table p.item name) t) partitions
        else none := by
  have hpart : ∀ p batch, (partOf ⟨p, batch⟩).at? name t
      = if name ∈ batch then w.shown (itemSamples log p.table p.item name) t else none :=
    fun p batch => (hyields ⟨p, batch⟩).at?_eq name t
  have hbatches : ∀ p : Partition, lastSome (fun part => part.at? name t)
      (((Names.batches settings.batchLimit names).map fun batch => ⟨p, batch⟩).map partOf)
      = if name ∈ names then w.shown (itemSamples log p.table p.item name) t else none := by
    intro p
    rw [lastSome_map, lastSome_map]
    simp only [Function.comp_def, hpart]
    rw [lastSome_of_mem, Names.flatten_batches]
  rw [units, List.map_flatMap, lastSome_flatMap]
  simp only [hbatches]
  split
  · rfl
  · exact (lastSome_eq_none_iff _ _).mpr fun _ _ => rfl

end FetchUnit

-- The points of a name in some partitions, a later partition replacing those of the ones before.
def Window.setOf (w : Window) (log : List Entry) (partitions : List Partition) (name : String) :
    PointSet :=
  .ofPoints name w.step
    (partitions.flatMap fun p => FetchUnit.windowPoints w (union [] (itemSamples log p.table p.item name)))

theorem Window.name_setOf (w : Window) (log : List Entry) (partitions : List Partition)
    (name : String) : (w.setOf log partitions name).name = name :=
  PointSet.name_ofPoints name _ _

theorem Window.step_setOf (w : Window) (log : List Entry) (partitions : List Partition)
    (name : String) : (w.setOf log partitions name).step = w.step :=
  PointSet.step_ofPoints name _ _

theorem Window.getElem?_setOf (w : Window) (log : List Entry) (partitions : List Partition)
    (name : String) (t : Int) :
    (w.setOf log partitions name).points[t]?
      = lastSome (fun p => w.shown (itemSamples log p.table p.item name) t) partitions := by
  rw [setOf, PointSet.getElem?_ofPoints, lastUnder, lastSome_flatMap]
  rfl

-- A fetch fails at once for a window without partitions.
theorem outcome_fetchMap_of_error {σ : Type} (settings : StoreSettings) (order : Nat → Fanout.Order)
    {w : Window} {e : WindowError} (h : w.partitions settings.tablePrefix = .error e) (pattern : String)
    (b : Backend σ) (s : σ) :
    outcome (b.fetchMap settings order pattern w) s = (.error (.ofWindow e), s) := by
  have hplan : FetchUnit.plan settings w (Names.expand pattern) = .error e := by
    rw [FetchUnit.plan, h]
    rfl
  rw [Backend.fetchMap, hplan]
  rfl

theorem outcome_fetchMap_of_ok {σ : Type} (settings : StoreSettings) (order : Nat → Fanout.Order)
    {w : Window} {partitions : List Partition} (h : w.partitions settings.tablePrefix = .ok partitions)
    (pattern : String) (b : Backend σ) (s : σ) :
    outcome (b.fetchMap settings order pattern w) s
      = outcome (do
          let us := FetchUnit.units settings partitions (Names.expand pattern)
          let parts ← Fanout.runTasks (order us.length) (us.map (FetchUnit.run b w))
          liftExcept .ofMismatch ((w.entries (Names.expand pattern)).mergeAll parts)) s := by
  have hplan : FetchUnit.plan settings w (Names.expand pattern)
      = .ok (FetchUnit.units settings partitions (Names.expand pattern)) := by
    rw [FetchUnit.plan, h]
    rfl
  rw [Backend.fetchMap, hplan]
  rfl

variable {db : Database} {tables : List String} {log : List Entry}

-- A fetch has the sets of its names, whatever the size of the batches and the order of completion.
theorem outcome_fetchMap_eq (hc : Contents db tables log) {settings : StoreSettings}
    {order : Nat → Fanout.Order} (horder : ∀ count, (order count).Perm (List.range count))
    {w : Window} {partitions : List Partition}
    (hpartitions : w.partitions settings.tablePrefix = .ok partitions) (pattern : String) :
    outcome (backend.fetchMap settings order pattern w) db
      = (.ok (PointMap.ofList ((Names.expand pattern).map (w.setOf log partitions))), db) := by
  let names := Names.expand pattern
  let us := FetchUnit.units settings partitions names
  obtain ⟨partOf, hyields, hrun⟩ := FetchUnit.exists_outcome_runTasks hc w
  have hsteps : ∀ part ∈ us.map partOf, part.Uniform w.step :=
    List.forall_mem_map.mpr fun u _ => (hyields u).uniform
  obtain ⟨m, hmerge, hm, hkeys, hat⟩ := PointMap.mergeAll_uniform (w.uniform_entries names) hsteps
  have hsets : m = PointMap.ofList (names.map (w.setOf log partitions)) := by
    refine PointMap.eq_ofList_map (w.name_setOf log partitions) (w.step_setOf log partitions) hm ?_ ?_
    · intro name
      rw [hkeys, w.isSome_get?_entries]
      constructor
      · rintro (hn | ⟨part, hp, hs⟩)
        · exact hn
        · obtain ⟨u, hu, rfl⟩ := List.mem_map.mp hp
          exact FetchUnit.mem_of_mem_units hu ((hyields u).names name hs)
      · exact .inl
    · intro name hn t
      rw [hat, w.at?_entries, Option.or_none, FetchUnit.lastSome_units hyields, if_pos hn,
        w.getElem?_setOf]
  rw [outcome_fetchMap_of_ok settings order hpartitions, outcome_bind_ok (hrun us _ (horder us.length)),
    hmerge, outcome_liftExcept_ok, hsets]

-- A fetch whose partitions never disagree holds what the window shows of any of them.
theorem outcome_fetchMap (hc : Contents db tables log) {settings : StoreSettings}
    {order : Nat → Fanout.Order} (horder : ∀ count, (order count).Perm (List.range count))
    {w : Window} {partitions : List Partition}
    (hpartitions : w.partitions settings.tablePrefix = .ok partitions)
    (hagree : ∀ p ∈ partitions, ∀ q ∈ partitions, ∀ name t v v',
      w.Shows (itemSamples log p.table p.item name) t v →
        w.Shows (itemSamples log q.table q.item name) t v' → v = v')
    (pattern : String) :
    ∃ m, outcome (backend.fetchMap settings order pattern w) db = (.ok m, db) ∧
      m.Uniform w.step ∧ (∀ name, (m.get? name).isSome ↔ name ∈ Names.expand pattern) ∧
      ∀ name t value, m.at? name t = some value
        ↔ name ∈ Names.expand pattern ∧
          ∃ p ∈ partitions, w.Shows (itemSamples log p.table p.item name) t value := by
  have hname := w.name_setOf log partitions
  refine ⟨_, outcome_fetchMap_eq hc horder hpartitions pattern,
    PointMap.uniform_ofList_map hname (w.step_setOf log partitions) _,
    PointMap.isSome_get?_ofList_map hname _, ?_⟩
  intro name t value
  rw [PointMap.at?, PointMap.get?_ofList_map hname]
  by_cases hn : name ∈ Names.expand pattern
  · rw [if_pos hn, Option.bind_some, w.getElem?_setOf, lastSome_eq_some_iff]
    · simp only [Window.shown_eq_some_iff, hn, true_and]
    · intro p hp q hq v v' hv hv'
      exact hagree p hp q hq name t v v' (w.shown_eq_some_iff.mp hv) (w.shown_eq_some_iff.mp hv')
  · simp [hn]

theorem outcome_points {settings : StoreSettings} {pattern : String} {w : Window} {m : PointMap}
    (h : outcome (backend.fetchMap settings List.range pattern w) db = (.ok m, db)) :
    outcome (backend.points settings pattern w) db = (.ok m, db) := by
  rw [Backend.points, outcome_liftAction, h]
  rfl

theorem outcome_series {settings : StoreSettings} {pattern : String} {w : Window} {m : PointMap}
    (h : outcome (backend.fetchMap settings List.range pattern w) db = (.ok m, db)) :
    outcome (backend.series settings pattern w) db = (QueryError.inWords (m.toSeries w.start.toInt), db) := by
  rw [Backend.series, outcome_bind_ok (outcome_points h), outcome_liftExcept]

end Cadence
