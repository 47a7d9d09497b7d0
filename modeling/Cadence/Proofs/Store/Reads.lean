import Cadence.Proofs.Store.Replies
import Cadence.Proofs.Store.Fetch

namespace Cadence

-- A backend that answers a read by what is read, and keeps the reads it has had.
def Backend.answering (answer : FetchUnit → Reply) : Backend (List FetchUnit) where
  ping := pure ()
  createTable _ := pure ()
  batchGet table item names := do
    let read : FetchUnit := ⟨⟨table, item⟩, names⟩
    modify (· ++ [read])
    ExceptT.mk (pure (answer read))
  put _ _ _ _ := pure ()

namespace FetchUnit

variable {answer : FetchUnit → Reply} {w : Window} {us : List FetchUnit} {order : Fanout.Order}

theorem outcome_run_answering (answer : FetchUnit → Reply) (w : Window) (u : FetchUnit)
    (reads : List FetchUnit) :
    outcome (run (.answering answer) w u) reads = (points w (answer u), reads ++ [u]) := rfl

def done (order : Fanout.Order) (us : List FetchUnit) : List FetchUnit :=
  order.filterMap (us[·]?)

theorem done_perm (h : order.Perm (List.range us.length)) : (done order us).Perm us := by
  have hget : (List.range us.length).map (us[·]?) = us.map some := by
    apply List.ext_getElem?
    intro i
    by_cases hi : i < us.length <;> simp [hi]
  have hall : (List.range us.length).filterMap (us[·]?) = us :=
    calc (List.range us.length).filterMap (us[·]?)
        = ((List.range us.length).map (us[·]?)).filterMap id := by
          rw [List.filterMap_map, Function.id_comp]
      _ = (us.map some).filterMap id := by rw [hget]
      _ = us := by rw [List.filterMap_map, Function.id_comp, List.filterMap_some]
  calc (done order us).Perm ((List.range us.length).filterMap (us[·]?)) := h.filterMap _
    _ = us := hall

theorem completes_answering (answer : FetchUnit → Reply) (w : Window)
    (tasks : List (Nat × FetchUnit)) (reads : List FetchUnit) :
    Fanout.Completes (tasks.map fun task => (task.1, run (.answering answer) w task.2)) reads
      (tasks.map fun task => (task.1, points w (answer task.2))) (reads ++ tasks.map (·.2)) := by
  induction tasks generalizing reads with
  | nil => simpa using Fanout.Completes.nil
  | cons task tasks ih =>
      rw [List.map_cons, List.map_cons, List.map_cons, List.append_cons]
      exact .cons (outcome_run_answering answer w task.2 reads) (ih _)

theorem outcome_runTasks_answering (answer : FetchUnit → Reply) (w : Window) (us : List FetchUnit)
    (order : Fanout.Order) (reads : List FetchUnit) :
    outcome (Fanout.runTasks order (us.map (run (.answering answer) w))) reads
      = (Fanout.collect us.length
          (Fanout.completions order (us.map fun u => points w (answer u))),
        reads ++ done order us) := by
  have h := completes_answering answer w
    (order.filterMap fun task => us[task]?.map (task, ·)) reads
  rw [List.map_filterMap, List.map_filterMap, List.map_filterMap] at h
  simp only [Option.map_map, Function.comp_def, Option.map_id'] at h
  have hstarted : (order.filterMap fun task =>
      (us.map (run (.answering answer) w))[task]?.map (task, ·))
      = order.filterMap fun task => us[task]?.map fun u => (task, run (.answering answer) w u) := by
    simp only [List.getElem?_map, Option.map_map, Function.comp_def]
  rw [← hstarted] at h
  rw [Fanout.outcome_runTasks_of_completes h, Fanout.completions, List.length_map]
  simp only [List.getElem?_map, Option.map_map, Function.comp_def]
  rfl

theorem findSome?_completions {β : Type} (f : FetchUnit → Except BackendError β)
    (order : Fanout.Order) (us : List FetchUnit) :
    (Fanout.completions order (us.map f)).findSome? (fun outcome => Fanout.failure? outcome.2)
      = (done order us).findSome? fun u => Fanout.failure? (f u) := by
  rw [Fanout.completions, done]
  induction order with
  | nil => rfl
  | cons task order ih =>
      rw [List.filterMap_cons, List.filterMap_cons, List.getElem?_map]
      cases us[task]? with
      | none => exact ih
      | some u =>
          simp only [Option.map_some, List.findSome?_cons]
          rw [ih]

theorem collect_answers (answer : FetchUnit → Reply) (w : Window)
    (horder : order.Perm (List.range us.length)) :
    ((∀ u ∈ us, (answer u).Usable) →
      Fanout.collect us.length (Fanout.completions order (us.map fun u => points w (answer u)))
        = .ok (us.map fun u => (answer u).part w)) ∧
    ((∃ u ∈ us, ¬(answer u).Usable) →
      ∃ before u after e, done order us = before ++ u :: after ∧
        (∀ v ∈ before, (answer v).Usable) ∧ (answer u).Fails e ∧
        Fanout.collect us.length (Fanout.completions order (us.map fun u => points w (answer u)))
          = .error e) := by
  constructor
  · intro h
    have hvalues : us.map (fun u => points w (answer u))
        = (us.map fun u => (answer u).part w).map .ok := by
      rw [List.map_map]
      exact List.map_congr_left fun u hu => Reply.points_of_usable w (h u hu)
    have hsize : us.length = (us.map fun u => (answer u).part w).length := (List.length_map _).symm
    rw [hvalues, hsize]
    exact Fanout.collect_values (hsize ▸ horder)
  · rintro ⟨u, hu, hunusable⟩
    let outcomes := us.map fun u => points w (answer u)
    have hsize : outcomes.length = us.length := List.length_map _
    have hsome : ((done order us).findSome? fun u => Fanout.failure? (points w (answer u))).isSome := by
      obtain ⟨e, he⟩ := (Reply.usable_or_fails (answer u)).resolve_left hunusable
      rw [List.findSome?_isSome_iff]
      refine ⟨u, (done_perm horder).mem_iff.mpr hu, ?_⟩
      rw [Reply.points_of_fails w he]
      rfl
    obtain ⟨e, hfirst⟩ := Option.isSome_iff_exists.mp hsome
    obtain ⟨before, v, after, hdone, hv, hbefore⟩ := List.findSome?_eq_some_iff.mp hfirst
    refine ⟨before, v, after, e, hdone, ?_, Reply.failure?_points_eq_some_iff.mp hv, ?_⟩
    · exact fun x hx => Reply.failure?_points_eq_none_iff.mp (hbefore x hx)
    · have hperm : order.Perm (List.range outcomes.length) := hsize ▸ horder
      have hcollect := Fanout.collect_completions hperm
      rw [findSome?_completions, hfirst, hsize] at hcollect
      exact hcollect

end FetchUnit

-- A window without partitions is told before any read. Otherwise each read of the plan is made once,
-- and all of them count in the order of the plan, or one that failed is told.
theorem fetchMap_answering (answer : FetchUnit → Reply) (settings : StoreSettings)
    {order : Nat → Fanout.Order} (horder : ∀ count, (order count).Perm (List.range count))
    (pattern : String) (w : Window) (reads : List FetchUnit) :
    (∀ e, w.partitions settings.tablePrefix = .error e →
      outcome ((Backend.answering answer).fetchMap settings order pattern w) reads
        = (.error (.ofWindow e), reads)) ∧
    (∀ partitions us, w.partitions settings.tablePrefix = .ok partitions →
      us = FetchUnit.units settings partitions (Names.expand pattern) →
      ∃ result done,
        outcome ((Backend.answering answer).fetchMap settings order pattern w) reads
          = (result, reads ++ done) ∧
        done.Perm us ∧
        ((∀ u ∈ us, (answer u).Usable) → ∃ m, result = .ok m ∧
          (w.entries (Names.expand pattern)).mergeAll (us.map fun u => (answer u).part w) = .ok m ∧
          m.Uniform w.step ∧
          (∀ name, (m.get? name).isSome
            ↔ name ∈ Names.expand pattern ∨ ∃ u ∈ us, name ∈ (answer u).names) ∧
          ∀ name t, m.at? name t = lastSome (fun u => (answer u).held w name t) us) ∧
        ((∃ u ∈ us, ¬(answer u).Usable) → ∃ before u after e, done = before ++ u :: after ∧
          (∀ v ∈ before, (answer v).Usable) ∧ (answer u).Fails e ∧ result = .error e)) ∧
    ∀ (names : List String) (answers : List Reply) (parts : List PointMap),
      answers.map (FetchUnit.points w) = parts.map .ok →
        ∃ m, (w.entries names).mergeAll parts = .ok m := by
  refine ⟨?_, ?_, ?_⟩
  · exact fun e he => outcome_fetchMap_of_error settings order he pattern _ reads
  · rintro partitions us hpartitions rfl
    let us := FetchUnit.units settings partitions (Names.expand pattern)
    obtain ⟨hall, hfail⟩ := FetchUnit.collect_answers answer w (horder us.length)
    obtain ⟨m, hmerge, hm, hkeys, hat⟩ :=
      Reply.exists_mergeAll w (Names.expand pattern) us answer
    have hruns := FetchUnit.outcome_runTasks_answering answer w us (order us.length) reads
    have hdone := FetchUnit.done_perm (horder us.length)
    by_cases husable : ∀ u ∈ us, (answer u).Usable
    · rw [hall husable] at hruns
      refine ⟨.ok m, FetchUnit.done (order us.length) us, ?_, hdone, ?_, ?_⟩
      · rw [outcome_fetchMap_of_ok settings order hpartitions, outcome_bind_ok hruns, hmerge]
        rfl
      · exact fun _ => ⟨m, rfl, hmerge, hm, hkeys, hat⟩
      · rintro ⟨u, hu, hunusable⟩
        exact absurd (husable u hu) hunusable
    · have hunusable : ∃ u ∈ us, ¬(answer u).Usable := by simpa using husable
      obtain ⟨before, u, after, e, hsplit, hbefore, hu, he⟩ := hfail hunusable
      rw [he] at hruns
      refine ⟨.error e, FetchUnit.done (order us.length) us, ?_, hdone, ?_, ?_⟩
      · rw [outcome_fetchMap_of_ok settings order hpartitions, outcome_bind_error hruns]
      · exact fun h => absurd h husable
      · exact fun _ => ⟨before, u, after, e, hsplit, hbefore, hu, rfl⟩
  · intro names answers parts h
    obtain ⟨m, hmerge, -⟩ := Reply.exists_mergeAll w names answers id
    exact ⟨m, Reply.eq_map_part_of_points h ▸ hmerge⟩

-- Of two items the first lies in no table; the second comes with a name that was not asked for, and with
-- another one twice, of which a point lies outside the window.
def unruly (read : FetchUnit) : Reply :=
  if read.partition.item = 0 then .error (.notFound read.partition.table)
  else .ok [("x", Sample.encode [⟨3600, 5⟩]), ("m", Sample.encode [⟨3660, 7⟩]),
    ("m", Sample.encode [⟨9000, 3⟩, ⟨3600, 1⟩, ⟨3600, 2⟩])]

theorem usable_unruly (read : FetchUnit) : (unruly read).Usable := by
  unfold unruly
  split
  · trivial
  · intro item hitem
    simp only [List.mem_cons, List.not_mem_nil, or_false] at hitem
    rcases hitem with rfl | rfl | rfl <;> exact ⟨_, Sample.decode_encode _⟩

theorem held_unruly (w : Window) (table : String) (names : List String) (t : Int) :
    (unruly ⟨⟨table, 3600⟩, names⟩).held w "m" t
      = lastUnder Prod.fst Prod.snd t
          (FetchUnit.windowPoints w [⟨9000, 3⟩, ⟨3600, 1⟩, ⟨3600, 2⟩]) := by
  rw [← Sample.decodeWhole_encode [⟨9000, 3⟩, ⟨3600, 1⟩, ⟨3600, 2⟩]]
  rfl

theorem fetchMap_answering_unruly :
    (∀ count, (List.range count).reverse.Perm (List.range count)) ∧
    ∃ m done,
      outcome ((Backend.answering unruly).fetchMap ⟨"g", 1⟩ (fun count => (List.range count).reverse)
        "m" ⟨0, 7200⟩) [] = (.ok m, done) ∧
      (m.get? "x").isSome ∧ m.at? "m" 3600 = some (defined (Float.ofBits 2)) ∧
      m.at? "m" 3660 = none ∧ m.at? "m" 9000 = none := by
  have horder : ∀ count, (List.range count).reverse.Perm (List.range count) :=
    fun count => List.reverse_perm _
  have hnames : Names.expand "m" = ["m"] := Names.expand_plain (by decide) (by decide) (by decide)
  have hpartitions : (⟨0, 7200⟩ : Window).partitions "g"
      = .ok [⟨"g-1m1h-0", 0⟩, ⟨"g-1m1h-0", 3600⟩] := rfl
  have hunits : [⟨⟨"g-1m1h-0", 0⟩, ["m"]⟩, ⟨⟨"g-1m1h-0", 3600⟩, ["m"]⟩]
      = FetchUnit.units ⟨"g", 1⟩ [⟨"g-1m1h-0", 0⟩, ⟨"g-1m1h-0", 3600⟩] (Names.expand "m") := by
    simp [hnames, FetchUnit.units, Names.batches]
  obtain ⟨-, hok, -⟩ := fetchMap_answering unruly ⟨"g", 1⟩ horder "m" ⟨0, 7200⟩ []
  obtain ⟨_, done, hrun, -, hall, -⟩ := hok _ _ hpartitions hunits
  obtain ⟨m, rfl, -, -, hkeys, hat⟩ := hall fun read _ => usable_unruly read
  have hfirst : ∀ t, (unruly ⟨⟨"g-1m1h-0", 0⟩, ["m"]⟩).held ⟨0, 7200⟩ "m" t = none := fun _ => rfl
  have hlast : ∀ t, m.at? "m" t = lastUnder Prod.fst Prod.snd t
      (FetchUnit.windowPoints ⟨0, 7200⟩ [⟨9000, 3⟩, ⟨3600, 1⟩, ⟨3600, 2⟩]) := by
    intro t
    rw [hat, lastSome_cons, lastSome_singleton, hfirst, Option.or_none, held_unruly]
  refine ⟨horder, m, done, hrun, ?_, hlast 3600, hlast 3660, hlast 9000⟩
  exact (hkeys "x").mpr (.inr ⟨_, List.mem_cons_of_mem _ List.mem_cons_self, by decide⟩)

end Cadence
