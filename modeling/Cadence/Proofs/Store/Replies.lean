import Cadence.Proofs.Fanout
import Cadence.Proofs.PointMap
import Cadence.Proofs.Sample.Encoding
import Cadence.Store.Fetch

namespace Cadence

-- What a read comes back with.
abbrev Reply := Except BackendError (List (String × Bytes))

namespace Reply

-- A reply that a fetch can use: there is no such table, or every value can be decoded.
def Usable : Reply → Prop
  | .ok items => ∀ item ∈ items, ∃ samples, Sample.decode item.2 = .ok samples
  | .error (.notFound _) => True
  | .error _ => False

-- The failure of a reply that a fetch cannot use. The first value that cannot be decoded is told.
inductive Fails : Reply → BackendError → Prop
  | refused {e} (h : ∀ text, e ≠ .notFound text) : Fails (.error e) e
  | undecodable (before item after) {fault}
      (hbefore : ∀ other ∈ before, ∃ samples, Sample.decode other.2 = .ok samples)
      (h : Sample.decode item.2 = .error fault) :
      Fails (.ok (before ++ item :: after)) (.encoding fault.message)

def names : Reply → List String
  | .ok items => items.map Prod.fst
  | .error _ => []

def itemSet (w : Window) (item : String × Bytes) : PointSet :=
  .ofPoints item.1 w.step (FetchUnit.windowPoints w (Sample.decodeWhole item.2))

-- The points of a reply in a window. Of several items of one name the last one stays.
def part (w : Window) : Reply → PointMap
  | .ok items => .ofList (items.map (itemSet w))
  | .error _ => .empty

-- What a reply holds for a name at an instant of a window: the last item of the name counts, and in
-- it the last sample at the instant.
def held (w : Window) (name : String) (t : Int) : Reply → Option (Option Float)
  | .ok items => (lastUnder Prod.fst Prod.snd name items).bind fun bytes =>
      lastUnder Prod.fst Prod.snd t (FetchUnit.windowPoints w (Sample.decodeWhole bytes))
  | .error _ => none

variable {w : Window} {reply : Reply} {items : List (String × Bytes)}

theorem usable_or_fails (reply : Reply) : reply.Usable ∨ ∃ e, reply.Fails e := by
  cases reply with
  | error e =>
      cases e with
      | notFound text => exact .inl trivial
      | _ => exact .inr ⟨_, .refused nofun⟩
  | ok items =>
      induction items with
      | nil => exact .inl nofun
      | cons item items ih =>
          cases hitem : Sample.decode item.2 with
          | error fault => exact .inr ⟨_, .undecodable [] item items nofun hitem⟩
          | ok samples =>
              rcases ih with hrest | ⟨e, he⟩
              · exact .inl (List.forall_mem_cons.mpr ⟨⟨samples, hitem⟩, hrest⟩)
              · cases he with
                | undecodable before torn after hbefore h =>
                    exact .inr ⟨_, .undecodable (item :: before) torn after
                      (List.forall_mem_cons.mpr ⟨⟨samples, hitem⟩, hbefore⟩) h⟩

-- What becomes of one item: its points, or the fault of its value.
def readItem (w : Window) (item : String × Bytes) : Except BackendError PointSet :=
  match Sample.decode item.2 with
  | .ok samples => .ok (.ofPoints item.1 w.step (FetchUnit.windowPoints w samples))
  | .error fault => .error (.encoding fault.message)

theorem pointsOf_eq (w : Window) (items : List (String × Bytes)) :
    FetchUnit.pointsOf w items = (items.mapM (readItem w)).map .ofList := by
  change (do return PointMap.ofList (← items.mapM (readItem w))) = _
  cases items.mapM (readItem w) <;> rfl

theorem mapM_readItem (w : Window)
    (h : ∀ item ∈ items, ∃ samples, Sample.decode item.2 = .ok samples) :
    items.mapM (readItem w) = .ok (items.map (itemSet w)) := by
  rw [mapM_eq_ok_iff, List.map_map]
  apply List.map_congr_left
  intro item hitem
  obtain ⟨samples, hsamples⟩ := h item hitem
  have hwhole : samples = Sample.decodeWhole item.2 := by
    rw [← (Sample.decode_eq_ok_iff _ _).mp hsamples, Sample.decodeWhole_encode]
  rw [readItem, hsamples, hwhole]
  rfl

theorem points_of_usable (w : Window) (h : reply.Usable) :
    FetchUnit.points w reply = .ok (reply.part w) := by
  cases reply with
  | error e =>
      cases e with
      | notFound text => rfl
      | _ => exact h.elim
  | ok items =>
      rw [FetchUnit.points, pointsOf_eq, mapM_readItem w h]
      rfl

theorem points_of_fails (w : Window) {e : BackendError} (h : reply.Fails e) :
    FetchUnit.points w reply = .error e := by
  cases h with
  | refused h =>
      cases e with
      | notFound text => exact absurd rfl (h text)
      | _ => rfl
  | undecodable _ _ _ hbefore h =>
      rw [FetchUnit.points, pointsOf_eq, List.mapM_append, mapM_readItem w hbefore, List.mapM_cons,
        readItem, h]
      rfl

theorem points_eq_ok_iff {m : PointMap} :
    FetchUnit.points w reply = .ok m ↔ reply.Usable ∧ m = reply.part w := by
  rcases usable_or_fails reply with h | ⟨e, he⟩
  · rw [points_of_usable w h, Except.ok.injEq]
    exact ⟨fun hm => ⟨h, hm.symm⟩, fun hm => hm.2.symm⟩
  · rw [points_of_fails w he]
    refine ⟨nofun, ?_⟩
    rintro ⟨h, -⟩
    exact absurd (points_of_usable w h) (by rw [points_of_fails w he]; nofun)

theorem points_eq_error_iff {e : BackendError} :
    FetchUnit.points w reply = .error e ↔ reply.Fails e := by
  refine ⟨fun hpoints => ?_, points_of_fails w⟩
  rcases usable_or_fails reply with h | ⟨e', he⟩
  · rw [points_of_usable w h] at hpoints
    cases hpoints
  · rw [points_of_fails w he] at hpoints
    cases hpoints
    exact he

theorem eq_map_part_of_points {replies : List Reply} {parts : List PointMap}
    (h : replies.map (FetchUnit.points w) = parts.map .ok) : parts = replies.map (part w) := by
  induction replies generalizing parts with
  | nil => exact List.map_eq_nil_iff.mp h.symm
  | cons reply replies ih =>
      cases parts with
      | nil => cases h
      | cons m parts =>
          obtain ⟨hfirst, hrest⟩ := List.cons.inj h
          rw [List.map_cons, ← (points_eq_ok_iff.mp hfirst).2, ← ih hrest]

theorem failure?_points_eq_some_iff {e : BackendError} :
    Fanout.failure? (FetchUnit.points w reply) = some e ↔ reply.Fails e := by
  rw [← points_eq_error_iff (w := w)]
  cases FetchUnit.points w reply <;> simp [Fanout.failure?]

theorem failure?_points_eq_none_iff :
    Fanout.failure? (FetchUnit.points w reply) = none ↔ reply.Usable := by
  rcases usable_or_fails reply with h | ⟨e, he⟩
  · rw [points_of_usable w h]
    exact ⟨fun _ => h, fun _ => rfl⟩
  · refine ⟨fun hnone => ?_, fun h => ?_⟩
    · rw [points_of_fails w he] at hnone
      cases hnone
    · rw [points_of_usable w h]
      rfl

theorem get?_ofList_items (w : Window) (items : List (String × Bytes)) (name : String) :
    (PointMap.ofList (items.map (itemSet w))).get? name
      = (lastUnder Prod.fst Prod.snd name items).map fun bytes => itemSet w (name, bytes) := by
  rw [PointMap.get?_ofList]
  induction items with
  | nil => rfl
  | cons item items ih =>
      have hname : (itemSet w item).name = item.1 := PointSet.name_ofPoints _ _ _
      rw [List.map_cons, lastUnder_cons, lastUnder_cons, ih, hname]
      by_cases hn : item.1 = name
      · subst hn
        cases lastUnder Prod.fst Prod.snd item.1 items <;> simp
      · simp [hn]

theorem uniform_part (w : Window) (reply : Reply) : (reply.part w).Uniform w.step := by
  intro name s hs
  cases reply with
  | error e => simp [part, PointMap.get?, PointMap.empty] at hs
  | ok items =>
      rw [part, get?_ofList_items] at hs
      obtain ⟨bytes, -, rfl⟩ := Option.map_eq_some_iff.mp hs
      exact ⟨PointSet.name_ofPoints _ _ _, PointSet.step_ofPoints _ _ _⟩

theorem isSome_get?_part (w : Window) (reply : Reply) (name : String) :
    ((reply.part w).get? name).isSome ↔ name ∈ reply.names := by
  cases reply with
  | error e => simp [part, names, PointMap.get?, PointMap.empty]
  | ok items =>
      rw [part, get?_ofList_items, Option.isSome_map, Option.isSome_iff_ne_none, ne_eq,
        lastUnder_eq_none_iff]
      simp [names]

theorem at?_part (w : Window) (reply : Reply) (name : String) (t : Int) :
    (reply.part w).at? name t = reply.held w name t := by
  cases reply with
  | error e => simp [part, held, PointMap.at?, PointMap.get?, PointMap.empty]
  | ok items =>
      rw [part, held, PointMap.at?, get?_ofList_items, Option.bind_map]
      congr 1
      funext bytes
      exact PointSet.getElem?_ofPoints _ _ _ t

end Reply

def Window.entries (w : Window) (names : List String) : PointMap :=
  .ofList (names.map fun name => PointSet.empty name w.step)

theorem Window.uniform_entries (w : Window) (names : List String) : (w.entries names).Uniform w.step :=
  PointMap.uniform_ofList_map (PointSet.name_empty · w.step) (PointSet.step_empty · w.step) names

theorem Window.isSome_get?_entries (w : Window) (names : List String) (name : String) :
    ((w.entries names).get? name).isSome ↔ name ∈ names :=
  PointMap.isSome_get?_ofList_map (PointSet.name_empty · w.step) names name

theorem Window.at?_entries (w : Window) (names : List String) (name : String) (t : Int) :
    (w.entries names).at? name t = none := by
  rw [PointMap.at?, entries, PointMap.get?_ofList_map (PointSet.name_empty · w.step)]
  split <;> simp [PointSet.empty]

-- Whatever the replies to some reads are, their points can be united.
theorem Reply.exists_mergeAll {γ : Type} (w : Window) (names : List String) (reads : List γ)
    (answer : γ → Reply) :
    ∃ m : PointMap,
      (w.entries names).mergeAll (reads.map fun read => (answer read).part w) = .ok m ∧
      m.Uniform w.step ∧
      (∀ name, (m.get? name).isSome ↔ name ∈ names ∨ ∃ read ∈ reads, name ∈ (answer read).names) ∧
      ∀ name t, m.at? name t = lastSome (fun read => (answer read).held w name t) reads := by
  have hparts : ∀ m ∈ reads.map (fun read => (answer read).part w), m.Uniform w.step :=
    List.forall_mem_map.mpr fun read _ => uniform_part w (answer read)
  obtain ⟨m, hmerge, hm, hkeys, hat⟩ :=
    PointMap.mergeAll_uniform (w.uniform_entries names) hparts
  refine ⟨m, hmerge, hm, ?_, ?_⟩
  · intro name
    rw [hkeys, w.isSome_get?_entries]
    refine or_congr_right ⟨?_, ?_⟩
    · rintro ⟨_, hm, hs⟩
      obtain ⟨read, hread, rfl⟩ := List.mem_map.mp hm
      exact ⟨read, hread, (isSome_get?_part w _ name).mp hs⟩
    · rintro ⟨read, hread, hname⟩
      exact ⟨_, List.mem_map_of_mem hread, (isSome_get?_part w _ name).mpr hname⟩
  · intro name t
    rw [hat, w.at?_entries, Option.or_none, lastSome_map]
    simp only [Function.comp_def, at?_part]

end Cadence
