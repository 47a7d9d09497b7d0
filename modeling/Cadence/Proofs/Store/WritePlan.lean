import Cadence.Proofs.Store.Writers

namespace Cadence

open Keyed Cadence.Metric

variable {σ α : Type}

inductive BackendCall where
  | ping
  | createTable (table : String)
  | batchGet (table : String) (item : Timestamp) (names : List String)
  | put (e : Entry)

namespace BackendCall

-- An action whose call is noted before it is performed.
def noted (call : BackendCall) (act : Action σ α) : Action (σ × List BackendCall) α :=
  ExceptT.mk fun (s, calls) => ((outcome act s).1, (outcome act s).2, calls ++ [call])

def ofWrite (name : String) : WriteCall → BackendCall
  | .createTable table => createTable table
  | .put table item samples => put ⟨table, item, name, samples⟩

def entry? : BackendCall → Option Entry
  | put e => some e
  | _ => none

def created? : BackendCall → Option String
  | createTable table => some table
  | _ => none

def entries (calls : List BackendCall) : List Entry := calls.filterMap entry?

theorem filterMap_created? (name : String) (calls : List WriteCall) :
    (calls.map (ofWrite name)).filterMap created? = calls.filterMap tableOf? := by
  rw [List.filterMap_map]
  congr 1
  funext call
  cases call <;> rfl

theorem entries_map (name : String) (calls : List WriteCall) :
    entries (calls.map (ofWrite name)) = (calls.filterMap putOf?).map (entryOf name) := by
  rw [entries, List.filterMap_map, List.map_filterMap]
  congr 1
  funext call
  cases call <;> rfl

end BackendCall

namespace Backend

-- A backend that notes its calls.
def noting (b : Backend σ) : Backend (σ × List BackendCall) where
  ping := BackendCall.ping.noted b.ping
  createTable table := (BackendCall.createTable table).noted (b.createTable table)
  batchGet table item names := (BackendCall.batchGet table item names).noted (b.batchGet table item names)
  put table item name samples :=
    (BackendCall.put ⟨table, item, name, samples⟩).noted (b.put table item name samples)

-- Whether nothing that changes the storage fails.
structure Unfailing (b : Backend σ) : Prop where
  createTable : ∀ table s, (outcome (b.createTable table) s).1 = .ok ()
  put : ∀ table item name samples s, (outcome (b.put table item name samples) s).1 = .ok ()

theorem perform_noting (b : Backend σ) (name : String) (call : WriteCall) :
    b.noting.perform name call = (BackendCall.ofWrite name call).noted (b.perform name call) := by
  cases call <;> rfl

theorem Unfailing.perform {b : Backend σ} (h : b.Unfailing) (name : String) (call : WriteCall) (s : σ) :
    (outcome (b.perform name call) s).1 = .ok () := by
  cases call with
  | createTable table => exact h.createTable table s
  | put table item samples => exact h.put table item name samples s

theorem Unfailing.performAll {b : Backend σ} (h : b.Unfailing) (name : String) (calls : List WriteCall)
    (s : σ) (noted : List BackendCall) :
    ∃ s', outcome (b.performAll name calls) s = (.ok (), s') ∧
      outcome (b.noting.performAll name calls) (s, noted)
        = (.ok (), s', noted ++ calls.map (BackendCall.ofWrite name)) := by
  induction calls generalizing s noted with
  | nil => exact ⟨s, rfl, by rw [List.map_nil, List.append_nil]; rfl⟩
  | cons call calls ih =>
      have hfirst : outcome (b.perform name call) s = (.ok (), (outcome (b.perform name call) s).2) :=
        Prod.ext (h.perform name call s) rfl
      have hnoted : outcome (b.noting.perform name call) (s, noted)
          = (.ok (), (outcome (b.perform name call) s).2, noted ++ [BackendCall.ofWrite name call]) := by
        rw [perform_noting]
        exact congrArg (·, (outcome (b.perform name call) s).2, _) (h.perform name call s)
      obtain ⟨s', hrest, hnotes⟩ := ih (outcome (b.perform name call) s).2
        (noted ++ [BackendCall.ofWrite name call])
      refine ⟨s', (outcome_bind_ok hfirst _).trans hrest, ?_⟩
      rw [List.append_assoc, List.singleton_append] at hnotes
      exact (outcome_bind_ok hnoted _).trans hnotes

end Backend

namespace Metric

-- The samples of a metric, each at the largest multiple of the step that is not above its timestamp, or at
-- the lowest timestamp where that multiple is below it.
def floored (m : Metric) (tier : Tier) : List Sample :=
  m.samples.map fun s => ⟨s.time.floor tier.step, s.bits⟩

-- What the calls for one tier have to be. An item is named by the epochs of its table and its own.
structure SharedOut (tablePrefix : String) (m : Metric) (tier : Tier) (calls : List BackendCall) :
    Prop where
  writes : ∀ call ∈ calls, (∃ e, call = .put e) ∨
    ∃ e ∈ BackendCall.entries calls, call = .createTable e.table
  placed : ∀ e ∈ BackendCall.entries calls,
    e.name = m.name ∧ e.table = tier.tableName tablePrefix (tier.tableEpoch e.item)
  ascending : (BackendCall.entries calls).Pairwise fun e f =>
    tier.tableEpoch e.item < tier.tableEpoch f.item ∨
      tier.tableEpoch e.item = tier.tableEpoch f.item ∧ e.item < f.item
  items : ∀ table item, (∃ e ∈ BackendCall.entries calls, e.table = table ∧ e.item = item)
    ↔ ∃ s ∈ m.floored tier, table = tier.tableName tablePrefix (tier.tableEpoch s.time) ∧
      item = tier.itemEpoch s.time
  filled : ∀ e ∈ BackendCall.entries calls, e.samples ≠ []
  inOrder : ∀ e ∈ BackendCall.entries calls,
    e.samples = (m.floored tier).filter fun s => tier.itemEpoch s.time = e.item
  whole : ((BackendCall.entries calls).flatMap Entry.samples).Perm (m.floored tier)

-- What the calls of a whole write have to be.
structure WrittenBy (tablePrefix : String) (m : Metric) (calls : List BackendCall) : Prop where
  finestFirst : (∀ tier : Tier, tier ∈ Tier.all) ∧ Tier.all.Pairwise fun fine coarse => fine.step < coarse.step
  tiers : ∃ part : Tier → List BackendCall, calls = Tier.all.flatMap part ∧
    ∀ tier, SharedOut tablePrefix m tier (part tier)
  once : (calls.filterMap BackendCall.created?).Nodup
  before : ∀ front e back, calls = front ++ .put e :: back → .createTable e.table ∈ front

-- Samples that are sorted by a key are all there, as long as each key is taken once.
theorem flatMap_filter_perm {β γ : Type} [DecidableEq γ] (key : β → γ) {keys : List γ} (h : keys.Nodup)
    (xs : List β) :
    (keys.flatMap fun k => xs.filter (key · = k)).Perm (xs.filter (key · ∈ keys)) := by
  induction keys with
  | nil => simp
  | cons k keys ih =>
      obtain ⟨hk, hkeys⟩ := List.nodup_cons.mp h
      have hparts := List.filter_append_perm (fun x => decide (key x = k))
        (xs.filter (key · ∈ k :: keys))
      rw [List.filter_filter, List.filter_filter] at hparts
      have hfirst : ∀ x, (decide (key x = k) && decide (key x ∈ k :: keys)) = decide (key x = k) := by
        intro x
        by_cases hx : key x = k <;> simp [hx]
      have hrest : ∀ x, (!decide (key x = k) && decide (key x ∈ k :: keys)) = decide (key x ∈ keys) := by
        intro x
        by_cases hx : key x = k <;> simp [hx, hk]
      simp only [hfirst, hrest] at hparts
      exact ((ih hkeys).append_left _).trans hparts

theorem ascending_itemEpochs (tier : Tier) (samples : List Sample) :
    (itemEpochs tier samples).Pairwise (· < ·) := by
  refine Std.ExtTreeMap.ordered_keys.imp ?_
  intro item other hlt
  exact compareOfLessAndEq_eq_lt.mp hlt

variable {tablePrefix : String}

theorem withTables_congr {created other : List String} {ps : List ItemPut}
    (h : ∀ p ∈ ps, p.table ∈ created ↔ p.table ∈ other) :
    withTables created ps = withTables other ps := by
  induction ps generalizing created other with
  | nil => rfl
  | cons p ps ih =>
      have hp := h p List.mem_cons_self
      have hps : ∀ q ∈ ps, q.table ∈ created ↔ q.table ∈ other :=
        fun q hq => h q (List.mem_cons_of_mem p hq)
      by_cases hcreated : p.table ∈ created
      · rw [withTables, withTables, if_pos hcreated, if_pos (hp.mp hcreated), ih hps]
      · have hmore : ∀ q ∈ ps, q.table ∈ p.table :: created ↔ q.table ∈ p.table :: other := by
          intro q hq
          rw [List.mem_cons, List.mem_cons, hps q hq]
        rw [withTables, withTables, if_neg hcreated, if_neg (mt hp.mpr hcreated), ih hmore]

-- Puts into other tables have theirs created as if nothing went before.
theorem withTables_append {created : List String} {ps qs : List ItemPut}
    (hcreated : ∀ q ∈ qs, q.table ∉ created) (hne : ∀ p ∈ ps, ∀ q ∈ qs, p.table ≠ q.table) :
    withTables created (ps ++ qs) = withTables created ps ++ withTables [] qs := by
  induction ps generalizing created with
  | nil =>
      refine withTables_congr fun q hq => iff_of_false (hcreated q hq) ?_
      exact List.not_mem_nil
  | cons p ps ih =>
      have hps : ∀ p ∈ ps, ∀ q ∈ qs, p.table ≠ q.table := fun r hr => hne r (List.mem_cons_of_mem p hr)
      by_cases hmem : p.table ∈ created
      · rw [List.cons_append, withTables, withTables, if_pos hmem, if_pos hmem, ih hcreated hps]
        rfl
      · have hmore : ∀ q ∈ qs, q.table ∉ p.table :: created := by
          intro q hq
          rw [List.mem_cons, not_or]
          exact ⟨(hne p List.mem_cons_self q hq).symm, hcreated q hq⟩
        rw [List.cons_append, withTables, withTables, if_neg hmem, if_neg hmem, ih hmore hps]
        rfl

theorem withTables_flatMap {β : Type} {puts : β → List ItemPut} {xs : List β}
    (h : xs.Pairwise fun x y => ∀ p ∈ puts x, ∀ q ∈ puts y, p.table ≠ q.table) :
    withTables [] (xs.flatMap puts) = xs.flatMap fun x => withTables [] (puts x) := by
  induction xs with
  | nil => rfl
  | cons x xs ih =>
      obtain ⟨hx, hxs⟩ := List.pairwise_cons.mp h
      have hne : ∀ p ∈ puts x, ∀ q ∈ xs.flatMap puts, p.table ≠ q.table := by
        intro p hp q hq
        obtain ⟨y, hy, hq⟩ := List.mem_flatMap.mp hq
        exact hx y hy p hp q hq
      rw [List.flatMap_cons, List.flatMap_cons, withTables_append (fun _ _ => List.not_mem_nil) hne,
        ih hxs]

-- Two tiers have no table in common, so that the calls for one do not depend on those for another.
theorem calls_eq_flatMap (tablePrefix : String) (m : Metric) :
    m.calls tablePrefix
      = Tier.all.flatMap fun tier => withTables [] (tierPuts tablePrefix m.samples tier) := by
  have htiers : Tier.all.Pairwise (· ≠ ·) := by decide
  refine withTables_flatMap (htiers.imp ?_)
  intro tier other hne p hp q hq htable
  obtain ⟨item, -, rfl⟩ := List.mem_map.mp hp
  obtain ⟨item', -, rfl⟩ := List.mem_map.mp hq
  exact hne (Tier.tableName_injective htable).1

theorem mem_of_withTables_eq_append {created : List String} {ps : List ItemPut}
    {front back : List WriteCall} {table : String} {item : Timestamp} {samples : List Sample}
    (h : withTables created ps = front ++ .put table item samples :: back) :
    table ∈ created ∨ .createTable table ∈ front := by
  induction ps generalizing created front with
  | nil => cases front <;> cases h
  | cons p ps ih =>
      by_cases hcreated : p.table ∈ created
      · rw [withTables, if_pos hcreated] at h
        cases front with
        | nil =>
            cases h
            exact .inl hcreated
        | cons call front =>
            exact (ih (List.cons.inj h).2).imp id (List.mem_cons_of_mem call)
      · rw [withTables, if_neg hcreated] at h
        cases front with
        | nil => cases h
        | cons call front =>
            obtain ⟨rfl, hput⟩ := List.cons.inj h
            cases front with
            | nil =>
                cases hput
                exact .inr List.mem_cons_self
            | cons call front =>
                rcases ih (List.cons.inj hput).2 with hmem | hmem
                · rcases List.mem_cons.mp hmem with rfl | hmem
                  · exact .inr List.mem_cons_self
                  · exact .inl hmem
                · exact .inr (List.mem_cons_of_mem _ (List.mem_cons_of_mem _ hmem))

theorem entries_tier (tablePrefix : String) (m : Metric) (tier : Tier) :
    BackendCall.entries ((withTables [] (tierPuts tablePrefix m.samples tier)).map
        (BackendCall.ofWrite m.name))
      = (itemEpochs tier (m.floored tier)).map fun item =>
          ⟨tier.tableName tablePrefix (tier.tableEpoch item), item, m.name,
            (m.floored tier).filter fun s => tier.itemEpoch s.time = item⟩ := by
  rw [BackendCall.entries_map, filterMap_withTables, tierPuts, List.map_map]
  rfl

theorem sharedOut_tier (tablePrefix : String) (m : Metric) (tier : Tier) :
    SharedOut tablePrefix m tier
      ((withTables [] (tierPuts tablePrefix m.samples tier)).map (BackendCall.ofWrite m.name)) := by
  have hentries := entries_tier tablePrefix m tier
  constructor
  case writes =>
    intro call hcall
    obtain ⟨made, hmade, rfl⟩ := List.mem_map.mp hcall
    cases made with
    | put table item samples => exact .inl ⟨_, rfl⟩
    | createTable table =>
        obtain ⟨-, p, hp, rfl⟩ := mem_withTables_iff.mp hmade
        refine .inr ⟨entryOf m.name p, ?_, rfl⟩
        rw [BackendCall.entries_map, filterMap_withTables]
        exact List.mem_map_of_mem hp
  all_goals rw [hentries]
  case placed =>
    intro e he
    obtain ⟨item, -, rfl⟩ := List.mem_map.mp he
    exact ⟨rfl, rfl⟩
  case ascending =>
    rw [List.pairwise_map]
    refine (ascending_itemEpochs tier _).imp ?_
    intro item other hlt
    have hle := Timestamp.floor_mono (Int64.le_of_lt hlt) tier.tableWidth_pos
    rcases Int64.lt_or_eq_of_le hle with hepoch | hepoch
    · exact .inl hepoch
    · exact .inr ⟨hepoch, hlt⟩
  case items =>
    intro table item
    constructor
    · rintro ⟨e, he, rfl, rfl⟩
      obtain ⟨item, hitem, rfl⟩ := List.mem_map.mp he
      obtain ⟨s, hs, rfl⟩ := (mem_itemEpochs tier _ item).mp hitem
      exact ⟨s, hs, by rw [Tier.tableEpoch_itemEpoch], rfl⟩
    · rintro ⟨s, hs, rfl, rfl⟩
      have hitem := (mem_itemEpochs tier _ _).mpr ⟨s, hs, rfl⟩
      exact ⟨_, List.mem_map_of_mem hitem, by rw [Tier.tableEpoch_itemEpoch], rfl⟩
  case filled =>
    intro e he
    obtain ⟨item, hitem, rfl⟩ := List.mem_map.mp he
    exact filter_ne_nil_of_mem_itemEpochs hitem
  case inOrder =>
    intro e he
    obtain ⟨item, -, rfl⟩ := List.mem_map.mp he
    rfl
  case whole =>
    have hall : (m.floored tier).filter (tier.itemEpoch ·.time ∈ itemEpochs tier (m.floored tier))
        = m.floored tier := by
      rw [List.filter_eq_self]
      intro s hs
      exact decide_eq_true ((mem_itemEpochs tier _ _).mpr ⟨s, hs, rfl⟩)
    have hperm := flatMap_filter_perm (fun s : Sample => tier.itemEpoch s.time)
      (nodup_itemEpochs tier (m.floored tier)) (m.floored tier)
    rw [hall] at hperm
    rwa [List.flatMap_map]

theorem writtenBy_calls (tablePrefix : String) (m : Metric) :
    WrittenBy tablePrefix m ((m.calls tablePrefix).map (BackendCall.ofWrite m.name)) := by
  constructor
  case finestFirst =>
    exact ⟨Tier.mem_all, by decide⟩
  case tiers =>
    refine ⟨_, ?_, sharedOut_tier tablePrefix m⟩
    rw [calls_eq_flatMap, List.map_flatMap]
  case once =>
    rw [BackendCall.filterMap_created?]
    exact (nodup_withTables [] _).1
  case before =>
    intro front e back h
    obtain ⟨before, rest, hcalls, rfl, hrest⟩ := List.map_eq_append_iff.mp h
    obtain ⟨call, after, rfl, hcall, -⟩ := List.map_eq_cons_iff.mp hrest
    cases call with
    | createTable table => cases hcall
    | put table item samples =>
        cases hcall
        rcases mem_of_withTables_eq_append hcalls with hmem | hmem
        · cases hmem
        · exact List.mem_map.mpr ⟨_, hmem, rfl⟩

end Metric

-- A write to a backend that never fails is reported to have succeeded, and its calls are those that share
-- out its samples. A metric without a name is refused, and nothing is asked of the backend.
theorem outcome_write_noting {b : Backend σ} (h : b.Unfailing) (settings : StoreSettings) (m : Metric)
    (s : σ) :
    (m.name ≠ "" → ∃ s' calls, outcome (b.write settings m) s = (.ok (), s') ∧
      outcome (b.noting.write settings m) (s, []) = (.ok (), s', calls) ∧
      WrittenBy settings.tablePrefix m calls) ∧
    (m.name = "" → outcome (b.noting.write settings m) (s, [])
      = (.error (.argument "metric name must not be empty"), s, [])) := by
  constructor
  · intro hname
    obtain ⟨s', hwritten, hnoted⟩ := h.performAll m.name (m.calls settings.tablePrefix) s []
    refine ⟨s', _, ?_, ?_, writtenBy_calls settings.tablePrefix m⟩
    · rw [Backend.write, if_neg hname, outcome_liftAction, hwritten]
      rfl
    · rw [Backend.write, if_neg hname, outcome_liftAction, hnoted]
      rfl
  · intro hname
    rw [Backend.write, if_pos hname]
    rfl

-- Samples out of order, two of them in one slot and one at the lowest timestamp.
theorem outcome_write_noting_unsorted :
    ∃ b : Backend Unit, b.Unfailing ∧ ∃ s' calls,
      outcome (b.noting.write ⟨"g", 1⟩
          ⟨"m", [⟨3700, 1⟩, ⟨-1, 2⟩, ⟨3719, 3⟩, ⟨-9223372036854775808, 4⟩]⟩) ((), [])
        = (.ok (), s', calls) ∧
      WrittenBy "g" ⟨"m", [⟨3700, 1⟩, ⟨-1, 2⟩, ⟨3719, 3⟩, ⟨-9223372036854775808, 4⟩]⟩ calls := by
  let b : Backend Unit := ⟨pure (), fun _ => pure (), fun _ _ _ => pure [], fun _ _ _ _ => pure ()⟩
  have hb : b.Unfailing := ⟨fun _ _ => rfl, fun _ _ _ _ _ => rfl⟩
  obtain ⟨s', calls, -, hnoted, hcalls⟩ := (outcome_write_noting hb ⟨"g", 1⟩
    ⟨"m", [⟨3700, 1⟩, ⟨-1, 2⟩, ⟨3719, 3⟩, ⟨-9223372036854775808, 4⟩]⟩ ()).1 (by decide)
  exact ⟨b, hb, s', calls, hnoted, hcalls⟩

end Cadence
