import Cadence.Proofs.Store.Batches
import Cadence.Proofs.Store.Series

namespace Cadence

open Keyed Cadence.Metric Sample

-- A state of a backend that was empty: writers of stores have left it, or calls of the backend itself.
def Attained (db : Database) : Prop :=
  Reached db ∨ ∃ calls, db = performEach calls (Database.empty (some mergeRule))

variable {db : Database} {tables : List String} {log : List Entry}

theorem Attained.contents (h : Attained db) : ∃ tables log, Contents db tables log := by
  rcases h with h | ⟨calls, rfl⟩
  · obtain ⟨tables, log, hf, -⟩ := h.filled
    exact ⟨tables, log, hf.toContents⟩
  · exact contents_performEach calls contents_empty

theorem contents_of_performAll (hc : Contents db tables log) (name : String) (calls : List WriteCall) :
    ∃ (tables' : List String) (puts : List ItemPut), (∀ p ∈ puts, p ∈ calls.filterMap putOf?) ∧
      Contents (outcome (backend.performAll name calls) db).2 tables'
        (log ++ puts.map (entryOf name)) := by
  induction calls generalizing db tables log with
  | nil =>
      refine ⟨tables, [], by simp, ?_⟩
      rw [List.map_nil, List.append_nil]
      exact hc
  | cons call calls ih =>
      rw [Backend.performAll]
      cases hcall : outcome (backend.perform name call) db with
      | mk result next =>
          cases result with
          | ok _ =>
              obtain ⟨tables', puts, hputs, hcontents⟩ := ih (contents_perform hc hcall)
              refine ⟨tables', (putOf? call).toList ++ puts, ?_, ?_⟩
              · intro p hp
                rw [List.filterMap_cons]
                cases hput : putOf? call with
                | none =>
                    rw [hput] at hp
                    exact hputs p hp
                | some q =>
                    rw [hput] at hp
                    rcases List.mem_cons.mp hp with rfl | hp
                    · exact List.mem_cons_self
                    · exact List.mem_cons_of_mem _ (hputs p hp)
              · rw [outcome_bind_ok hcall]
                cases hput : putOf? call <;> simpa [hput, List.append_assoc] using hcontents
          | error e =>
              rw [outcome_bind_error hcall, state_of_error hcall]
              exact ⟨tables, [], by simp, by simpa using hc⟩

-- Whatever becomes of a write, what it puts goes into tables of its prefix.
theorem Insertion.contents_leaves (hc : Contents db tables log) (i : Insertion) :
    ∃ tables' es, Contents (i.leaves db) tables' (log ++ es) ∧
      ∀ e ∈ es, ∃ (tier : Tier) (epoch : Timestamp),
        e.table = tier.tableName i.settings.tablePrefix epoch := by
  unfold leaves Backend.write
  split
  · refine ⟨tables, [], ?_, by simp⟩
    rw [List.append_nil]
    exact hc
  · rw [outcome_liftAction]
    obtain ⟨tables', puts, hputs, hcontents⟩ :=
      contents_of_performAll hc i.metric.name (i.metric.calls i.settings.tablePrefix)
    refine ⟨tables', _, hcontents, ?_⟩
    intro e he
    obtain ⟨p, hp, rfl⟩ := List.mem_map.mp he
    have hp := hputs p hp
    rw [filterMap_calls] at hp
    obtain ⟨tier, htable, -⟩ := mem_puts hp
    exact ⟨tier, _, htable⟩

-- Puts under one prefix add nothing to the items that a window reads under another.
theorem Window.setOf_append {w : Window} {tablePrefix other : String} {partitions : List Partition}
    (hne : other ≠ tablePrefix) (h : w.partitions tablePrefix = .ok partitions) {es : List Entry}
    (hes : ∀ e ∈ es, ∃ (tier : Tier) (epoch : Timestamp), e.table = tier.tableName other epoch)
    (name : String) : w.setOf (log ++ es) partitions name = w.setOf log partitions name := by
  have hitem : ∀ p ∈ partitions, itemSamples (log ++ es) p.table p.item name
      = itemSamples log p.table p.item name := by
    intro p hp
    obtain ⟨-, htable⟩ := (mem_partitions_iff h p).mp hp
    have hnone : itemSamples es p.table p.item name = [] := by
      apply itemSamples_eq_nil
      rintro e he ⟨hetable, -, -⟩
      obtain ⟨tier, epoch, hown⟩ := hes e he
      exact hne (Tier.tableName_injective (hown.symm.trans (hetable.trans htable))).2.1
    rw [itemSamples_append, hnone, List.append_nil]
  have hpoints : (partitions.map fun p => FetchUnit.windowPoints w
        (union [] (itemSamples (log ++ es) p.table p.item name)))
      = partitions.map fun p => FetchUnit.windowPoints w
        (union [] (itemSamples log p.table p.item name)) :=
    List.map_congr_left fun p hp => by rw [hitem p hp]
  rw [setOf, setOf, List.flatMap_def, List.flatMap_def, hpoints]

-- A fetch under one prefix is the same before and after any write under another, and the name of a table
-- is that of one prefix, one tier and one epoch.
theorem fetchMap_unseen_prefix (h : Attained db) (i : Insertion) (settings : StoreSettings)
    (hne : i.settings.tablePrefix ≠ settings.tablePrefix) {order order' : Nat → Fanout.Order}
    (horder : ∀ count, (order count).Perm (List.range count))
    (horder' : ∀ count, (order' count).Perm (List.range count)) (pattern : String) (w : Window) :
    (∃ result, outcome (backend.fetchMap settings order pattern w) db = (result, db) ∧
      outcome (backend.fetchMap settings order' pattern w) (i.leaves db) = (result, i.leaves db)) ∧
    ∀ (tier other : Tier) (p q : String) (e f : Timestamp),
      tier.tableName p e = other.tableName q f ↔ tier = other ∧ p = q ∧ e = f := by
  constructor
  · obtain ⟨tables, log, hc⟩ := h.contents
    obtain ⟨tables', es, hleft, hes⟩ := i.contents_leaves hc
    cases hpartitions : w.partitions settings.tablePrefix with
    | error e =>
        exact ⟨_, outcome_fetchMap_of_error settings order hpartitions pattern backend db,
          outcome_fetchMap_of_error settings order' hpartitions pattern backend (i.leaves db)⟩
    | ok partitions =>
        refine ⟨_, outcome_fetchMap_eq hc horder hpartitions pattern, ?_⟩
        rw [outcome_fetchMap_eq hleft horder' hpartitions pattern]
        have hsets : w.setOf (log ++ es) partitions = w.setOf log partitions :=
          funext (Window.setOf_append hne hpartitions hes)
        rw [hsets]
  · intro tier other p q e f
    constructor
    · exact Tier.tableName_injective
    · rintro ⟨rfl, rfl, rfl⟩
      rfl

-- A prefix that looks like the name of a table under the other.
theorem fetchMap_unseen_prefix_alike :
    ∃ db result, Attained db ∧ "g-1m1h-0" ≠ "g" ∧
      outcome (backend.fetchMap ⟨"g", 1⟩ List.range "m" ⟨0, 3600⟩) db = (result, db) ∧
      outcome (backend.fetchMap ⟨"g", 1⟩ List.range "m" ⟨0, 3600⟩)
          (Insertion.leaves ⟨⟨"g-1m1h-0", 1⟩, ⟨"m", [⟨60, 2⟩]⟩⟩ db)
        = (result, Insertion.leaves ⟨⟨"g-1m1h-0", 1⟩, ⟨"m", [⟨60, 2⟩]⟩⟩ db) := by
  have hattained : Attained (Insertion.leaves ⟨⟨"g", 1⟩, ⟨"m", [⟨60, 1⟩]⟩⟩
      (Database.empty (some mergeRule))) := .inl (Reached.empty.leaves _)
  have hne : "g-1m1h-0" ≠ "g" := by decide
  obtain ⟨⟨result, hbefore, hafter⟩, -⟩ := fetchMap_unseen_prefix hattained
    ⟨⟨"g-1m1h-0", 1⟩, ⟨"m", [⟨60, 2⟩]⟩⟩ ⟨"g", 1⟩ hne
    (fun count => .refl (List.range count)) (fun count => .refl (List.range count)) "m" ⟨0, 3600⟩
  exact ⟨_, result, hattained, hne, hbefore, hafter⟩

end Cadence
