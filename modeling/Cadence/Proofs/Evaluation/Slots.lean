import Cadence.Evaluation

namespace Cadence.Evaluator

open Target

theorem argTasks_eq_map (ev : Evaluator σ) (w : Window) (slot : Nat) (args : List Expr) :
    argTasks ev w slot args = (pending slot args).map fun arg => node (ev.below arg.1) w arg.2 := by
  induction args generalizing slot with
  | nil => rfl
  | cons arg args ih =>
      rw [argTasks, pending]
      cases literal? arg with
      | some value => exact ih (slot + 1)
      | none => exact congrArg _ (ih (slot + 1))

theorem mem_of_mem_pending {slot : Nat} {args : List Expr} {arg : Nat × Expr}
    (h : arg ∈ pending slot args) : arg.2 ∈ args := by
  induction args generalizing slot with
  | nil => cases h
  | cons first args ih =>
      rw [pending] at h
      cases hl : literal? first with
      | some value =>
          rw [hl] at h
          exact List.mem_cons_of_mem _ (ih h)
      | none =>
          rw [hl] at h
          rcases List.mem_cons.mp h with rfl | hm
          · exact List.mem_cons_self
          · exact List.mem_cons_of_mem _ (ih hm)

-- The values of arguments: literals have their own, the others one after the other those given.
inductive Merged : List Expr → List Argument → List Argument → Prop
  | nil : Merged [] [] []
  | literal {arg value args values merged} (own : literal? arg = some value)
      (rest : Merged args values merged) : Merged (arg :: args) values (value :: merged)
  | task {arg value args values merged} (own : literal? arg = none)
      (rest : Merged args values merged) : Merged (arg :: args) (value :: values) (value :: merged)

theorem exists_merged {slot : Nat} {args : List Expr} {values : List Argument}
    (h : values.length = (pending slot args).length) : ∃ merged, Merged args values merged := by
  induction args generalizing slot values with
  | nil =>
      rw [List.length_eq_zero_iff.mp h]
      exact ⟨[], .nil⟩
  | cons arg args ih =>
      rw [pending] at h
      cases hl : literal? arg with
      | some value =>
          rw [hl] at h
          obtain ⟨merged, hmerged⟩ := ih h
          exact ⟨value :: merged, .literal hl hmerged⟩
      | none =>
          rw [hl] at h
          obtain ⟨value, rest, rfl⟩ := List.exists_cons_of_length_eq_add_one h
          obtain ⟨merged, hmerged⟩ := ih (Nat.succ.inj h)
          exact ⟨value :: merged, .task hl hmerged⟩

-- The slots in front are those that are dealt with; the next slot is their number.
theorem fill_append {front : List (Option Argument)} {args : List Expr}
    {values merged : List Argument} (h : Merged args values merged) :
    fill (front ++ literalSlots args) (((pending front.length args).map (·.1)).zip values)
      = front ++ merged.map some := by
  induction h generalizing front with
  | nil => rfl
  | @literal arg value args values merged own rest ih =>
      have hnext := @ih (front ++ [some value])
      rw [List.length_append, List.append_assoc, List.append_assoc] at hnext
      rw [pending, own, literalSlots, List.map_cons, own]
      exact hnext
  | @task arg value args values merged own rest ih =>
      have hnext := @ih (front ++ [some value])
      rw [List.length_append, List.append_assoc, List.append_assoc] at hnext
      have hset : (front ++ none :: literalSlots args).set front.length (some value)
          = front ++ some value :: literalSlots args := by
        rw [List.set_append_right _ _ (Nat.le_refl _), Nat.sub_self, List.set_cons_zero]
      rw [pending, own, literalSlots, List.map_cons, own, List.map_cons, List.zip_cons_cons, fill,
        List.foldl_cons]
      change fill ((front ++ none :: literalSlots args).set front.length (some value)) _ = _
      rw [hset]
      exact hnext

theorem argValues_eq {args : List Expr} {values merged : List Argument}
    (h : Merged args values merged) : argValues args values = merged := by
  have hfill := @fill_append [] args values merged h
  rw [List.nil_append, List.length_nil] at hfill
  rw [argValues, hfill, List.nil_append, List.filterMap_map]
  exact List.filterMap_some

end Cadence.Evaluator
