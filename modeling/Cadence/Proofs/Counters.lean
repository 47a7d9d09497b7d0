import Cadence.Counters
import Mathlib.Algebra.Ring.Nat

namespace Cadence

theorem Endpoint.ofPath?_eq_some_iff {path : String} {e : Endpoint} : ofPath? path = some e ↔ path = e.path := by
  constructor
  · intro h
    have hfound := List.find?_some h
    exact (of_decide_eq_true hfound).symm
  · rintro rfl
    cases e <;> decide

namespace Tally

variable {α : Type} [DecidableEq α]

theorem count_nil (label : α) : count label [] = 0 := rfl

theorem count_cons (label l : α) (n : Nat) (t : Tally α) :
    count label ((l, n) :: t) = if label = l then n else count label t := by
  by_cases h : label = l
  · subst h
    simp [count]
  · have hne : (label == l) = false := beq_eq_false_iff_ne.mpr h
    simp [count, List.lookup_cons, hne, h]

theorem count_add (label other : α) (n : Nat) (t : Tally α) :
    (t.add label n).count other = t.count other + if other = label then n else 0 := by
  induction t with
  | nil =>
      rw [add, count_cons, count_nil]
      split <;> simp
  | cons entry t ih =>
      obtain ⟨l, m⟩ := entry
      by_cases hl : l = label
      · subst hl
        rw [add, if_pos rfl, count_cons, count_cons]
        split <;> rfl
      · rw [add, if_neg hl, count_cons, count_cons, ih]
        by_cases hother : other = l
        · subst hother
          rw [if_pos rfl, if_pos rfl, if_neg hl, Nat.add_zero]
        · rw [if_neg hother, if_neg hother]

theorem sum_add (label : α) (n : Nat) (t : Tally α) :
    ((t.add label n).map Prod.snd).sum = (t.map Prod.snd).sum + n := by
  induction t with
  | nil => simp [add]
  | cons entry t ih =>
      obtain ⟨l, m⟩ := entry
      by_cases hl : l = label
      · simp only [add, if_pos hl, List.map_cons, List.sum_cons]
        omega
      · simp only [add, if_neg hl, List.map_cons, List.sum_cons, ih]
        omega

theorem mem_labels_add (label other : α) (n : Nat) (t : Tally α) :
    other ∈ (t.add label n).map Prod.fst ↔ other = label ∨ other ∈ t.map Prod.fst := by
  induction t with
  | nil => simp [add]
  | cons entry t ih =>
      obtain ⟨l, m⟩ := entry
      by_cases hl : l = label
      · subst hl
        simp [add]
      · rw [add, if_neg hl, List.map_cons, List.map_cons, List.mem_cons, List.mem_cons, ih]
        exact or_left_comm

theorem nodup_labels_add (label : α) (n : Nat) {t : Tally α} (h : (t.map Prod.fst).Nodup) :
    ((t.add label n).map Prod.fst).Nodup := by
  induction t with
  | nil => simp [add]
  | cons entry t ih =>
      obtain ⟨l, m⟩ := entry
      obtain ⟨hl, ht⟩ := List.nodup_cons.mp h
      by_cases hlabel : l = label
      · rw [add, if_pos hlabel]
        exact h
      · rw [add, if_neg hlabel]
        refine List.nodup_cons.mpr ⟨?_, ih ht⟩
        rw [mem_labels_add, not_or]
        exact ⟨hlabel, hl⟩

end Tally

end Cadence
