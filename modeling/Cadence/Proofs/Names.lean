import Cadence.Names

namespace Cadence.Names

open Text

theorem cutAt?_eq_none {α : Type} [DecidableEq α] {sep : α} {cs : List α} (h : sep ∉ cs) :
    cutAt? sep cs = none := by
  induction cs with
  | nil => rfl
  | cons c cs ih =>
      rw [List.mem_cons, not_or] at h
      obtain ⟨hc, hcs⟩ := h
      rw [cutAt?, if_neg (Ne.symm hc), ih hcs]
      rfl

theorem not_mem_of_cutAt?_eq_none {α : Type} [DecidableEq α] {sep : α} {cs : List α}
    (h : cutAt? sep cs = none) : sep ∉ cs := by
  induction cs with
  | nil => exact List.not_mem_nil
  | cons c cs ih =>
      unfold cutAt? at h
      split at h
      · cases h
      · rename_i hc
        rw [Option.map_eq_none_iff] at h
        rw [List.mem_cons, not_or]
        exact ⟨Ne.symm hc, ih h⟩

theorem not_mem_of_cutAt? {α : Type} [DecidableEq α] {sep : α} {cs before after : List α}
    (h : cutAt? sep cs = some (before, after)) : sep ∉ before := by
  induction cs generalizing before with
  | nil => cases h
  | cons c cs ih =>
      unfold cutAt? at h
      split at h
      · cases h
        exact List.not_mem_nil
      · rename_i hc
        simp only [Option.map_eq_some_iff, Prod.exists, Prod.mk.injEq] at h
        obtain ⟨front, back, hcut, rfl, rfl⟩ := h
        rw [List.mem_cons, not_or]
        exact ⟨Ne.symm hc, ih hcut⟩

theorem topLevel_plain {cs : List Char} (h : ',' ∉ cs) (depth : Nat) : topLevel depth cs = [cs] := by
  induction cs generalizing depth with
  | nil => rfl
  | cons c cs ih =>
      rw [List.mem_cons, not_or] at h
      obtain ⟨hc, hcs⟩ := h
      have hsep : ¬(c = ',' ∧ depth = 0) := fun hand => hc hand.1.symm
      rw [topLevel, if_neg hsep, ih hcs]
      rfl

theorem alternatives_plain {cs : List Char} (h : '\x7b' ∉ cs) : alternatives cs = [cs] := by
  unfold alternatives
  split
  · rfl
  · rename_i hopen
    rw [cutAt?_eq_none h] at hopen
    cases hopen

theorem expand_plain {name : String} (hne : name ≠ "") (hcomma : ',' ∉ name.toList)
    (hbrace : '\x7b' ∉ name.toList) : expand name = [name] := by
  have hchars : name.toList ≠ [] := by simpa using hne
  rw [expand, expandChars, topLevel_plain hcomma, List.flatMap_singleton, alternatives_plain hbrace]
  simp [hchars]

theorem mem_expand_plain {name : String} (hne : name ≠ "") (hcomma : ',' ∉ name.toList)
    (hbrace : '\x7b' ∉ name.toList) : name ∈ expand name := by
  rw [expand_plain hne hcomma hbrace]
  exact List.mem_singleton_self name

theorem flatten_batches {α : Type} (limit : Nat) (names : List α) :
    (batches limit names).flatten = names := by
  fun_induction batches limit names with
  | case1 => rfl
  | case2 name rest ih => rw [List.flatten_cons, ih, List.take_append_drop]

theorem mem_batches {α : Type} (limit : Nat) (names : List α) (name : α) :
    (∃ batch ∈ batches limit names, name ∈ batch) ↔ name ∈ names := by
  rw [← List.mem_flatten, flatten_batches]

theorem batches_map {α β : Type} (f : α → β) (limit : Nat) (names : List α) :
    batches limit (names.map f) = (batches limit names).map (List.map f) := by
  fun_induction batches limit names with
  | case1 => rw [List.map_nil, batches, List.map_nil]
  | case2 name rest ih =>
      rw [List.map_cons, batches, ← List.map_cons, ← List.map_drop, ih, ← List.map_take, List.map_cons]

theorem length_le_of_mem_batches {α : Type} {limit : Nat} {names batch : List α}
    (h : batch ∈ batches limit names) : batch.length ≤ max limit 1 := by
  fun_induction batches limit names with
  | case1 => cases h
  | case2 name rest ih =>
      rcases List.mem_cons.mp h with rfl | h
      · exact List.length_take_le _ _
      · exact ih h

end Cadence.Names
