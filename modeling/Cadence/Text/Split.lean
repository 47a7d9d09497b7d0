namespace Cadence.Text

-- What stands before the first separator and what follows it.
def cutAt? [DecidableEq α] (sep : α) : List α → Option (List α × List α)
  | [] => none
  | c :: cs =>
    if c = sep then some ([], cs)
    else (cutAt? sep cs).map fun (before, after) => (c :: before, after)

def consHead (c : α) : List (List α) → List (List α)
  | [] => [[c]]
  | part :: parts => (c :: part) :: parts

-- The parts between separators, one more than there are separators.
def splitOn [DecidableEq α] (sep : α) : List α → List (List α)
  | [] => [[]]
  | c :: cs => if c = sep then [] :: splitOn sep cs else consHead c (splitOn sep cs)

theorem cutAt?_eq_some [DecidableEq α] {sep : α} {cs before after : List α}
    (h : cutAt? sep cs = some (before, after)) : cs = before ++ sep :: after := by
  induction cs generalizing before with
  | nil => cases h
  | cons c cs ih =>
    unfold cutAt? at h
    split at h
    · rename_i hc
      cases h
      simp [hc]
    · simp only [Option.map_eq_some_iff, Prod.exists, Prod.mk.injEq] at h
      obtain ⟨b, a, hb, rfl, rfl⟩ := h
      simp [ih hb]

-- A cut leaves less than there was.
theorem length_lt_of_cutAt? [DecidableEq α] {sep : α} {cs before after : List α}
    (h : cutAt? sep cs = some (before, after)) : after.length < cs.length := by
  have := congrArg List.length (cutAt?_eq_some h)
  simp at this
  omega

theorem splitOn_ne_nil [DecidableEq α] (sep : α) (cs : List α) : splitOn sep cs ≠ [] := by
  cases cs with
  | nil => simp [splitOn]
  | cons c cs =>
    unfold splitOn
    split
    · simp
    · cases splitOn sep cs <;> simp [consHead]

theorem intercalate_splitOn [DecidableEq α] (sep : α) (cs : List α) : [sep].intercalate (splitOn sep cs) = cs := by
  induction cs with
  | nil => simp [splitOn]
  | cons c cs ih =>
    rw [splitOn]
    split
    · rename_i hc
      rw [List.intercalate_cons_of_ne_nil (splitOn_ne_nil sep cs), ih, hc]
      rfl
    · cases hsplit : splitOn sep cs with
      | nil => exact absurd hsplit (splitOn_ne_nil sep cs)
      | cons part parts =>
        rw [hsplit] at ih
        rw [consHead]
        cases parts with
        | nil => simpa using ih
        | cons next parts => simpa [List.intercalate_cons_cons] using ih

-- Parts without the separator are the parts of what joins them.
theorem splitOn_intercalate [DecidableEq α] {sep : α} {parts : List (List α)} (hne : parts ≠ [])
    (h : ∀ part ∈ parts, sep ∉ part) : splitOn sep ([sep].intercalate parts) = parts := by
  have hsplit : ∀ part : List α, sep ∉ part → splitOn sep part = [part] ∧
      ∀ rest, splitOn sep (part ++ sep :: rest) = part :: splitOn sep rest := by
    intro part hpart
    induction part with
    | nil => exact ⟨rfl, fun rest => if_pos rfl⟩
    | cons c part ih =>
      rw [List.mem_cons, not_or] at hpart
      obtain ⟨hend, hnext⟩ := ih hpart.2
      constructor
      · rw [splitOn, if_neg (Ne.symm hpart.1), hend]
        rfl
      · intro rest
        rw [List.cons_append, splitOn, if_neg (Ne.symm hpart.1), hnext]
        rfl
  induction parts with
  | nil => exact absurd rfl hne
  | cons part parts ih =>
    obtain ⟨hend, hnext⟩ := hsplit part (h part List.mem_cons_self)
    cases parts with
    | nil => simpa using hend
    | cons next rest =>
      rw [List.intercalate_cons_cons, List.append_assoc, List.singleton_append, hnext,
        ih (List.cons_ne_nil next rest) fun t ht => h t (List.mem_cons_of_mem _ ht)]

end Cadence.Text
