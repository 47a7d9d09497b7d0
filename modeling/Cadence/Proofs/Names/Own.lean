import Cadence.Proofs.Names.Product

namespace Cadence.Names

open Text

-- A text in which nothing has a meaning in patterns. Behind a brace that never closes nothing has.
inductive Unmarked : List Char → Prop
  | plain {cs : List Char} (hcomma : ',' ∉ cs) (hopen : '\x7b' ∉ cs) : Unmarked cs
  | unclosed {before after : List Char} (hcomma : ',' ∉ before) (hopen : '\x7b' ∉ before)
      (hclose : '\x7d' ∉ after) : Unmarked (before ++ '\x7b' :: after)

theorem length_lt_of_group {cs before rest inside after : List Char}
    (hopen : cutAt? '\x7b' cs = some (before, rest)) (hclose : cutAt? '\x7d' rest = some (inside, after))
    (hle : ∀ ending ∈ alternatives after, ending.length ≤ after.length) :
    ∀ name ∈ alternatives cs, name.length < cs.length := by
  intro name h
  obtain ⟨choice, hchoice, ending, hending, rfl⟩ := (mem_alternatives_iff hopen hclose name).mp h
  have hchoice := (mem_splitOn hchoice).2.length_le
  have hending := hle ending hending
  rw [cutAt?_eq_some hopen, cutAt?_eq_some hclose]
  simp only [List.length_append, List.length_cons]
  omega

theorem length_le_of_mem_alternatives (cs : List Char) : ∀ name ∈ alternatives cs, name.length ≤ cs.length := by
  induction cs using alternatives.induct with
  | case1 cs hopen =>
      rw [alternatives_plain (not_mem_of_cutAt?_eq_none hopen)]
      simp
  | case2 cs before rest hopen hclose =>
      rw [alternatives_of_not_closed hopen hclose]
      simp
  | case3 cs before rest hopen inside after hclose ih =>
      exact fun name h => Nat.le_of_lt (length_lt_of_group hopen hclose ih name h)

-- The parts of a pattern are shorter than it, unless it is its only part.
theorem topLevel_cases (depth : Nat) (cs : List Char) :
    topLevel depth cs = [cs] ∨ ∀ part ∈ topLevel depth cs, part.length < cs.length := by
  induction cs generalizing depth with
  | nil => exact .inl rfl
  | cons c cs ih =>
      rw [topLevel]
      split
      · refine .inr fun part hpart => ?_
        rcases List.mem_cons.mp hpart with rfl | hpart
        · exact Nat.succ_pos _
        · rcases ih 0 with hone | hshort
          · rw [hone, List.mem_singleton] at hpart
            rw [hpart]
            exact Nat.lt_succ_self _
          · exact Nat.lt_succ_of_lt (hshort part hpart)
      · rcases ih (depthAfter depth c) with hone | hshort
        · rw [hone]
          exact .inl rfl
        · refine .inr fun part hpart => ?_
          obtain ⟨head, rest, hparts⟩ := List.exists_cons_of_ne_nil (topLevel_ne_nil (depthAfter depth c) cs)
          rw [hparts] at hpart hshort
          rw [consHead] at hpart
          rw [List.forall_mem_cons] at hshort
          rcases List.mem_cons.mp hpart with rfl | hpart
          · exact Nat.succ_lt_succ hshort.1
          · exact Nat.lt_succ_of_lt (hshort.2 part hpart)

theorem topLevel_unclosed {cs : List Char} (h : '\x7d' ∉ cs) (depth : Nat) :
    topLevel (depth + 1) cs = [cs] := by
  induction cs generalizing depth with
  | nil => rfl
  | cons c cs ih =>
      rw [List.mem_cons, not_or] at h
      have hdeep : ∃ deeper, depthAfter (depth + 1) c = deeper + 1 := by
        unfold depthAfter
        rw [if_neg (Ne.symm h.1)]
        split
        · exact ⟨depth + 1, rfl⟩
        · exact ⟨depth, rfl⟩
      obtain ⟨deeper, hdeeper⟩ := hdeep
      rw [topLevel, if_neg (by simp), hdeeper, ih h.2]
      rfl

-- In front of the first opening brace a comma ends a part.
theorem topLevel_ne_of_comma {before : List Char} (hcomma : ',' ∈ before) (hopen : '\x7b' ∉ before)
    (after : List Char) : topLevel 0 (before ++ after) ≠ [before ++ after] := by
  obtain ⟨front, back, rfl⟩ := List.append_of_mem hcomma
  have hfront : endDepth 0 front = 0 :=
    Nat.le_zero.mp (endDepth_of_not_open (fun hm => hopen (List.mem_append_left _ hm)) 0)
  rw [List.append_assoc, List.cons_append, topLevel_append_comma hfront]
  intro heq
  have hlength := congrArg List.length heq
  have hleft := List.length_pos_of_ne_nil (topLevel_ne_nil 0 front)
  have hright := List.length_pos_of_ne_nil (topLevel_ne_nil 0 (back ++ after))
  rw [List.length_append, List.length_singleton] at hlength
  omega

theorem topLevel_unmarked {cs : List Char} (h : Unmarked cs) : topLevel 0 cs = [cs] := by
  cases h with
  | plain hcomma hopen => exact topLevel_plain hcomma 0
  | @unclosed before after hcomma hopen hclose =>
      have hdepth : endDepth 0 before = 0 := Nat.le_zero.mp (endDepth_of_not_open hopen 0)
      refine topLevel_append (topLevel_plain hcomma 0) ?_
      rw [hdepth, topLevel, if_neg (by decide), depthAfter_open, topLevel_unclosed hclose 0]
      rfl

theorem alternatives_unmarked {cs : List Char} (h : Unmarked cs) : alternatives cs = [cs] := by
  cases h with
  | plain hcomma hopen => exact alternatives_plain hopen
  | unclosed hcomma hopen hclose =>
      exact alternatives_of_not_closed (cutAt?_append_cons hopen _) (cutAt?_eq_none hclose)

-- What is neither cut at a comma nor has a group is unmarked.
theorem unmarked_of_topLevel {cs : List Char} (htop : topLevel 0 cs = [cs])
    (halternative : cs ∈ alternatives cs) : Unmarked cs := by
  cases hopen : cutAt? '\x7b' cs with
  | none =>
      have hopen := not_mem_of_cutAt?_eq_none hopen
      refine .plain (fun hcomma => ?_) hopen
      exact topLevel_ne_of_comma hcomma hopen [] (by rw [List.append_nil, htop])
  | some cut =>
      obtain ⟨before, rest⟩ := cut
      cases hclose : cutAt? '\x7d' rest with
      | none =>
          have hbefore := not_mem_of_cutAt? hopen
          obtain rfl := cutAt?_eq_some hopen
          refine .unclosed (fun hcomma => ?_) hbefore (not_mem_of_cutAt?_eq_none hclose)
          exact topLevel_ne_of_comma hcomma hbefore _ htop
      | some cut =>
          have hshort := length_lt_of_group hopen hclose (length_le_of_mem_alternatives cut.2) cs halternative
          exact absurd hshort (Nat.lt_irrefl _)

theorem mem_expand_self_iff {name : String} (hne : name ≠ "") : name ∈ expand name ↔ Unmarked name.toList := by
  have hchars : name.toList ≠ [] := by simpa using hne
  have hmem : name ∈ expand name ↔ ∃ part ∈ topLevel 0 name.toList, name.toList ∈ alternatives part := by
    have hown : name ∈ expand name ↔ name.toList ∈ expandChars name.toList := by
      rw [expand, List.mem_map]
      constructor
      · rintro ⟨cs, hcs, rfl⟩
        rwa [String.toList_ofList] at hcs ⊢
      · exact fun h => ⟨name.toList, h, String.ofList_toList⟩
    rw [hown, expandChars, List.mem_filter, List.mem_flatMap]
    exact and_iff_left (by simpa using hchars)
  rw [hmem]
  constructor
  · rintro ⟨part, hpart, hname⟩
    have hle := length_le_of_mem_alternatives part _ hname
    rcases topLevel_cases 0 name.toList with hone | hshort
    · rw [hone, List.mem_singleton] at hpart
      rw [hpart] at hname
      exact unmarked_of_topLevel hone hname
    · have hlt := hshort part hpart
      omega
  · intro h
    refine ⟨name.toList, ?_, ?_⟩
    · rw [topLevel_unmarked h]
      exact List.mem_singleton_self _
    · rw [alternatives_unmarked h]
      exact List.mem_singleton_self _

end Cadence.Names
