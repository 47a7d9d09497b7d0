import Cadence.Proofs.Names

namespace Cadence.Names

open Text

-- How deep a scan is inside braces at the end of some characters.
def endDepth (depth : Nat) (cs : List Char) : Nat := cs.foldl depthAfter depth

-- Whether a scan meets a brace that opens inside braces.
def nests (depth : Nat) : List Char → Bool
  | [] => false
  | c :: cs => (c = '\x7b' ∧ depth ≠ 0) || nests (depthAfter depth c) cs

theorem depthAfter_open (depth : Nat) : depthAfter depth '\x7b' = depth + 1 := rfl

theorem depthAfter_mono {depth depth' : Nat} (h : depth ≤ depth') (c : Char) :
    depthAfter depth c ≤ depthAfter depth' c := by
  unfold depthAfter
  split
  · omega
  · split <;> omega

theorem endDepth_append (depth : Nat) (cs ds : List Char) :
    endDepth depth (cs ++ ds) = endDepth (endDepth depth cs) ds := List.foldl_append

theorem endDepth_mono {depth depth' : Nat} (h : depth ≤ depth') (cs : List Char) :
    endDepth depth cs ≤ endDepth depth' cs := by
  induction cs generalizing depth depth' with
  | nil => exact h
  | cons c cs ih => exact ih (depthAfter_mono h c)

-- Without a brace that closes, every brace that opens stays open.
theorem endDepth_of_not_close {cs : List Char} (h : '\x7d' ∉ cs) (depth : Nat) :
    endDepth depth cs = depth + cs.count '\x7b' := by
  induction cs generalizing depth with
  | nil => rfl
  | cons c cs ih =>
      rw [List.mem_cons, not_or] at h
      obtain ⟨hc, hcs⟩ := h
      change endDepth (depthAfter depth c) cs = _
      rw [ih hcs]
      by_cases hopen : c = '\x7b'
      · subst hopen
        rw [depthAfter_open, List.count_cons_self]
        omega
      · rw [depthAfter, if_neg hopen, if_neg (Ne.symm hc), List.count_cons_of_ne hopen]

theorem endDepth_of_not_open {cs : List Char} (h : '\x7b' ∉ cs) (depth : Nat) :
    endDepth depth cs ≤ depth := by
  induction cs generalizing depth with
  | nil => exact Nat.le_refl _
  | cons c cs ih =>
      rw [List.mem_cons, not_or] at h
      obtain ⟨hc, hcs⟩ := h
      have hrest := ih hcs (depthAfter depth c)
      have hfirst : depthAfter depth c ≤ depth := by
        rw [depthAfter, if_neg (Ne.symm hc)]
        split <;> omega
      exact Nat.le_trans hrest hfirst

theorem nests_append (depth : Nat) (cs ds : List Char) :
    nests depth (cs ++ ds) = (nests depth cs || nests (endDepth depth cs) ds) := by
  induction cs generalizing depth with
  | nil => rfl
  | cons c cs ih =>
      rw [List.cons_append, nests, nests, ih, Bool.or_assoc]
      rfl

theorem nests_of_not_open {cs : List Char} (h : '\x7b' ∉ cs) (depth : Nat) :
    nests depth cs = false := by
  induction cs generalizing depth with
  | nil => rfl
  | cons c cs ih =>
      rw [List.mem_cons, not_or] at h
      rw [nests, ih h.2]
      simp [Ne.symm h.1]

-- Inside a group that does not close, another one nests.
theorem nests_of_open {cs : List Char} (hopen : '\x7b' ∈ cs) (hclose : '\x7d' ∉ cs) (depth : Nat) :
    nests (depth + 1) cs = true := by
  obtain ⟨before, after, rfl⟩ := List.append_of_mem hopen
  have hbefore : '\x7d' ∉ before := fun hm => hclose (by simp [hm])
  rw [nests_append, endDepth_of_not_close hbefore, nests]
  simp

theorem consHead_append {α : Type} {c : α} {parts rest : List (List α)} (h : parts ≠ []) :
    consHead c (parts ++ rest) = consHead c parts ++ rest := by
  cases parts with
  | nil => exact absurd rfl h
  | cons part parts => rfl

theorem topLevel_ne_nil (depth : Nat) (cs : List Char) : topLevel depth cs ≠ [] := by
  cases cs with
  | nil => simp [topLevel]
  | cons c cs =>
      rw [topLevel]
      split
      · simp
      · cases topLevel (depthAfter depth c) cs <;> simp [consHead]

theorem topLevel_comma (cs : List Char) : topLevel 0 (',' :: cs) = [] :: topLevel 0 cs := by
  rw [topLevel, if_pos ⟨rfl, rfl⟩]

-- A comma outside all braces ends a part, whatever follows.
theorem topLevel_append_comma {depth : Nat} {cs : List Char} (h : endDepth depth cs = 0)
    (ds : List Char) : topLevel depth (cs ++ ',' :: ds) = topLevel depth cs ++ topLevel 0 ds := by
  induction cs generalizing depth with
  | nil =>
      have hzero : depth = 0 := h
      subst hzero
      exact topLevel_comma ds
  | cons c cs ih =>
      have hrest := ih h
      by_cases hcomma : c = ',' ∧ depth = 0
      · obtain ⟨rfl, rfl⟩ := hcomma
        have hrest : topLevel 0 (cs ++ ',' :: ds) = topLevel 0 cs ++ topLevel 0 ds := hrest
        rw [List.cons_append, topLevel_comma, topLevel_comma, hrest, List.cons_append]
      · rw [List.cons_append, topLevel, if_neg hcomma, topLevel, if_neg hcomma, hrest,
          consHead_append (topLevel_ne_nil _ cs)]

def joined (names : List (List Char)) : List Char := [','].intercalate names

theorem joined_cons {name : List Char} {names : List (List Char)} (h : names ≠ []) :
    joined (name :: names) = name ++ ',' :: joined names := by
  obtain ⟨next, rest, rfl⟩ := List.exists_cons_of_ne_nil h
  simp [joined, List.intercalate_cons_cons]

theorem nests_joined {names : List (List Char)} (h : ∀ name ∈ names, endDepth 0 name = 0) :
    nests 0 (joined names) = names.any (nests 0) := by
  induction names with
  | nil => rfl
  | cons name names ih =>
      have hname := h name (by simp)
      have hnames := ih fun n hn => h n (by simp [hn])
      cases names with
      | nil => simp [joined]
      | cons next rest =>
          rw [joined_cons (by simp), nests_append, hname, nests, List.any_cons, ← hnames]
          rfl

theorem count_le_joined {names : List (List Char)} {name : List Char} (h : name ∈ names) (c : Char) :
    name.count c ≤ (joined names).count c := by
  induction names with
  | nil => cases h
  | cons first names ih =>
      cases names with
      | nil =>
          rw [List.mem_singleton.mp h]
          simp [joined]
      | cons next rest =>
          rw [joined_cons (by simp), List.count_append]
          have hcomma := List.count_le_count_cons (a := c) (b := ',') (l := joined (next :: rest))
          rcases List.mem_cons.mp h with rfl | hm
          · omega
          · have := ih hm
            omega

-- A part without commas outside its braces, which ends outside all of them.
def IsPart (depth : Nat) (cs : List Char) : Prop := endDepth depth cs = 0 ∧ topLevel depth cs = [cs]

-- A pattern that ends outside all braces is made of such parts.
theorem exists_parts {cs : List Char} (h : endDepth 0 cs = 0) :
    ∃ parts, parts ≠ [] ∧ cs = joined parts ∧ ∀ part ∈ parts, IsPart 0 part := by
  have hfrom : ∀ depth, endDepth depth cs = 0 → ∃ head rest, cs = joined (head :: rest) ∧
      IsPart depth head ∧ ∀ part ∈ rest, IsPart 0 part := by
    clear h
    induction cs with
    | nil => exact fun depth h => ⟨[], [], rfl, ⟨h, rfl⟩, by simp⟩
    | cons c cs ih =>
        intro depth h
        obtain ⟨head, rest, hjoined, hhead, hrest⟩ := ih _ h
        by_cases hcomma : c = ',' ∧ depth = 0
        · obtain ⟨rfl, rfl⟩ := hcomma
          refine ⟨[], head :: rest, ?_, ⟨rfl, rfl⟩, ?_⟩
          · rw [joined_cons (by simp), ← hjoined]
            rfl
          · intro part hm
            rcases List.mem_cons.mp hm with rfl | hm
            · exact hhead
            · exact hrest part hm
        · refine ⟨c :: head, rest, ?_, ⟨hhead.1, ?_⟩, hrest⟩
          · cases rest with
            | nil => simp [hjoined, joined]
            | cons next rest =>
                have hcons : ∀ name, joined (name :: next :: rest)
                    = name ++ ',' :: joined (next :: rest) :=
                  fun name => joined_cons (List.cons_ne_nil next rest)
                rw [hjoined, hcons, hcons]
                rfl
          · rw [topLevel, if_neg hcomma, hhead.2]
            rfl
  obtain ⟨head, rest, hjoined, hhead, hrest⟩ := hfrom 0 h
  refine ⟨head :: rest, by simp, hjoined, ?_⟩
  intro part hm
  rcases List.mem_cons.mp hm with rfl | hm
  · exact hhead
  · exact hrest part hm

end Cadence.Names
