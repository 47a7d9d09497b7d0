import Cadence.Proofs.Names.Rejoin
import Mathlib.Data.List.Forall2
import Mathlib.Algebra.BigOperators.Group.List.Basic
import Mathlib.Algebra.Ring.Nat

namespace Cadence.Names

open Text

-- A text that means nothing but itself in a pattern, alone or as an alternative.
structure PlainText where
  chars : List Char
  plain : ∀ c ∈ chars, c ≠ '\x7b' ∧ c ≠ '\x7d' ∧ c ≠ ','

-- A stretch of a written name. A group has one alternative at least.
inductive Segment where
  | text (t : PlainText)
  | group (first : PlainText) (others : List PlainText)

namespace Segment

def written : Segment → List Char
  | text t => t.chars
  | group first others =>
    '\x7b' :: (joined ((first :: others).map (·.chars)) ++ ['\x7d'])

-- How many alternatives the segment offers, if it is a group.
def size? : Segment → Option Nat
  | text _ => none
  | group _ others => some (others.length + 1)

end Segment

def writtenName (name : List Segment) : List Char := name.flatMap Segment.written

def writtenPattern (names : List (List Segment)) : List Char := joined (names.map writtenName)

def groupSizes (name : List Segment) : List Nat := name.filterMap Segment.size?

-- The choices from groups of some sizes, each a number for each group.
def choices : List Nat → List (List Nat)
  | [] => [[]]
  | size :: sizes => (List.range size).flatMap fun i => (choices sizes).map (i :: ·)

-- A name with the chosen alternatives in the place of its groups.
def chosenName : List Segment → List Nat → List Char
  | .text t :: name, choice => t.chars ++ chosenName name choice
  | .group first others :: name, i :: choice =>
    ((first :: others)[i]?.map (·.chars)).getD [] ++ chosenName name choice
  | .group .. :: _, [] => []
  | [], _ => []

def chosenNames (name : List Segment) : List (List Char) :=
  (choices (groupSizes name)).map (chosenName name)

theorem mem_choices_iff (sizes choice : List Nat) :
    choice ∈ choices sizes ↔ List.Forall₂ (· < ·) choice sizes := by
  induction sizes generalizing choice with
  | nil => simp [choices]
  | cons size sizes ih =>
      cases choice with
      | nil => simp [choices]
      | cons i choice => simp [choices, ih]

-- The last group varies fastest.
theorem pairwise_choices (sizes : List Nat) : (choices sizes).Pairwise (· < ·) := by
  induction sizes with
  | nil => exact List.pairwise_singleton _ _
  | cons size sizes ih =>
      rw [choices, List.pairwise_flatMap]
      constructor
      · intro i _
        rw [List.pairwise_map]
        exact ih.imp fun hlt => List.cons_lt_cons_iff.mpr (.inr ⟨rfl, hlt⟩)
      · refine List.pairwise_lt_range.imp fun {i j} hlt choice hchoice choice' hchoice' => ?_
        obtain ⟨tail, -, rfl⟩ := List.mem_map.mp hchoice
        obtain ⟨tail', -, rfl⟩ := List.mem_map.mp hchoice'
        exact List.cons_lt_cons_iff.mpr (.inl hlt)

theorem length_choices (sizes : List Nat) : (choices sizes).length = sizes.prod := by
  induction sizes with
  | nil => rfl
  | cons size sizes ih =>
      rw [choices, List.length_flatMap, List.prod_cons]
      simp only [List.length_map, ih, List.map_const', List.length_range, List.sum_replicate_nat]

theorem length_chosenNames (name : List Segment) :
    (chosenNames name).length = (groupSizes name).prod := by
  rw [chosenNames, List.length_map, length_choices]

namespace PlainText

theorem open_not_mem (t : PlainText) : '\x7b' ∉ t.chars := fun h => (t.plain _ h).1 rfl

theorem close_not_mem (t : PlainText) : '\x7d' ∉ t.chars := fun h => (t.plain _ h).2.1 rfl

theorem comma_not_mem (t : PlainText) : ',' ∉ t.chars := fun h => (t.plain _ h).2.2 rfl

end PlainText

theorem cutAt?_append_cons {α : Type} [DecidableEq α] {sep : α} {before : List α} (h : sep ∉ before)
    (after : List α) : cutAt? sep (before ++ sep :: after) = some (before, after) := by
  induction before with
  | nil => simp [cutAt?]
  | cons c before ih =>
      rw [List.mem_cons, not_or] at h
      rw [List.cons_append, cutAt?, if_neg (Ne.symm h.1), ih h.2]
      rfl

-- A text in front of a pattern stands in front of each of its names.
theorem alternatives_append {front : List Char} (h : '\x7b' ∉ front) (cs : List Char) :
    alternatives (front ++ cs) = (alternatives cs).map (front ++ ·) := by
  induction cs using alternatives.induct with
  | case1 cs hopen =>
      have hcs := not_mem_of_cutAt?_eq_none hopen
      rw [alternatives_plain hcs, alternatives_plain (by simp [h, hcs])]
      rfl
  | case2 cs before rest hopen hclose =>
      have hrest := not_mem_of_cutAt?_eq_none hclose
      have hcut : cutAt? '\x7b' (front ++ cs) = some (front ++ before, rest) := by
        rw [cutAt?_eq_some hopen, ← List.append_assoc]
        exact cutAt?_append_cons (by simp [h, not_mem_of_cutAt? hopen]) rest
      rw [alternatives_of_not_closed hopen hclose, alternatives_of_not_closed hcut hclose]
      rfl
  | case3 cs before rest hopen inside after hclose ih =>
      have hcut : cutAt? '\x7b' (front ++ cs) = some (front ++ before, rest) := by
        rw [cutAt?_eq_some hopen, ← List.append_assoc]
        exact cutAt?_append_cons (by simp [h, not_mem_of_cutAt? hopen]) rest
      rw [alternatives_of_cutAt? hopen hclose, alternatives_of_cutAt? hcut hclose, List.map_flatMap]
      simp only [List.map_map, Function.comp_def, List.append_assoc]

theorem map_range_length {α β : Type} (f : α → β) (default : β) (xs : List α) :
    (List.range xs.length).map (fun i => (xs[i]?.map f).getD default) = xs.map f := by
  apply List.ext_getElem
  · simp
  · intro i hi hi'
    simp only [List.length_map] at hi'
    simp [hi']

theorem mem_of_mem_joined {texts : List (List Char)} {c : Char} (h : c ∈ joined texts) :
    c = ',' ∨ ∃ text ∈ texts, c ∈ text := by
  induction texts with
  | nil => cases h
  | cons text texts ih =>
      cases texts with
      | nil => exact .inr ⟨text, List.mem_singleton_self text, by simpa [joined] using h⟩
      | cons next rest =>
          rw [joined_cons (List.cons_ne_nil next rest), List.mem_append, List.mem_cons] at h
          rcases h with hm | rfl | hm
          · exact .inr ⟨text, List.mem_cons_self, hm⟩
          · exact .inl rfl
          · rcases ih hm with hcomma | ⟨t, ht, hc⟩
            · exact .inl hcomma
            · exact .inr ⟨t, List.mem_cons_of_mem _ ht, hc⟩

namespace Segment

def inside (first : PlainText) (others : List PlainText) : List Char :=
  joined ((first :: others).map (·.chars))

theorem not_mem_inside {brace : Char} (hcomma : brace ≠ ',') (h : ∀ t : PlainText, brace ∉ t.chars)
    (first : PlainText) (others : List PlainText) : brace ∉ inside first others := by
  intro hm
  rcases mem_of_mem_joined hm with rfl | ⟨text, htext, hc⟩
  · exact hcomma rfl
  · obtain ⟨t, -, rfl⟩ := List.mem_map.mp htext
    exact h t hc

theorem open_not_mem_inside (first : PlainText) (others : List PlainText) :
    '\x7b' ∉ inside first others :=
  not_mem_inside (by decide) PlainText.open_not_mem first others

theorem close_not_mem_inside (first : PlainText) (others : List PlainText) :
    '\x7d' ∉ inside first others :=
  not_mem_inside (by decide) PlainText.close_not_mem first others

theorem splitOn_inside (first : PlainText) (others : List PlainText) :
    splitOn ',' (inside first others) = (first :: others).map (·.chars) := by
  refine splitOn_intercalate (List.cons_ne_nil _ _) fun text htext => ?_
  obtain ⟨t, -, rfl⟩ := List.mem_map.mp htext
  exact t.comma_not_mem

end Segment

theorem writtenName_group (first : PlainText) (others : List PlainText) (name : List Segment) :
    writtenName (.group first others :: name)
      = [] ++ '\x7b' :: (Segment.inside first others ++ '\x7d' :: writtenName name) := by
  simp [writtenName, Segment.written, Segment.inside]

theorem chosenNames_text (t : PlainText) (name : List Segment) :
    chosenNames (.text t :: name) = (chosenNames name).map (t.chars ++ ·) := by
  rw [chosenNames, chosenNames, List.map_map]
  rfl

theorem chosenNames_group (first : PlainText) (others : List PlainText) (name : List Segment) :
    chosenNames (.group first others :: name)
      = ((first :: others).map (·.chars)).flatMap fun chosen => (chosenNames name).map (chosen ++ ·) := by
  have hsizes : groupSizes (.group first others :: name)
      = (first :: others).length :: groupSizes name := rfl
  rw [chosenNames, hsizes, choices, List.map_flatMap,
    ← map_range_length PlainText.chars [] (first :: others), List.flatMap_map]
  simp only [chosenNames, List.map_map]
  rfl

theorem alternatives_writtenName (name : List Segment) :
    alternatives (writtenName name) = chosenNames name := by
  induction name with
  | nil => exact alternatives_plain List.not_mem_nil
  | cons segment name ih =>
      cases segment with
      | text t =>
          have hwritten : writtenName (.text t :: name) = t.chars ++ writtenName name := rfl
          rw [hwritten, alternatives_append t.open_not_mem, ih, chosenNames_text]
      | group first others =>
          have hfirst : '\x7b' ∉ ([] : List Char) := List.not_mem_nil
          have hopen := cutAt?_append_cons hfirst
            (Segment.inside first others ++ '\x7d' :: writtenName name)
          have hclose := cutAt?_append_cons (Segment.close_not_mem_inside first others) (writtenName name)
          rw [writtenName_group, alternatives_of_cutAt? hopen hclose, Segment.splitOn_inside, ih,
            chosenNames_group]
          simp only [List.nil_append]

-- Parts behind each other are a part.
theorem topLevel_append {depth : Nat} {cs ds : List Char} (hcs : topLevel depth cs = [cs])
    (hds : topLevel (endDepth depth cs) ds = [ds]) : topLevel depth (cs ++ ds) = [cs ++ ds] := by
  induction cs generalizing depth with
  | nil => exact hds
  | cons c cs ih =>
      rw [topLevel] at hcs
      split at hcs
      · cases hcs
      · rename_i hcomma
        obtain ⟨part, parts, hparts⟩ := List.exists_cons_of_ne_nil (topLevel_ne_nil (depthAfter depth c) cs)
        have hone : topLevel (depthAfter depth c) cs = [cs] := by
          rw [hparts, consHead, List.cons.injEq, List.cons.injEq] at hcs
          obtain ⟨⟨-, rfl⟩, rfl⟩ := hcs
          exact hparts
        rw [List.cons_append, topLevel, if_neg hcomma, ih hone hds]
        rfl

theorem endDepth_plain {cs : List Char} (hopen : '\x7b' ∉ cs) (hclose : '\x7d' ∉ cs) (depth : Nat) :
    endDepth depth cs = depth := by
  rw [endDepth_of_not_close hclose, List.count_eq_zero_of_not_mem hopen, Nat.add_zero]

-- Inside braces a comma ends no part.
theorem topLevel_inside {cs : List Char} (hopen : '\x7b' ∉ cs) (hclose : '\x7d' ∉ cs) (depth : Nat) :
    topLevel (depth + 1) cs = [cs] := by
  induction cs with
  | nil => rfl
  | cons c cs ih =>
      rw [List.mem_cons, not_or] at hopen hclose
      have hsame : depthAfter (depth + 1) c = depth + 1 := by
        rw [depthAfter, if_neg (Ne.symm hopen.1), if_neg (Ne.symm hclose.1)]
      rw [topLevel, if_neg (by simp), hsame, ih hopen.2 hclose.2]
      rfl

theorem Segment.isPart_written (segment : Segment) : IsPart 0 segment.written := by
  cases segment with
  | text t =>
      exact ⟨endDepth_plain t.open_not_mem t.close_not_mem 0, topLevel_plain t.comma_not_mem 0⟩
  | group first others =>
      have hopen := open_not_mem_inside first others
      have hclose := close_not_mem_inside first others
      have hdepth : endDepth 1 (inside first others) = 1 := endDepth_plain hopen hclose 1
      have hpart : topLevel 1 (inside first others ++ ['\x7d']) = [inside first others ++ ['\x7d']] :=
        topLevel_append (topLevel_inside hopen hclose 0) (by rw [hdepth]; rfl)
      constructor
      · change endDepth 1 (inside first others ++ ['\x7d']) = 0
        rw [endDepth_append, hdepth]
        rfl
      · change consHead '\x7b' (topLevel 1 (inside first others ++ ['\x7d'])) = _
        rw [hpart]
        rfl

theorem isPart_writtenName (name : List Segment) : IsPart 0 (writtenName name) := by
  induction name with
  | nil => exact ⟨rfl, rfl⟩
  | cons segment name ih =>
      obtain ⟨hdepth, htop⟩ := segment.isPart_written
      rw [writtenName, List.flatMap_cons]
      refine ⟨?_, topLevel_append htop ?_⟩
      · rw [endDepth_append, hdepth]
        exact ih.1
      · rw [hdepth]
        exact ih.2

theorem expandChars_writtenPattern (names : List (List Segment)) :
    expandChars (writtenPattern names) = (names.flatMap chosenNames).filter (· ≠ []) := by
  have hclosed : ∀ name ∈ names.map writtenName, endDepth 0 name = 0 := by
    intro name hname
    obtain ⟨segments, -, rfl⟩ := List.mem_map.mp hname
    exact (isPart_writtenName segments).1
  rw [writtenPattern, expandChars_joined hclosed, List.flatMap_map, List.filter_flatMap]
  congr 1
  funext name
  rw [expandChars_of_isPart (isPart_writtenName name), alternatives_writtenName]

theorem plain_chosenName (name : List Segment) (choice : List Nat) :
    ∀ c ∈ chosenName name choice, c ≠ '\x7b' ∧ c ≠ '\x7d' ∧ c ≠ ',' := by
  fun_induction chosenName name choice with
  | case1 t name choice ih =>
      intro c hc
      rcases List.mem_append.mp hc with hc | hc
      · exact t.plain c hc
      · exact ih c hc
  | case2 first others name i choice ih =>
      intro c hc
      rcases List.mem_append.mp hc with hc | hc
      · cases hchosen : (first :: others)[i]? with
        | none => simp [hchosen] at hc
        | some t =>
            rw [hchosen] at hc
            exact t.plain c hc
      · exact ih c hc
  | case3 => exact fun _ hc => absurd hc List.not_mem_nil
  | case4 => exact fun _ hc => absurd hc List.not_mem_nil

-- A written pattern stands for all choices of one alternative for each group, in the order of its names and
-- in lexicographic order of the alternatives within a name, so that the last group varies fastest.
theorem expand_writtenPattern (names : List (List Segment)) :
    expand (String.ofList (writtenPattern names))
        = ((names.flatMap chosenNames).filter (· ≠ [])).map String.ofList ∧
      (∀ name ∈ names, (choices (groupSizes name)).Pairwise (· < ·) ∧
        ∀ choice, choice ∈ choices (groupSizes name)
          ↔ List.Forall₂ (· < ·) choice (groupSizes name)) ∧
      (∀ name ∈ expand (String.ofList (writtenPattern names)),
        ∀ c ∈ name.toList, c ≠ '\x7b' ∧ c ≠ '\x7d' ∧ c ≠ ',') ∧
      ((∀ name ∈ names, [] ∉ chosenNames name) →
        (expand (String.ofList (writtenPattern names))).length
          = (names.map fun name => (groupSizes name).prod).sum) := by
  have hexpand : expand (String.ofList (writtenPattern names))
      = ((names.flatMap chosenNames).filter (· ≠ [])).map String.ofList := by
    rw [expand, String.toList_ofList, expandChars_writtenPattern]
  refine ⟨hexpand, fun name _ => ⟨pairwise_choices _, mem_choices_iff _⟩, ?_, fun hfull => ?_⟩
  · intro name hname
    rw [hexpand] at hname
    obtain ⟨chars, hchars, rfl⟩ := List.mem_map.mp hname
    obtain ⟨segments, -, hchosen⟩ := List.mem_flatMap.mp (List.mem_filter.mp hchars).1
    obtain ⟨choice, -, rfl⟩ := List.mem_map.mp hchosen
    rw [String.toList_ofList]
    exact plain_chosenName segments choice
  · have hall : (names.flatMap chosenNames).filter (· ≠ []) = names.flatMap chosenNames := by
      rw [List.filter_eq_self]
      intro chars hchars
      obtain ⟨name, hname, hchosen⟩ := List.mem_flatMap.mp hchars
      simpa using fun hnil : chars = [] => hfull name hname (hnil ▸ hchosen)
    rw [hexpand, hall, List.length_map, List.length_flatMap]
    simp only [length_chosenNames]

-- Two groups in one name, one with an empty alternative, and a name without groups.
theorem expand_writtenPattern_two_groups : ∃ names : List (List Segment),
    String.ofList (writtenPattern names) = "a\x7b,b\x7d.\x7bx,y\x7d,t" ∧
      names.flatMap chosenNames
        = [['a', '.', 'x'], ['a', '.', 'y'], ['a', 'b', '.', 'x'], ['a', 'b', '.', 'y'], ['t']] ∧
      (∀ name ∈ names, [] ∉ chosenNames name) ∧ (expand "a\x7b,b\x7d.\x7bx,y\x7d,t").length = 5 := by
  let first : List Segment := [.text ⟨['a'], by simp⟩, .group ⟨[], by simp⟩ [⟨['b'], by simp⟩],
    .text ⟨['.'], by simp⟩, .group ⟨['x'], by simp⟩ [⟨['y'], by simp⟩]]
  let second : List Segment := [.text ⟨['t'], by simp⟩]
  have hfull : ∀ name ∈ [first, second], [] ∉ chosenNames name := by decide
  have hwritten : String.ofList (writtenPattern [first, second]) = "a\x7b,b\x7d.\x7bx,y\x7d,t" := rfl
  refine ⟨[first, second], hwritten, by decide, hfull, ?_⟩
  rw [← hwritten]
  exact (expand_writtenPattern [first, second]).2.2.2 hfull

end Cadence.Names
