import Cadence.Proofs.Names.Depth

namespace Cadence.Names

open Text

theorem mem_splitOn {α : Type} [DecidableEq α] {sep : α} {cs part : List α}
    (h : part ∈ splitOn sep cs) : sep ∉ part ∧ part.Sublist cs := by
  induction cs generalizing part with
  | nil =>
      rw [List.mem_singleton.mp h]
      exact ⟨List.not_mem_nil, List.Sublist.refl _⟩
  | cons c cs ih =>
      rw [splitOn] at h
      split at h
      · rcases List.mem_cons.mp h with rfl | hm
        · exact ⟨List.not_mem_nil, List.nil_sublist _⟩
        · obtain ⟨hsep, hsub⟩ := ih hm
          exact ⟨hsep, hsub.cons c⟩
      · rename_i hc
        obtain ⟨first, rest, hsplit⟩ := List.exists_cons_of_ne_nil (splitOn_ne_nil sep cs)
        rw [hsplit] at h ih
        rcases List.mem_cons.mp h with rfl | hm
        · obtain ⟨hsep, hsub⟩ := ih (List.mem_cons_self)
          rw [List.mem_cons, not_or]
          exact ⟨⟨Ne.symm hc, hsep⟩, hsub.cons_cons c⟩
        · obtain ⟨hsep, hsub⟩ := ih (List.mem_cons_of_mem _ hm)
          exact ⟨hsep, hsub.cons c⟩

theorem exists_mem_splitOn {α : Type} [DecidableEq α] {sep a : α} {cs : List α} (ha : a ≠ sep)
    (h : a ∈ cs) : ∃ part ∈ splitOn sep cs, a ∈ part := by
  induction cs with
  | nil => cases h
  | cons c cs ih =>
      rw [splitOn]
      split
      · rename_i hc
        have hm : a ∈ cs := (List.mem_cons.mp h).resolve_left fun he => ha (he.trans hc)
        obtain ⟨part, hpart, hin⟩ := ih hm
        exact ⟨part, List.mem_cons_of_mem _ hpart, hin⟩
      · obtain ⟨first, rest, hsplit⟩ := List.exists_cons_of_ne_nil (splitOn_ne_nil sep cs)
        rw [hsplit] at ih ⊢
        rcases List.mem_cons.mp h with rfl | hm
        · exact ⟨_, List.mem_cons_self, List.mem_cons_self⟩
        · obtain ⟨part, hpart, hin⟩ := ih hm
          rcases List.mem_cons.mp hpart with rfl | hrest
          · exact ⟨_, List.mem_cons_self, List.mem_cons_of_mem _ hin⟩
          · exact ⟨part, List.mem_cons_of_mem _ hrest, hin⟩

theorem alternatives_of_not_closed {cs before rest : List Char}
    (hopen : cutAt? '\x7b' cs = some (before, rest)) (hclose : cutAt? '\x7d' rest = none) :
    alternatives cs = [cs] := by
  rw [alternatives]
  split
  · rfl
  · rename_i hsome
    obtain ⟨-, rfl⟩ := Prod.mk.inj (Option.some.inj (hopen.symm.trans hsome))
    split
    · rfl
    · rename_i hcut
      exact absurd (hcut.symm.trans hclose) (Option.some_ne_none _)

theorem alternatives_of_cutAt? {cs before rest inside after : List Char}
    (hopen : cutAt? '\x7b' cs = some (before, rest))
    (hclose : cutAt? '\x7d' rest = some (inside, after)) :
    alternatives cs = (splitOn ',' inside).flatMap fun choice =>
      (alternatives after).map fun ending => before ++ choice ++ ending := by
  rw [alternatives]
  split
  · rename_i hnone
    exact absurd (hopen.symm.trans hnone) (Option.some_ne_none _)
  · rename_i hsome
    obtain ⟨rfl, rfl⟩ := Prod.mk.inj (Option.some.inj (hopen.symm.trans hsome))
    split
    · rename_i hnone
      exact absurd (hclose.symm.trans hnone) (Option.some_ne_none _)
    · rename_i hcut
      obtain ⟨rfl, rfl⟩ := Prod.mk.inj (Option.some.inj (hclose.symm.trans hcut))
      rfl

theorem mem_alternatives_iff {cs before rest inside after : List Char}
    (hopen : cutAt? '\x7b' cs = some (before, rest))
    (hclose : cutAt? '\x7d' rest = some (inside, after)) (name : List Char) :
    name ∈ alternatives cs ↔ ∃ choice ∈ splitOn ',' inside, ∃ ending ∈ alternatives after,
      before ++ choice ++ ending = name := by
  rw [alternatives_of_cutAt? hopen hclose]
  simp only [List.mem_flatMap, List.mem_map]

-- A group that does not close leaves the scan inside it.
theorem endDepth_ne_zero {before rest : List Char} (h : '\x7d' ∉ rest) (depth : Nat) :
    endDepth depth (before ++ '\x7b' :: rest) ≠ 0 := by
  rw [endDepth_append]
  change endDepth (endDepth depth before + 1) rest ≠ 0
  rw [endDepth_of_not_close h]
  omega

-- Behind a group the scan is as deep as before it, and deeper by what opens inside.
theorem endDepth_group {inside : List Char} (h : '\x7d' ∉ inside) (depth : Nat)
    (before after : List Char) :
    endDepth depth (before ++ '\x7b' :: (inside ++ '\x7d' :: after))
      = endDepth (endDepth depth before + inside.count '\x7b') after := by
  rw [endDepth_append]
  change endDepth (endDepth depth before + 1) (inside ++ '\x7d' :: after) = _
  rw [endDepth_append, endDepth_of_not_close h]
  change endDepth (endDepth depth before + 1 + inside.count '\x7b' - 1) after = _
  congr 1
  omega

-- A pattern that ends outside all braces is plain, or it has a first group and such a pattern
-- behind the group.
theorem closed_induction {motive : List Char → Prop}
    (plain : ∀ cs, '\x7b' ∉ cs → motive cs)
    (group : ∀ before inside after, '\x7b' ∉ before → '\x7d' ∉ inside →
      (∀ name, name ∈ alternatives (before ++ '\x7b' :: (inside ++ '\x7d' :: after)) ↔
        ∃ choice ∈ splitOn ',' inside, ∃ ending ∈ alternatives after,
          before ++ choice ++ ending = name) →
      motive after → motive (before ++ '\x7b' :: (inside ++ '\x7d' :: after)))
    (cs : List Char) (closed : endDepth 0 cs = 0) : motive cs := by
  induction cs using alternatives.induct with
  | case1 cs hopen => exact plain cs (not_mem_of_cutAt?_eq_none hopen)
  | case2 cs before rest hopen hclose =>
      rw [cutAt?_eq_some hopen] at closed
      exact absurd closed (endDepth_ne_zero (not_mem_of_cutAt?_eq_none hclose) 0)
  | case3 cs before rest hopen inside after hclose ih =>
      have hbefore := not_mem_of_cutAt? hopen
      have hinside := not_mem_of_cutAt? hclose
      have hnames := mem_alternatives_iff hopen hclose
      obtain rfl := cutAt?_eq_some hopen
      obtain rfl := cutAt?_eq_some hclose
      rw [endDepth_group hinside] at closed
      have hafter := endDepth_mono (Nat.zero_le (endDepth 0 before + inside.count '\x7b')) after
      exact group before inside after hbefore hinside hnames (ih (by omega))

-- Each name of a pattern that ends outside all braces does so itself, from whatever depth.
theorem endDepth_of_mem_alternatives {cs : List Char} (closed : endDepth 0 cs = 0) :
    ∀ depth, endDepth depth cs = 0 → ∀ name ∈ alternatives cs, endDepth depth name = 0 := by
  refine closed_induction (motive := fun cs => ∀ depth, endDepth depth cs = 0 →
    ∀ name ∈ alternatives cs, endDepth depth name = 0) ?plain ?group cs closed
  case plain =>
    intro cs hopen depth h name hname
    rw [alternatives_plain hopen, List.mem_singleton] at hname
    rwa [hname]
  case group =>
    intro before inside after hbefore hinside hnames ih depth h name hname
    obtain ⟨choice, hchoice, ending, hending, rfl⟩ := (hnames name).mp hname
    have hsub := (mem_splitOn hchoice).2
    rw [endDepth_group hinside] at h
    have hrest := ih _ h ending hending
    -- a choice opens no more than the whole group
    have hle : endDepth (endDepth depth before) choice
        ≤ endDepth depth before + inside.count '\x7b' := by
      rw [endDepth_of_not_close fun hm => hinside (hsub.subset hm)]
      have := hsub.count_le '\x7b'
      omega
    have hmono := endDepth_mono hle ending
    rw [endDepth_append, endDepth_append]
    omega

-- A name opens no more groups than its pattern, and fewer when it opens any.
theorem count_of_mem_alternatives {cs name : List Char} (closed : endDepth 0 cs = 0)
    (hname : name ∈ alternatives cs) :
    name.count '\x7b' < cs.count '\x7b' ∨ name.count '\x7b' = 0 := by
  revert name
  refine closed_induction (motive := fun cs => ∀ {name}, name ∈ alternatives cs →
    name.count '\x7b' < cs.count '\x7b' ∨ name.count '\x7b' = 0) ?plain ?group cs closed
  case plain =>
    intro cs hopen name hname
    rw [alternatives_plain hopen, List.mem_singleton] at hname
    rw [hname]
    exact .inr (List.count_eq_zero_of_not_mem hopen)
  case group =>
    intro before inside after hbefore hinside hnames ih name hname
    obtain ⟨choice, hchoice, ending, hending, rfl⟩ := (hnames name).mp hname
    have hfront := List.count_eq_zero_of_not_mem hbefore
    have hsub := (mem_splitOn hchoice).2.count_le '\x7b'
    have hrest := ih hending
    have hclose : ('\x7d' : Char) ≠ '\x7b' := by decide
    simp only [List.count_append, List.count_cons_self, List.count_cons_of_ne hclose]
    omega

theorem nests_group {before inside : List Char} (hbefore : '\x7b' ∉ before)
    (hinside : '\x7d' ∉ inside) (after : List Char) :
    nests 0 (before ++ '\x7b' :: (inside ++ '\x7d' :: after))
      = (decide ('\x7b' ∈ inside) || nests 0 after) := by
  have houter : endDepth 0 before = 0 := by
    have := endDepth_of_not_open hbefore 0
    omega
  have hgroup : nests 0 (before ++ '\x7b' :: (inside ++ '\x7d' :: after))
      = (nests 1 inside || nests (inside.count '\x7b') after) := by
    rw [nests_append, nests_of_not_open hbefore, houter]
    change nests 1 (inside ++ '\x7d' :: after) = _
    rw [nests_append, endDepth_of_not_close hinside, Nat.add_comm]
    rfl
  rw [hgroup]
  by_cases hopen : '\x7b' ∈ inside
  · simp [hopen, nests_of_open hopen hinside 0]
  · rw [nests_of_not_open hopen, List.count_eq_zero_of_not_mem hopen]
    simp [hopen]

-- Nothing in front of a comma outside all braces belongs to a part.
theorem not_isPart_append_comma {cs : List Char} (h : endDepth 0 cs = 0) (ds : List Char) :
    ¬IsPart 0 (cs ++ ',' :: ds) := by
  rintro ⟨-, htop⟩
  rw [topLevel_append_comma h] at htop
  have hlength := congrArg List.length htop
  have hfront := List.length_pos_iff.mpr (topLevel_ne_nil 0 cs)
  have hback := List.length_pos_iff.mpr (topLevel_ne_nil 0 ds)
  rw [List.length_append, List.length_singleton] at hlength
  omega

theorem IsPart.comma_not_mem {cs ds : List Char} (h : IsPart 0 (cs ++ ds)) (hopen : '\x7b' ∉ cs) :
    ',' ∉ cs := by
  intro hcomma
  obtain ⟨front, back, rfl⟩ := List.append_of_mem hcomma
  rw [List.mem_append, not_or] at hopen
  have hfront := endDepth_of_not_open hopen.1 0
  rw [List.append_assoc] at h
  exact not_isPart_append_comma (by omega) (back ++ ds) h

-- Cut outside all braces, the back of a part is a part.
theorem IsPart.of_append {cs ds : List Char} (h : IsPart 0 (cs ++ ds)) (hcs : endDepth 0 cs = 0) :
    IsPart 0 ds := by
  have hds : endDepth 0 ds = 0 := by
    have hall := h.1
    rwa [endDepth_append, hcs] at hall
  obtain ⟨parts, hne, rfl, hparts⟩ := exists_parts hds
  obtain ⟨part, rest, rfl⟩ := List.exists_cons_of_ne_nil hne
  have hpart := hparts part (by simp)
  cases rest with
  | nil =>
      rw [joined, List.intercalate_singleton]
      exact hpart
  | cons next rest =>
      rw [joined_cons (List.cons_ne_nil next rest), ← List.append_assoc] at h
      have hfront : endDepth 0 (cs ++ part) = 0 := by
        rw [endDepth_append, hcs]
        exact hpart.1
      exact absurd h (not_isPart_append_comma hfront _)

-- A part in which no group nests has plain names.
theorem plain_of_mem_alternatives {cs : List Char} (hpart : IsPart 0 cs)
    (hflat : nests 0 cs = false) : ∀ name ∈ alternatives cs, '\x7b' ∉ name ∧ ',' ∉ name := by
  refine closed_induction (motive := fun cs => IsPart 0 cs → nests 0 cs = false →
    ∀ name ∈ alternatives cs, '\x7b' ∉ name ∧ ',' ∉ name) ?plain ?group cs hpart.1 hpart hflat
  case plain =>
    intro cs hopen hpart _ name hname
    rw [alternatives_plain hopen, List.mem_singleton] at hname
    rw [← List.append_nil cs] at hpart
    rw [hname]
    exact ⟨hopen, hpart.comma_not_mem hopen⟩
  case group =>
    intro before inside after hbefore hinside hnames ih hpart hflat name hname
    obtain ⟨choice, hchoice, ending, hending, rfl⟩ := (hnames name).mp hname
    rw [nests_group hbefore hinside, Bool.or_eq_false_iff, decide_eq_false_iff_not] at hflat
    obtain ⟨hopen, hflat⟩ := hflat
    obtain ⟨hcomma, hsub⟩ := mem_splitOn hchoice
    have hfront : endDepth 0 (before ++ '\x7b' :: (inside ++ ['\x7d'])) = 0 := by
      have := endDepth_of_not_open hbefore 0
      rw [endDepth_group hinside, List.count_eq_zero_of_not_mem hopen]
      change endDepth 0 before + 0 = 0
      omega
    have hafter : IsPart 0 after := by
      apply IsPart.of_append _ hfront
      simpa using hpart
    obtain ⟨hopenEnding, hcommaEnding⟩ := ih hafter hflat ending hending
    have hopenChoice : '\x7b' ∉ choice := fun hm => hopen (hsub.subset hm)
    have hcommaBefore := hpart.comma_not_mem hbefore
    simp only [List.mem_append, not_or]
    exact ⟨⟨⟨hbefore, hopenChoice⟩, hopenEnding⟩, ⟨hcommaBefore, hcomma⟩, hcommaEnding⟩

-- A pattern in which a group nests has a name with a group left in it.
theorem exists_open_of_nests {cs : List Char} (closed : endDepth 0 cs = 0) :
    ∃ name ∈ alternatives cs, nests 0 cs = true → '\x7b' ∈ name := by
  refine closed_induction (motive := fun cs =>
    ∃ name ∈ alternatives cs, nests 0 cs = true → '\x7b' ∈ name) ?plain ?group cs closed
  case plain =>
    intro cs hopen
    refine ⟨cs, ?_, ?_⟩
    · rw [alternatives_plain hopen]
      exact List.mem_singleton_self cs
    · intro hnests
      rw [nests_of_not_open hopen] at hnests
      cases hnests
  case group =>
    intro before inside after hbefore hinside hnames ih
    obtain ⟨ending, hending, hdeep⟩ := ih
    by_cases hopen : '\x7b' ∈ inside
    · have hne : ('\x7b' : Char) ≠ ',' := by decide
      obtain ⟨choice, hchoice, hm⟩ := exists_mem_splitOn hne hopen
      exact ⟨_, (hnames _).mpr ⟨choice, hchoice, ending, hending, rfl⟩, fun _ => by simp [hm]⟩
    · obtain ⟨choice, hchoice⟩ := List.exists_mem_of_ne_nil _ (splitOn_ne_nil ',' inside)
      refine ⟨_, (hnames _).mpr ⟨choice, hchoice, ending, hending, rfl⟩, ?_⟩
      intro hnests
      rw [nests_group hbefore hinside, decide_eq_false hopen, Bool.false_or] at hnests
      simp [hdeep hnests]

theorem expandChars_of_isPart {cs : List Char} (h : IsPart 0 cs) :
    expandChars cs = (alternatives cs).filter (· ≠ []) := by
  rw [expandChars, h.2, List.flatMap_singleton]

theorem expandChars_append_comma {cs : List Char} (h : endDepth 0 cs = 0) (ds : List Char) :
    expandChars (cs ++ ',' :: ds) = expandChars cs ++ expandChars ds := by
  rw [expandChars, topLevel_append_comma h, List.flatMap_append, List.filter_append]
  rfl

-- Names that end outside all braces are expanded one by one.
theorem expandChars_joined {names : List (List Char)} (h : ∀ name ∈ names, endDepth 0 name = 0) :
    expandChars (joined names) = names.flatMap expandChars := by
  induction names with
  | nil =>
      rw [joined, List.intercalate_nil, expandChars, topLevel, List.flatMap_singleton,
        alternatives_plain List.not_mem_nil]
      rfl
  | cons name names ih =>
      have hnames := ih fun n hn => h n (by simp [hn])
      cases names with
      | nil => simp [joined]
      | cons next rest =>
          rw [joined_cons (List.cons_ne_nil next rest), expandChars_append_comma (h name (by simp)),
            hnames]
          rfl

variable {cs name : List Char}

-- The names of a pattern come from its parts.
theorem mem_expandChars (closed : endDepth 0 cs = 0) : ∃ parts, cs = joined parts ∧
    (∀ part ∈ parts, IsPart 0 part) ∧
    ∀ name, name ∈ expandChars cs ↔ name ≠ [] ∧ ∃ part ∈ parts, name ∈ alternatives part := by
  obtain ⟨parts, -, hjoined, hparts⟩ := exists_parts closed
  refine ⟨parts, hjoined, hparts, ?_⟩
  intro name
  have hclosed := fun part hm => (hparts part hm).1
  rw [hjoined, expandChars_joined hclosed, List.mem_flatMap]
  constructor
  · rintro ⟨part, hpart, hname⟩
    rw [expandChars_of_isPart (hparts part hpart)] at hname
    simp only [ne_eq, decide_not, List.mem_filter, Bool.not_eq_eq_eq_not, Bool.not_true,
      decide_eq_false_iff_not] at hname
    exact ⟨hname.2, part, hpart, hname.1⟩
  · rintro ⟨hne, part, hpart, hname⟩
    refine ⟨part, hpart, ?_⟩
    rw [expandChars_of_isPart (hparts part hpart)]
    simp [hname, hne]

theorem endDepth_of_mem_expandChars (closed : endDepth 0 cs = 0) (hname : name ∈ expandChars cs) :
    endDepth 0 name = 0 := by
  obtain ⟨parts, -, hparts, hnames⟩ := mem_expandChars closed
  obtain ⟨-, part, hpart, hm⟩ := (hnames name).mp hname
  have hclosed := (hparts part hpart).1
  exact endDepth_of_mem_alternatives hclosed 0 hclosed name hm

theorem count_of_mem_expandChars (closed : endDepth 0 cs = 0) (hname : name ∈ expandChars cs) :
    name.count '\x7b' < cs.count '\x7b' ∨ name.count '\x7b' = 0 := by
  obtain ⟨parts, rfl, hparts, hnames⟩ := mem_expandChars closed
  obtain ⟨-, part, hpart, hm⟩ := (hnames name).mp hname
  have hpattern := count_le_joined hpart '\x7b'
  have hfewer := count_of_mem_alternatives (hparts part hpart).1 hm
  omega

-- Expanded once more, the names of a flat pattern stay as they are.
theorem expandChars_self_of_flat (closed : endDepth 0 cs = 0) (hflat : nests 0 cs = false)
    (hname : name ∈ expandChars cs) : expandChars name = [name] := by
  obtain ⟨parts, rfl, hparts, hnames⟩ := mem_expandChars closed
  obtain ⟨hne, part, hpart, hm⟩ := (hnames name).mp hname
  rw [nests_joined fun part hm => (hparts part hm).1, List.any_eq_false] at hflat
  have hpartFlat : nests 0 part = false := by simpa using hflat part hpart
  obtain ⟨hopen, hcomma⟩ := plain_of_mem_alternatives (hparts part hpart) hpartFlat name hm
  rw [expandChars, topLevel_plain hcomma, List.flatMap_singleton, alternatives_plain hopen]
  simp [hne]

theorem exists_open_of_mem_expandChars (closed : endDepth 0 cs = 0) (hnests : nests 0 cs = true) :
    ∃ name ∈ expandChars cs, '\x7b' ∈ name := by
  obtain ⟨parts, rfl, hparts, hnames⟩ := mem_expandChars closed
  rw [nests_joined fun part hm => (hparts part hm).1, List.any_eq_true] at hnests
  obtain ⟨part, hpart, hdeep⟩ := hnests
  obtain ⟨name, hname, hopen⟩ := exists_open_of_nests (hparts part hpart).1
  have hm := hopen hdeep
  exact ⟨name, (hnames name).mpr ⟨List.ne_nil_of_mem hm, part, hpart, hname⟩, hm⟩

theorem expandChars_rejoined_iff (closed : endDepth 0 cs = 0) :
    expandChars (joined (expandChars cs)) = expandChars cs ↔ nests 0 cs = false := by
  have hclosed : ∀ name ∈ expandChars cs, endDepth 0 name = 0 :=
    fun _ hm => endDepth_of_mem_expandChars closed hm
  rw [expandChars_joined hclosed]
  constructor
  · intro hsame
    rw [← Bool.not_eq_true]
    intro hnests
    -- going back, each name with a group comes from one with more of them
    have hmore : ∀ n, ∃ name ∈ expandChars cs, n < name.count '\x7b' := by
      intro n
      induction n with
      | zero =>
          obtain ⟨name, hname, hopen⟩ := exists_open_of_mem_expandChars closed hnests
          exact ⟨name, hname, List.count_pos_iff.mpr hopen⟩
      | succ n ih =>
          obtain ⟨name, hname, hn⟩ := ih
          rw [← hsame, List.mem_flatMap] at hname
          obtain ⟨source, hsource, hm⟩ := hname
          have hfewer := count_of_mem_expandChars (hclosed source hsource) hm
          exact ⟨source, hsource, by omega⟩
    obtain ⟨name, hname, hn⟩ := hmore (cs.count '\x7b')
    have hfewer := count_of_mem_expandChars closed hname
    omega
  · intro hflat
    have hself : ∀ name ∈ expandChars cs, expandChars name = [name] :=
      fun name hm => expandChars_self_of_flat closed hflat hm
    rw [List.flatMap_def, List.map_congr_left hself, ← List.flatMap_def]
    exact List.flatMap_singleton' _

end Cadence.Names
