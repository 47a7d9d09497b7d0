import Cadence.Proofs.Text.Ascii
import Cadence.Target.Token

namespace Cadence.Target

open Text

-- The ways to write a content between quotes. A backslash makes any character part of the content; the
-- quote and the backslash are part of it in no other way.
inductive Quotes (quote : Char) : List Char → List Char → Prop
  | nil : Quotes quote [] []
  | plain {c : Char} {content raw : List Char} (hquote : c ≠ quote) (hbackslash : c ≠ '\\')
      (rest : Quotes quote content raw) : Quotes quote (c :: content) (c :: raw)
  | escaped {c : Char} {content raw : List Char} (rest : Quotes quote content raw) :
      Quotes quote (c :: content) ('\\' :: c :: raw)

-- The shortest of these ways.
def escape (quote : Char) (content : List Char) : List Char :=
  content.flatMap fun c => if c = quote ∨ c = '\\' then ['\\', c] else [c]

variable {quote : Char} {content raw rest : List Char}

-- A scan takes what is written up to some place, and goes on from there.
theorem readQuoted_append (h : Quotes quote content raw) (rest : List Char) :
    readQuoted quote (raw ++ rest)
      = (readQuoted quote rest).map fun (c, r, u) => (content ++ c, raw ++ r, u) := by
  induction h with
  | nil => simp
  | plain hquote hbackslash _ ih =>
      rw [List.cons_append, readQuoted.eq_def]
      simp only [if_neg hquote, if_neg hbackslash, ih, Option.map_map]
      rfl
  | escaped _ ih =>
      rw [List.cons_append, List.cons_append, readQuoted, if_pos rfl, ih, Option.map_map]
      rfl

theorem exists_quotes (quote : Char) (cs : List Char) :
    ∃ content raw rest, Quotes quote content raw ∧ cs = raw ++ rest ∧
      (rest = [] ∨ rest = ['\\'] ∨ ∃ after, rest = quote :: after) := by
  fun_induction readQuoted quote cs with
  | case1 => exact ⟨[], [], [], .nil, rfl, .inl rfl⟩
  | case2 => exact ⟨[], [], _, .nil, rfl, .inr (.inl rfl)⟩
  | case3 e cs ih =>
      obtain ⟨content, raw, rest, h, rfl, hend⟩ := ih
      exact ⟨_, _, rest, .escaped h, rfl, hend⟩
  | case4 cs => exact ⟨[], [], _, .nil, rfl, .inr (.inr ⟨cs, rfl⟩)⟩
  | case5 c cs hbackslash hquote ih =>
      obtain ⟨content, raw, rest, h, rfl, hend⟩ := ih
      exact ⟨_, _, rest, .plain hquote hbackslash h, rfl, hend⟩

theorem readQuoted_of_quotes (hquote : quote ≠ '\\') (h : Quotes quote content raw) (rest : List Char) :
    readQuoted quote (raw ++ quote :: rest) = some (content, raw ++ [quote], rest) := by
  rw [readQuoted_append h, readQuoted.eq_def]
  simp [hquote]

theorem readQuoted_eq_none (h : Quotes quote content raw) (hend : rest = [] ∨ rest = ['\\']) :
    readQuoted quote (raw ++ rest) = none := by
  rw [readQuoted_append h]
  rcases hend with rfl | rfl
  · rfl
  · simp [readQuoted]

theorem readQuoted_eq_some_iff (hquote : quote ≠ '\\') {cs content text rest : List Char} :
    readQuoted quote cs = some (content, text, rest) ↔
      ∃ raw, Quotes quote content raw ∧ text = raw ++ [quote] ∧ cs = raw ++ quote :: rest := by
  constructor
  · intro hread
    obtain ⟨content', raw, rest', h, rfl, hend⟩ := exists_quotes quote cs
    rcases hend with hend | hend | ⟨after, rfl⟩
    · rw [readQuoted_eq_none h (.inl hend)] at hread
      cases hread
    · rw [readQuoted_eq_none h (.inr hend)] at hread
      cases hread
    · rw [readQuoted_of_quotes hquote h] at hread
      cases hread
      exact ⟨raw, h, rfl, rfl⟩
  · rintro ⟨raw, h, rfl, rfl⟩
    exact readQuoted_of_quotes hquote h rest

theorem readQuoted_eq_none_iff (hquote : quote ≠ '\\') {cs : List Char} :
    readQuoted quote cs = none ↔
      ∃ content raw rest, Quotes quote content raw ∧ (rest = [] ∨ rest = ['\\']) ∧ cs = raw ++ rest := by
  constructor
  · intro hread
    obtain ⟨content, raw, rest, h, rfl, hend⟩ := exists_quotes quote cs
    rcases hend with hend | hend | ⟨after, rfl⟩
    · exact ⟨content, raw, rest, h, .inl hend, rfl⟩
    · exact ⟨content, raw, rest, h, .inr hend, rfl⟩
    · rw [readQuoted_of_quotes hquote h] at hread
      cases hread
  · rintro ⟨content, raw, rest, h, hend, rfl⟩
    exact readQuoted_eq_none h hend

-- Characters that a word may begin with when so many braces are open: no more braces close than are open,
-- and where none is open nothing ends the word.
structure Unbroken (depth : Nat) (cs : List Char) : Prop where
  opened : ∀ before, before <+: cs → before.count '\x7d' ≤ depth + before.count '\x7b'
  bare : ∀ before c after, cs = before ++ c :: after →
    before.count '\x7d' = depth + before.count '\x7b' → endsWord c = false

-- A word closes the braces that it opens.
structure IsWord (cs : List Char) : Prop where
  nonempty : cs ≠ []
  unbroken : Unbroken 0 cs
  balanced : cs.count '\x7d' = cs.count '\x7b'

-- Whether some characters lead from so many open braces to so many.
def Leads (depth : Nat) (cs : List Char) (after : Nat) : Prop :=
  cs.count '\x7d' + after = depth + cs.count '\x7b'

theorem count_cons (c d : Char) (cs : List Char) : (d :: cs).count c = [d].count c + cs.count c := by
  rw [← List.singleton_append, List.count_append]

theorem leads_cons_iff {depth mid after : Nat} {c : Char} (hfirst : Leads depth [c] mid)
    (cs : List Char) : Leads depth (c :: cs) after ↔ Leads mid cs after := by
  unfold Leads at *
  rw [count_cons '\x7d', count_cons '\x7b']
  omega

theorem leads_nil (depth : Nat) : Leads depth [] depth := by simp [Leads]

theorem leads_open (depth : Nat) : Leads depth ['\x7b'] (depth + 1) := by simp [Leads]

theorem leads_close (depth : Nat) : Leads (depth + 1) ['\x7d'] depth := by simp [Leads, Nat.add_comm]

theorem leads_other {c : Char} (hopen : c ≠ '\x7b') (hclose : c ≠ '\x7d') (depth : Nat) :
    Leads depth [c] depth := by
  simp [Leads, hopen, hclose]

-- Behind the comma no basic character ends words.
theorem endsWord_eq_false {c : Char} (hlow : 44 < c.toNat) (hhigh : c.toNat < 0x80) :
    endsWord c = false := by
  have hne : ∀ d : Char, d.toNat ≤ 44 → c ≠ d := by
    rintro d hd rfl
    omega
  simp [endsWord, punctuation?, isQuote, isBlank_eq_false (show 32 < c.toNat by omega) hhigh,
    hne '(' (by decide), hne ')' (by decide), hne ',' (by decide), hne '"' (by decide),
    hne '\'' (by decide)]

theorem endsWord_open : endsWord '\x7b' = false := endsWord_eq_false (by decide) (by decide)

theorem endsWord_close : endsWord '\x7d' = false := endsWord_eq_false (by decide) (by decide)

theorem unbroken_nil (depth : Nat) : Unbroken depth [] where
  opened := by simp
  bare := by simp

theorem not_unbroken_close (cs : List Char) : ¬Unbroken 0 ('\x7d' :: cs) := by
  intro h
  have hone := h.opened ['\x7d'] (by simp)
  simp at hone

theorem unbroken_cons_iff {depth mid : Nat} {c : Char} (hfirst : Leads depth [c] mid)
    (cs : List Char) :
    Unbroken depth (c :: cs) ↔ (depth = 0 → endsWord c = false) ∧ Unbroken mid cs := by
  unfold Leads at hfirst
  constructor
  · rintro ⟨hopened, hbare⟩
    refine ⟨fun hdepth => hbare [] c cs rfl (by simp [hdepth]), ?_, ?_⟩
    · intro before hbefore
      have hle := hopened (c :: before) (by simpa using hbefore)
      rw [count_cons '\x7d', count_cons '\x7b'] at hle
      omega
    · rintro before d after rfl heq
      refine hbare (c :: before) d after rfl ?_
      rw [count_cons '\x7d', count_cons '\x7b']
      omega
  · rintro ⟨hbare, hopened, hrest⟩
    refine ⟨?_, ?_⟩
    · intro before hbefore
      cases before with
      | nil => simp
      | cons d before =>
          obtain ⟨rfl, hprefix⟩ := List.cons_prefix_cons.mp hbefore
          have hle := hopened before hprefix
          rw [count_cons '\x7d', count_cons '\x7b']
          omega
    · intro before d after heq hcounts
      cases before with
      | nil =>
          obtain ⟨rfl, -⟩ := List.cons.inj heq
          exact hbare (by simpa using hcounts.symm)
      | cons e before =>
          obtain ⟨rfl, hcs⟩ := List.cons.inj heq
          rw [count_cons '\x7d', count_cons '\x7b'] at hcounts
          exact hrest before d after hcs (by omega)

-- A scan takes the characters that a word may begin with, and goes on behind them.
theorem readWord_append {depth after : Nat} {cs : List Char} (h : Unbroken depth cs)
    (hafter : Leads depth cs after) (rest : List Char) :
    readWord depth (cs ++ rest) = (cs ++ (readWord after rest).1, (readWord after rest).2) := by
  induction cs generalizing depth with
  | nil =>
      obtain rfl : after = depth := by simpa [Leads] using hafter
      rfl
  | cons c cs ih =>
      rw [List.cons_append, readWord]
      by_cases hopen : c = '\x7b'
      · subst hopen
        have hfirst := leads_open depth
        rw [if_pos rfl, ih ((unbroken_cons_iff hfirst cs).mp h).2 ((leads_cons_iff hfirst cs).mp hafter)]
        rfl
      rw [if_neg hopen]
      by_cases hclose : c = '\x7d'
      · subst hclose
        cases depth with
        | zero => exact absurd h (not_unbroken_close cs)
        | succ depth =>
            have hfirst := leads_close depth
            rw [if_pos rfl, if_neg (Nat.succ_ne_zero depth), Nat.add_sub_cancel,
              ih ((unbroken_cons_iff hfirst cs).mp h).2 ((leads_cons_iff hfirst cs).mp hafter)]
            rfl
      · have hfirst := leads_other hopen hclose depth
        obtain ⟨hbare, hrest⟩ := (unbroken_cons_iff hfirst cs).mp h
        have hgoes : ¬(depth = 0 ∧ endsWord c = true) := by
          rintro ⟨hdepth, hends⟩
          rw [hbare hdepth] at hends
          cases hends
        rw [if_neg hclose, if_neg hgoes, ih hrest ((leads_cons_iff hfirst cs).mp hafter)]
        rfl

-- Any text begins with what a word may begin with. Behind it, the text is at its end, or outside braces at
-- a character that closes nothing or ends words.
theorem exists_unbroken (depth : Nat) (cs : List Char) :
    ∃ word rest after, cs = word ++ rest ∧ Unbroken depth word ∧ Leads depth word after ∧
      (rest = [] ∨ after = 0 ∧ ∃ c ∈ rest.head?, c = '\x7d' ∨ endsWord c = true) := by
  induction cs generalizing depth with
  | nil => exact ⟨[], [], depth, rfl, unbroken_nil depth, leads_nil depth, .inl rfl⟩
  | cons c cs ih =>
      by_cases hstop : depth = 0 ∧ (c = '\x7d' ∨ endsWord c = true)
      · exact ⟨[], c :: cs, depth, rfl, unbroken_nil depth, leads_nil depth,
          .inr ⟨hstop.1, c, rfl, hstop.2⟩⟩
      · have hfirst : ∃ mid, Leads depth [c] mid ∧ (depth = 0 → endsWord c = false) := by
          by_cases hopen : c = '\x7b'
          · subst hopen
            exact ⟨_, leads_open depth, fun _ => endsWord_open⟩
          by_cases hclose : c = '\x7d'
          · subst hclose
            cases depth with
            | zero => exact absurd ⟨rfl, .inl rfl⟩ hstop
            | succ depth => exact ⟨_, leads_close depth, by simp⟩
          · exact ⟨_, leads_other hopen hclose depth, fun hdepth => by simpa [hdepth, hclose] using hstop⟩
        obtain ⟨mid, hleads, hbare⟩ := hfirst
        obtain ⟨word, rest, after, rfl, hword, hafter, hend⟩ := ih mid
        exact ⟨c :: word, rest, after, rfl, (unbroken_cons_iff hleads word).mpr ⟨hbare, hword⟩,
          (leads_cons_iff hleads word).mpr hafter, hend⟩

theorem readWord_stop {word rest : List Char} (hword : Unbroken 0 word) (hleads : Leads 0 word 0)
    (hrest : ∀ c ∈ rest.head?, endsWord c = true) : readWord 0 (word ++ rest) = (word, .stop rest) := by
  rw [readWord_append hword hleads]
  cases rest with
  | nil => simp [readWord]
  | cons c rest =>
      have hends := hrest c rfl
      have hopen : c ≠ '\x7b' := by
        rintro rfl
        rw [endsWord_open] at hends
        cases hends
      have hclose : c ≠ '\x7d' := by
        rintro rfl
        rw [endsWord_close] at hends
        cases hends
      simp [readWord, hopen, hclose, hends]

theorem readWord_unbalanced {word : List Char} (hword : Unbroken 0 word) (hleads : Leads 0 word 0)
    (rest : List Char) : readWord 0 (word ++ '\x7d' :: rest) = (word ++ ['\x7d'], .unbalanced) := by
  rw [readWord_append hword hleads]
  rfl

theorem readWord_unterminated {cs : List Char} {after : Nat} (hword : Unbroken 0 cs)
    (hleads : Leads 0 cs after) (hopen : after ≠ 0) : readWord 0 cs = (cs, .unterminated) := by
  have happend := readWord_append hword hleads []
  rw [List.append_nil] at happend
  rw [happend]
  simp [readWord, hopen]

theorem exists_readWord (cs : List Char) :
    ∃ word rest, Unbroken 0 word ∧ cs = word ++ rest ∧
      (Leads 0 word 0 ∧ (∀ c ∈ rest.head?, endsWord c = true) ∧ readWord 0 cs = (word, .stop rest) ∨
        Leads 0 word 0 ∧ (∃ after, rest = '\x7d' :: after) ∧
          readWord 0 cs = (word ++ ['\x7d'], .unbalanced) ∨
        (∃ after, Leads 0 word after ∧ after ≠ 0) ∧ rest = [] ∧ readWord 0 cs = (cs, .unterminated)) := by
  obtain ⟨word, rest, after, rfl, hword, hleads, hend⟩ := exists_unbroken 0 cs
  refine ⟨word, rest, hword, rfl, ?_⟩
  rcases hend with rfl | ⟨rfl, c, hc, hend⟩
  · by_cases hzero : after = 0
    · subst hzero
      exact .inl ⟨hleads, by simp, readWord_stop hword hleads (by simp)⟩
    · rw [List.append_nil]
      exact .inr (.inr ⟨⟨after, hleads, hzero⟩, rfl, readWord_unterminated hword hleads hzero⟩)
  · obtain ⟨rest, rfl⟩ := List.head?_eq_some_iff.mp hc
    rcases hend with rfl | hends
    · exact .inr (.inl ⟨hleads, ⟨rest, rfl⟩, readWord_unbalanced hword hleads rest⟩)
    · have hrest : ∀ d ∈ (c :: rest).head?, endsWord d = true := by simpa using hends
      exact .inl ⟨hleads, hrest, readWord_stop hword hleads hrest⟩

theorem readWord_eq_stop_iff {cs word rest : List Char} :
    readWord 0 cs = (word, .stop rest) ↔
      cs = word ++ rest ∧ Unbroken 0 word ∧ Leads 0 word 0 ∧ ∀ c ∈ rest.head?, endsWord c = true := by
  constructor
  · intro hread
    obtain ⟨word', rest', hword, rfl, ⟨hleads, hrest, hread'⟩ | ⟨-, -, hread'⟩ | ⟨-, -, hread'⟩⟩ :=
      exists_readWord cs
    all_goals
      rw [hread] at hread'
      cases hread'
    exact ⟨rfl, hword, hleads, hrest⟩
  · rintro ⟨rfl, hword, hleads, hrest⟩
    exact readWord_stop hword hleads hrest

theorem readWord_eq_unbalanced_iff {cs text : List Char} :
    readWord 0 cs = (text, .unbalanced) ↔
      ∃ word rest, Unbroken 0 word ∧ Leads 0 word 0 ∧ text = word ++ ['\x7d'] ∧
        cs = word ++ '\x7d' :: rest := by
  constructor
  · intro hread
    obtain ⟨word, rest, hword, rfl, ⟨-, -, hread'⟩ | ⟨hleads, ⟨after, rfl⟩, hread'⟩ | ⟨-, -, hread'⟩⟩ :=
      exists_readWord cs
    all_goals
      rw [hread] at hread'
      cases hread'
    exact ⟨word, after, hword, hleads, rfl, rfl⟩
  · rintro ⟨word, rest, hword, hleads, rfl, rfl⟩
    exact readWord_unbalanced hword hleads rest

theorem readWord_eq_unterminated_iff {cs text : List Char} :
    readWord 0 cs = (text, .unterminated) ↔
      text = cs ∧ Unbroken 0 cs ∧ cs.count '\x7d' < cs.count '\x7b' := by
  constructor
  · intro hread
    obtain ⟨word, rest, hword, rfl, ⟨-, -, hread'⟩ | ⟨-, -, hread'⟩ | ⟨⟨after, hleads, hopen⟩, rfl, hread'⟩⟩ :=
      exists_readWord cs
    all_goals
      rw [hread] at hread'
      cases hread'
    rw [List.append_nil]
    refine ⟨rfl, hword, ?_⟩
    unfold Leads at hleads
    omega
  · rintro ⟨rfl, hword, hcount⟩
    have hleads : Leads 0 text (text.count '\x7b' - text.count '\x7d') := by
      unfold Leads
      omega
    exact readWord_unterminated hword hleads (by omega)

end Cadence.Target
