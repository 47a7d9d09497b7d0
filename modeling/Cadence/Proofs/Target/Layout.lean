import Cadence.Proofs.Target.Lexemes

namespace Cadence.Target

open Text

-- The faults of a text at its front: a quoted text that does not end, a brace that closes nothing, and a
-- brace that is not closed.
inductive Faulty : ParseError → List Char → Prop
  | text {quote : Char} {content raw rest : List Char} (hquote : isQuote quote = true)
      (hraw : Quotes quote content raw) (hrest : rest = [] ∨ rest = ['\\']) :
      Faulty ⟨.unterminatedText, String.ofList (quote :: raw ++ rest)⟩ (quote :: raw ++ rest)
  | closing {word : List Char} (hword : Unbroken 0 word) (hbalanced : word.count '\x7d' = word.count '\x7b')
      (rest : List Char) :
      Faulty ⟨.unbalancedBrace, String.ofList (word ++ ['\x7d'])⟩ (word ++ '\x7d' :: rest)
  | opening {word : List Char} (hword : Unbroken 0 word) (hopen : word.count '\x7d' < word.count '\x7b') :
      Faulty ⟨.unterminatedBrace, String.ofList word⟩ word

-- The texts that write lexemes one after the other. Blanks may stand anywhere around them, and one stands
-- between two that are written without quotes and are no punctuation.
inductive Layout : List Lexeme → List Char → Prop
  | done : Layout [] []
  | blank {c : Char} {ls : List Lexeme} {cs : List Char} (hc : isBlank c = true) (rest : Layout ls cs) :
      Layout ls (c :: cs)
  | lexeme {l : Lexeme} {ls : List Lexeme} {cs : List Char} (hl : Writes l.token l.text.toList)
      (hgap : l.token.IsBare → (∃ next ∈ ls.head?, next.token.IsBare) → ∃ c ∈ cs.head?, isBlank c = true)
      (rest : Layout ls cs) : Layout (l :: ls) (l.text.toList ++ cs)

theorem isQuote_ne {quote : Char} (h : isQuote quote = true) : quote ≠ '\\' := by
  rintro rfl
  revert h
  decide

theorem writes_of_punctuation? {c : Char} {token : Token} (h : punctuation? c = some token) :
    Writes token [c] ∧ ¬token.IsBare := by
  unfold punctuation? at h
  split at h
  · rename_i hc
    cases h
    subst hc
    exact ⟨.opening, id⟩
  · split at h
    · rename_i hc
      cases h
      subst hc
      exact ⟨.closing, id⟩
    · split at h
      · rename_i hc
        cases h
        subst hc
        exact ⟨.comma, id⟩
      · cases h

theorem front_of_endsWord {c : Char} (h : endsWord c = false) (cs : List Char) :
    front c cs = match readWord 0 (c :: cs) with
      | (word, .stop rest) =>
        match wordToken? word with
        | some token => .lexeme ⟨token, String.ofList word⟩ rest
        | none => .fault ⟨.invalidNumber, String.ofList word⟩
      | (word, .unbalanced) => .fault ⟨.unbalancedBrace, String.ofList word⟩
      | (_, .unterminated) => .fault ⟨.unterminatedBrace, String.ofList (c :: cs)⟩ := by
  simp only [endsWord, Bool.or_eq_false_iff, Option.isSome_eq_false_iff, Option.isNone_iff_eq_none] at h
  obtain ⟨⟨hpunctuation, hquote⟩, hblank⟩ := h
  simp only [front, hpunctuation, hblank, hquote]
  rfl

theorem front_of_isQuote {c : Char} (h : isQuote c = true) (cs : List Char) :
    front c cs = match readQuoted c cs with
      | none => .fault ⟨.unterminatedText, String.ofList (c :: cs)⟩
      | some (content, raw, rest) =>
        .lexeme ⟨.text (String.ofList content), String.ofList (c :: raw)⟩ rest := by
  have hplain : punctuation? c = none ∧ isBlank c = false := by
    simp only [isQuote, Bool.or_eq_true, decide_eq_true_eq] at h
    rcases h with rfl | rfl <;>
      exact ⟨by decide, isBlank_eq_false (by decide) (by decide)⟩
  simp only [front, hplain.1, hplain.2, h]
  rfl

theorem front_cases (c : Char) (cs : List Char) :
    (∃ token, punctuation? c = some token ∧ front c cs = .lexeme ⟨token, c.toString⟩ cs) ∨
      (isBlank c = true ∧ front c cs = .blank cs) ∨ isQuote c = true ∨ endsWord c = false := by
  cases hpunctuation : punctuation? c with
  | some token => exact .inl ⟨token, rfl, by simp only [front, hpunctuation]⟩
  | none =>
      cases hblank : isBlank c with
      | true => exact .inr (.inl ⟨rfl, by simp [front, hpunctuation, hblank]⟩)
      | false =>
          cases hquote : isQuote c with
          | true => exact .inr (.inr (.inl rfl))
          | false => exact .inr (.inr (.inr (by simp [endsWord, hpunctuation, hblank, hquote])))

theorem endsWord_of_unbroken {c : Char} {cs rest word : List Char} (hne : word ≠ [])
    (hword : Unbroken 0 word) (heq : c :: cs = word ++ rest) : endsWord c = false := by
  obtain ⟨d, word, rfl⟩ := List.exists_cons_of_ne_nil hne
  obtain ⟨rfl, -⟩ := List.cons.inj heq
  exact hword.bare [] c word rfl (by simp)

-- Where a word ends outside braces, it is read as the token that it stands for.
theorem front_of_stop {c : Char} {cs word rest : List Char} (hends : endsWord c = false)
    (hread : readWord 0 (c :: cs) = (word, .stop rest)) :
    ∃ token, front c cs = .lexeme ⟨token, String.ofList word⟩ rest ∧ Writes token word ∧
      c :: cs = word ++ rest ∧ ∀ d ∈ rest.head?, endsWord d = true := by
  obtain ⟨heq, hunbroken, hleads, hrest⟩ := readWord_eq_stop_iff.mp hread
  have hnonempty : word ≠ [] := by
    rintro rfl
    rw [List.nil_append] at heq
    subst heq
    have := hrest c rfl
    rw [hends] at this
    cases this
  have hword : IsWord word := ⟨hnonempty, hunbroken, by simpa [Leads] using hleads⟩
  obtain ⟨token, htoken, hwrites⟩ := exists_wordToken hword
  refine ⟨token, ?_, hwrites, heq, hrest⟩
  rw [front_of_endsWord hends, hread]
  simp only [htoken]

theorem writes_of_front {c : Char} {cs rest : List Char} {l : Lexeme} (h : front c cs = .lexeme l rest) :
    Writes l.token l.text.toList ∧ c :: cs = l.text.toList ++ rest ∧
      (l.token.IsBare → ∀ d ∈ rest.head?, endsWord d = true) := by
  rcases front_cases c cs with ⟨token, hpunctuation, hfront⟩ | ⟨-, hfront⟩ | hquote | hends
  · rw [hfront] at h
    cases h
    obtain ⟨hwrites, hbare⟩ := writes_of_punctuation? hpunctuation
    exact ⟨by simpa using hwrites, by simp, fun h => absurd h hbare⟩
  · rw [hfront] at h
    cases h
  · rw [front_of_isQuote hquote] at h
    split at h
    · cases h
    · rename_i content text _ hread
      cases h
      obtain ⟨raw, hraw, rfl, rfl⟩ := (readQuoted_eq_some_iff (isQuote_ne hquote)).mp hread
      exact ⟨by simpa using Writes.text hquote hraw, by simp, False.elim⟩
  · cases hread : readWord 0 (c :: cs) with
    | mk word ending =>
        cases ending with
        | stop after =>
            obtain ⟨token, hfront, hwrites, heq, hrest⟩ := front_of_stop hends hread
            rw [hfront] at h
            cases h
            exact ⟨by simpa using hwrites, by simpa using heq, fun _ => hrest⟩
        | unbalanced =>
            rw [front_of_endsWord hends, hread] at h
            cases h
        | unterminated =>
            rw [front_of_endsWord hends, hread] at h
            cases h

theorem front_eq_blank_iff {c : Char} {cs rest : List Char} :
    front c cs = .blank rest ↔ isBlank c = true ∧ rest = cs := by
  constructor
  · intro h
    rcases front_cases c cs with ⟨token, -, hfront⟩ | ⟨hblank, hfront⟩ | hquote | hends
    · rw [hfront] at h
      cases h
    · rw [hfront] at h
      cases h
      exact ⟨hblank, rfl⟩
    · rw [front_of_isQuote hquote] at h
      split at h <;> cases h
    · rw [front_of_endsWord hends] at h
      split at h
      · split at h <;> cases h
      · cases h
      · cases h
  · rintro ⟨hblank, rfl⟩
    have hne : ∀ d ∈ ['(', ')', ','], c ≠ d := by
      rintro d hd rfl
      simp only [List.mem_cons, List.not_mem_nil, or_false] at hd
      rcases hd with rfl | rfl | rfl <;>
        rw [isBlank_eq_false (by decide) (by decide)] at hblank <;> cases hblank
    simp only [List.forall_mem_cons, List.not_mem_nil, false_implies, implies_true, and_true] at hne
    simp [front, punctuation?, hne, hblank]

theorem front_eq_fault_iff {c : Char} {cs : List Char} {e : ParseError} :
    front c cs = .fault e ↔ Faulty e (c :: cs) := by
  constructor
  · intro h
    rcases front_cases c cs with ⟨token, -, hfront⟩ | ⟨-, hfront⟩ | hquote | hends
    · rw [hfront] at h
      cases h
    · rw [hfront] at h
      cases h
    · rw [front_of_isQuote hquote] at h
      split at h
      · rename_i hread
        cases h
        obtain ⟨content, raw, rest, hraw, hrest, rfl⟩ := (readQuoted_eq_none_iff (isQuote_ne hquote)).mp hread
        exact .text hquote hraw hrest
      · cases h
    · cases hread : readWord 0 (c :: cs) with
      | mk text ending =>
          cases ending with
          | stop rest =>
              obtain ⟨token, hfront, -⟩ := front_of_stop hends hread
              rw [hfront] at h
              cases h
          | unbalanced =>
              rw [front_of_endsWord hends, hread] at h
              cases h
              obtain ⟨word, rest, hword, hleads, rfl, heq⟩ := readWord_eq_unbalanced_iff.mp hread
              rw [heq]
              exact .closing hword (by simpa [Leads] using hleads) rest
          | unterminated =>
              rw [front_of_endsWord hends, hread] at h
              cases h
              obtain ⟨-, hword, hopen⟩ := readWord_eq_unterminated_iff.mp hread
              exact .opening hword hopen
  · intro h
    generalize hcs : c :: cs = text at h
    cases h with
    | text hquote hraw hrest =>
        rw [List.cons_append] at hcs
        obtain ⟨rfl, rfl⟩ := List.cons.inj hcs
        rw [front_of_isQuote hquote, readQuoted_eq_none hraw hrest, List.cons_append]
    | @closing word hword hbalanced rest =>
        have hends : endsWord c = false := by
          by_cases hne : word = []
          · subst hne
            obtain ⟨rfl, -⟩ := List.cons.inj hcs
            exact endsWord_close
          · exact endsWord_of_unbroken hne hword hcs
        rw [front_of_endsWord hends, hcs, readWord_unbalanced hword (by simpa [Leads] using hbalanced)]
    | opening hword hopen =>
        subst hcs
        rw [front_of_endsWord (hword.bare [] c cs rfl (by simp)),
          readWord_eq_unterminated_iff.mpr ⟨rfl, hword, hopen⟩]

-- What is in front of a fault does not make one word with it.
def Apart (before rest : List Char) : Prop :=
  (∃ c ∈ before.getLast?, endsWord c = false) → ∀ c ∈ rest.head?, endsWord c = true

-- The last character of a word does not end words.
theorem endsWord_getLast? {c : Char} {word : List Char} (hword : IsWord word) (hc : c ∈ word.getLast?) :
    endsWord c = false := by
  obtain ⟨before, rfl⟩ := List.getLast?_eq_some_iff.mp hc
  by_cases hopen : c = '\x7b'
  · rw [hopen]
    exact endsWord_open
  by_cases hclose : c = '\x7d'
  · rw [hclose]
    exact endsWord_close
  refine hword.unbroken.bare before c [] rfl ?_
  have hbalanced := hword.balanced
  simpa [hopen, hclose] using hbalanced

theorem endsWord_isQuote {c : Char} (h : isQuote c = true) : endsWord c = true := by
  simp [endsWord, h]

theorem endsWord_isBlank {c : Char} (h : isBlank c = true) : endsWord c = true := by
  simp [endsWord, h]

-- At either end of a lexeme is a character that ends words, unless the lexeme is written without quotes and
-- is no punctuation.
theorem endsWord_writes {token : Token} {raw : List Char} (h : Writes token raw) :
    raw ≠ [] ∧ ∀ c, c ∈ raw.head? ∨ c ∈ raw.getLast? → (endsWord c = false ↔ token.IsBare) := by
  by_cases hbare : token.IsBare
  · obtain ⟨hword, -⟩ := wordToken?_of_writes h hbare
    refine ⟨hword.nonempty, fun c hc => iff_of_true ?_ hbare⟩
    rcases hc with hhead | hlast
    · obtain ⟨rest, rfl⟩ := List.head?_eq_some_iff.mp hhead
      exact endsWord_of_unbroken hword.nonempty hword.unbroken (List.append_nil _).symm
    · exact endsWord_getLast? hword hlast
  · simp only [hbare, iff_false, Bool.not_eq_false]
    cases h with
    | opening => exact ⟨by simp, by simp [endsWord, punctuation?]⟩
    | closing => exact ⟨by simp, by simp [endsWord, punctuation?]⟩
    | comma => exact ⟨by simp, by simp [endsWord, punctuation?]⟩
    | @text quote _ _ hquote hraw =>
        refine ⟨by simp, fun c hc => ?_⟩
        have hc' : quote = c := by
          rcases hc with hhead | hlast
          · simpa using hhead
          · rw [List.getLast?_concat] at hlast
            simpa using hlast
        exact hc' ▸ endsWord_isQuote hquote
    | yes => exact absurd trivial hbare
    | no => exact absurd trivial hbare
    | number => exact absurd trivial hbare
    | word => exact absurd trivial hbare

namespace Layout

variable {l : Lexeme} {ls : List Lexeme} {cs : List Char} {e : ParseError}

-- The blank that a lexeme needs behind it is there if and only if what is behind it ends words.
theorem gap_iff (h : Layout ls cs) :
    ((∃ next ∈ ls.head?, next.token.IsBare) → ∃ c ∈ cs.head?, isBlank c = true) ↔
      ∀ c ∈ cs.head?, endsWord c = true := by
  cases h with
  | done => simp
  | @blank c _ _ hc _ =>
      refine iff_of_true (fun _ => ⟨c, rfl, hc⟩) fun d hd => ?_
      cases hd
      exact endsWord_isBlank hc
  | @lexeme next _ _ hl _ _ =>
      obtain ⟨hne, hends⟩ := endsWord_writes hl
      obtain ⟨first, rest, htext⟩ := List.exists_cons_of_ne_nil hne
      have hfirst := hends first (.inl (by rw [htext]; rfl))
      rw [htext]
      simp only [List.head?_cons, List.cons_append, Option.mem_some_iff, exists_eq_left', forall_eq']
      constructor
      · intro hgap
        cases hbare : endsWord first with
        | true => rfl
        | false =>
            rw [endsWord_isBlank (hgap (hfirst.mp hbare))] at hbare
            cases hbare
      · intro hfirst' hbare
        rw [hfirst.mpr hbare] at hfirst'
        cases hfirst'

theorem apart_append {first before rest : List Char} (h : Apart before rest)
    (hfirst : before = [] → Apart first rest) : Apart (first ++ before) rest := by
  by_cases hbefore : before = []
  · subst hbefore
    rw [List.append_nil]
    exact hfirst rfl
  · rintro ⟨c, hc, hends⟩
    refine h ⟨c, ?_, hends⟩
    rw [List.getLast?_append, List.getLast?_eq_some_getLast hbefore] at hc
    rw [List.getLast?_eq_some_getLast hbefore]
    exact hc

-- A text that is not read lays out lexemes up to a fault.
theorem exists_of_tokenize_error (h : tokenize cs = .error e) :
    ∃ ls before rest, cs = before ++ rest ∧ Layout ls before ∧ Apart before rest ∧ Faulty e rest := by
  fun_induction tokenize cs with
  | case1 => cases h
  | case2 c cs e' hfront =>
      cases h
      exact ⟨[], [], _, rfl, .done, by simp [Apart], front_eq_fault_iff.mp hfront⟩
  | case3 c cs rest hfront ih =>
      obtain ⟨hc, rfl⟩ := front_eq_blank_iff.mp hfront
      obtain ⟨ls, before, rest, rfl, hlayout, hapart, hfault⟩ := ih h
      refine ⟨ls, [c] ++ before, rest, rfl, .blank hc hlayout, apart_append hapart ?_, hfault⟩
      rintro - ⟨d, hd, hends⟩
      obtain rfl : c = d := by simpa using hd
      rw [endsWord_isBlank hc] at hends
      cases hends
  | case4 c cs l rest hfront e' hrest ih =>
      cases h
      obtain ⟨hl, heq, hgap⟩ := writes_of_front hfront
      obtain ⟨ls, before, after, rfl, hlayout, hapart, hfault⟩ := ih hrest
      refine ⟨l :: ls, l.text.toList ++ before, after, by rw [heq, List.append_assoc],
        .lexeme hl (fun hbare => hlayout.gap_iff.mpr fun d hd => ?_) hlayout, apart_append hapart ?_, hfault⟩
      · refine hgap hbare d ?_
        obtain ⟨before, rfl⟩ := List.head?_eq_some_iff.mp hd
        rfl
      · rintro rfl ⟨d, hd, hends⟩
        exact hgap (((endsWord_writes hl).2 d (.inr hd)).mp hends)
  | case5 => cases h

end Layout

end Cadence.Target
