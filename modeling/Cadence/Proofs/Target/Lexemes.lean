import Cadence.Proofs.Target.Scanning
import Cadence.Proofs.Text.Ascii

namespace Cadence.Target

open Text

-- A number as it is written: a sign or none, digits, and decimals behind a point if there is one.
structure Numeral where
  sign : List Char
  whole : List Char
  decimals : Option (List Char)
  sign_mem : sign ∈ [[], ['+'], ['-']]
  digits : ∀ c ∈ whole ++ decimals.getD [], isDigit c = true
  nonempty : whole ++ decimals.getD [] ≠ []

namespace Numeral

def fraction : Option (List Char) → List Char
  | none => []
  | some decimals => '.' :: decimals

def chars (n : Numeral) : List Char := n.sign ++ (n.whole ++ fraction n.decimals)

def value (n : Numeral) : Float :=
  Decimal.nearest (n.sign = ['-']) (digitsValue (n.whole ++ n.decimals.getD []))
    (-((n.decimals.getD []).length : Int))

theorem digit_ne {c d : Char} (h : isDigit c = true) (hd : d.toNat < 48) : c ≠ d := by
  rintro rfl
  have := (toNat_of_isDigit h).1
  omega

variable {whole : List Char} {decimals : Option (List Char)}

theorem mem_append_fraction {c : Char} :
    c ∈ whole ++ fraction decimals ↔ c ∈ whole ++ decimals.getD [] ∨ c = '.' ∧ decimals.isSome := by
  cases decimals with
  | none => simp [fraction]
  | some decimals =>
      simp only [fraction, List.mem_append, List.mem_cons, Option.getD_some, Option.isSome_some, and_true]
      rw [or_assoc, or_comm (a := c ∈ decimals)]

theorem count_append_fraction (h : ∀ c ∈ whole ++ decimals.getD [], isDigit c = true) :
    (whole ++ fraction decimals).count '.' ≤ 1 := by
  have hzero : (whole ++ decimals.getD []).count '.' = 0 :=
    List.count_eq_zero.mpr fun hm => digit_ne (h _ hm) (by decide) rfl
  cases decimals with
  | none =>
      simp only [fraction, Option.getD_none] at hzero ⊢
      omega
  | some decimals =>
      simp only [fraction, Option.getD_some, List.count_append, List.count_cons_self] at hzero ⊢
      omega

-- With one point at most, a text is what stands in front of the point and behind it.
theorem exists_fraction {cs : List Char} (h : cs.count '.' ≤ 1) :
    ∃ whole decimals, cs = whole ++ fraction decimals ∧ '.' ∉ whole ++ decimals.getD [] := by
  by_cases hpoint : '.' ∈ cs
  · obtain ⟨whole, decimals, rfl⟩ := List.append_of_mem hpoint
    refine ⟨whole, some decimals, rfl, fun hm => ?_⟩
    have hpos := List.count_pos_iff.mpr hm
    simp only [Option.getD_some, List.count_append, List.count_cons_self] at hpos h
    omega
  · exact ⟨cs, none, by simp [fraction], by simpa using hpoint⟩

theorem isUnsignedNumber_iff (cs : List Char) :
    isUnsignedNumber cs = true ↔ ∃ whole decimals, cs = whole ++ fraction decimals ∧
      (∀ c ∈ whole ++ decimals.getD [], isDigit c = true) ∧ whole ++ decimals.getD [] ≠ [] := by
  simp only [isUnsignedNumber, Bool.and_eq_true, List.any_eq_true, List.all_eq_true, Bool.or_eq_true,
    decide_eq_true_eq]
  constructor
  · rintro ⟨⟨⟨digit, hmem, hdigit⟩, hall⟩, hpoints⟩
    obtain ⟨whole, decimals, rfl, hnone⟩ := exists_fraction hpoints
    refine ⟨whole, decimals, rfl, ?_, ?_⟩
    · intro c hc
      rcases hall c (mem_append_fraction.mpr (.inl hc)) with h | rfl
      · exact h
      · exact absurd hc hnone
    · rcases mem_append_fraction.mp hmem with hm | ⟨rfl, -⟩
      · exact List.ne_nil_of_mem hm
      · exact absurd rfl (digit_ne hdigit (by decide))
  · rintro ⟨whole, decimals, rfl, hdigits, hnonempty⟩
    obtain ⟨digit, hmem⟩ := List.exists_mem_of_ne_nil _ hnonempty
    refine ⟨⟨⟨digit, mem_append_fraction.mpr (.inl hmem), hdigits _ hmem⟩, ?_⟩,
      count_append_fraction hdigits⟩
    intro c hc
    rcases mem_append_fraction.mp hc with hc | ⟨rfl, -⟩
    · exact .inl (hdigits c hc)
    · exact .inr rfl

theorem ne_sign {c : Char} (h : isDigit c = true ∨ c = '.') : c ≠ '+' ∧ c ≠ '-' := by
  rcases h with h | rfl
  · exact ⟨digit_ne h (by decide), digit_ne h (by decide)⟩
  · decide

theorem unsigned_append {sign cs : List Char} (hsign : sign ∈ [[], ['+'], ['-']])
    (hcs : ∀ c ∈ cs, isDigit c = true ∨ c = '.') : unsigned (sign ++ cs) = cs := by
  simp only [List.mem_cons, List.not_mem_nil, or_false] at hsign
  rcases hsign with rfl | rfl | rfl
  · cases cs with
    | nil => rfl
    | cons c cs => simp [unsigned, ne_sign (hcs c List.mem_cons_self)]
  · rfl
  · rfl

theorem exists_sign (word : List Char) : ∃ sign ∈ [[], ['+'], ['-']], word = sign ++ unsigned word := by
  unfold unsigned
  split
  · rename_i c cs
    split
    · rename_i hc
      rcases hc with rfl | rfl
      · exact ⟨['+'], by simp, rfl⟩
      · exact ⟨['-'], by simp, rfl⟩
    · exact ⟨[], by simp, rfl⟩
  · exact ⟨[], by simp, rfl⟩

variable (n : Numeral)

theorem mem_unsigned {c : Char} (h : c ∈ n.whole ++ fraction n.decimals) : isDigit c = true ∨ c = '.' := by
  rcases mem_append_fraction.mp h with h | ⟨rfl, -⟩
  · exact .inl (n.digits c h)
  · exact .inr rfl

theorem unsigned_chars : unsigned n.chars = n.whole ++ fraction n.decimals :=
  unsigned_append n.sign_mem fun _ => n.mem_unsigned

theorem mem_chars {c : Char} (h : c ∈ n.chars) : c = '+' ∨ c = '-' ∨ isDigit c = true ∨ c = '.' := by
  rw [chars, List.mem_append] at h
  rcases h with h | h
  · have hsign := n.sign_mem
    simp only [List.mem_cons, List.not_mem_nil, or_false] at hsign
    rcases hsign with hsign | hsign | hsign <;> simp [hsign] at h <;> simp [h]
  · exact .inr (.inr (n.mem_unsigned h))

theorem chars_ne_nil : n.chars ≠ [] := by
  obtain ⟨digit, hmem⟩ := List.exists_mem_of_ne_nil _ n.nonempty
  exact List.ne_nil_of_mem (List.mem_append_right _ (mem_append_fraction.mpr (.inl hmem)))

theorem isNumber_iff (word : List Char) : isNumber word = true ↔ ∃ n : Numeral, n.chars = word := by
  constructor
  · intro h
    obtain ⟨whole, decimals, hcs, hdigits, hnonempty⟩ := (isUnsignedNumber_iff _).mp h
    obtain ⟨sign, hsign, hword⟩ := exists_sign word
    rw [hcs] at hword
    exact ⟨⟨sign, whole, decimals, hsign, hdigits, hnonempty⟩, hword.symm⟩
  · rintro ⟨n, rfl⟩
    rw [isNumber, unsigned_chars]
    exact (isUnsignedNumber_iff _).mpr ⟨_, _, rfl, n.digits, n.nonempty⟩

theorem drop_dropWhile_append (h : ∀ c ∈ whole, c ≠ '.') :
    ((whole ++ fraction decimals).dropWhile (· ≠ '.')).drop 1 = decimals.getD [] := by
  rw [List.dropWhile_append_of_pos (by simpa using h)]
  cases decimals <;> simp [fraction]

theorem takeWhile_append (h : ∀ c ∈ whole, c ≠ '.') :
    (whole ++ fraction decimals).takeWhile (· ≠ '.') = whole := by
  rw [List.takeWhile_append_of_pos (by simpa using h)]
  cases decimals <;> simp [fraction]

theorem head?_chars : n.chars.head? = some '-' ↔ n.sign = ['-'] := by
  have hsign := n.sign_mem
  simp only [List.mem_cons, List.not_mem_nil, or_false] at hsign
  rcases hsign with hsign | hsign | hsign
  · rw [chars, hsign, List.nil_append]
    refine iff_of_false (fun hhead => ?_) (by simp)
    exact (ne_sign (n.mem_unsigned (List.mem_of_head? hhead))).2 rfl
  · simp [chars, hsign]
  · simp [chars, hsign]

theorem number?_chars : number? n.chars = some n.value := by
  have hpoint : ∀ c ∈ n.whole, c ≠ '.' := fun c hc =>
    digit_ne (n.digits c (List.mem_append_left _ hc)) (by decide)
  have hdigits : (n.whole ++ n.decimals.getD []).all isDigit = true := List.all_eq_true.mpr n.digits
  rw [number?, unsigned_chars, takeWhile_append hpoint, drop_dropWhile_append hpoint,
    if_pos ⟨hdigits, n.nonempty⟩, value]
  simp only [head?_chars]

end Numeral

-- The texts that write a token. What is written without quotes and is no punctuation is a number or a truth
-- value before it is a word.
inductive Writes : Token → List Char → Prop
  | opening : Writes .opening ['(']
  | closing : Writes .closing [')']
  | comma : Writes .comma [',']
  | text {quote : Char} {content raw : List Char} (hquote : isQuote quote = true)
      (hraw : Quotes quote content raw) : Writes (.text (String.ofList content)) (quote :: raw ++ [quote])
  | yes : Writes (.flag true) "true".toList
  | no : Writes (.flag false) "false".toList
  | number (n : Numeral) : Writes (.number n.value) n.chars
  | word {cs : List Char} (hcs : IsWord cs) (hyes : cs ≠ "true".toList) (hno : cs ≠ "false".toList)
      (hnumber : ∀ n : Numeral, n.chars ≠ cs) : Writes (.word (String.ofList cs)) cs

-- Tokens that are no punctuation and are written without quotes.
def Token.IsBare : Token → Prop
  | word _ => True
  | number _ => True
  | flag _ => True
  | _ => False

-- Basic characters behind the comma and in front of the braces make up words, and the plus does.
theorem isWord_of_plain {cs : List Char} (hne : cs ≠ [])
    (h : ∀ c ∈ cs, c = '+' ∨ 44 < c.toNat ∧ c.toNat < 0x7b) : IsWord cs := by
  have hends : ∀ c ∈ cs, endsWord c = false := by
    intro c hc
    rcases h c hc with rfl | ⟨hlow, hhigh⟩
    · decide +kernel
    · exact endsWord_eq_false hlow (by omega)
  have hcount : ∀ brace ∈ ['\x7b', '\x7d'], ∀ part, part ⊆ cs → part.count brace = 0 := by
    intro brace hbrace part hpart
    refine List.count_eq_zero.mpr fun hm => ?_
    simp only [List.mem_cons, List.not_mem_nil, or_false] at hbrace
    rcases h brace (hpart hm) with rfl | ⟨-, hhigh⟩
    · simp at hbrace
    · rcases hbrace with rfl | rfl <;> exact absurd hhigh (by decide)
  refine ⟨hne, ⟨?_, ?_⟩, ?_⟩
  · intro before hbefore
    rw [hcount '\x7d' (by simp) before hbefore.subset]
    omega
  · rintro before c after rfl -
    exact hends c (by simp)
  · rw [hcount '\x7d' (by simp) cs (List.Subset.refl cs), hcount '\x7b' (by simp) cs (List.Subset.refl cs)]

theorem isWord_numeral (n : Numeral) : IsWord n.chars := by
  refine isWord_of_plain n.chars_ne_nil fun c hc => ?_
  rcases n.mem_chars hc with hsign | rfl | hdigit | rfl
  · exact .inl hsign
  · exact .inr (by decide)
  · have := toNat_of_isDigit hdigit
    exact .inr (by omega)
  · exact .inr (by decide)

-- Every word stands for a token: what looks like a number is one.
theorem exists_wordToken {cs : List Char} (h : IsWord cs) :
    ∃ token, wordToken? cs = some token ∧ Writes token cs := by
  unfold wordToken?
  split
  · rename_i heq
    subst heq
    exact ⟨_, rfl, .yes⟩
  · rename_i hyes
    split
    · rename_i heq
      subst heq
      exact ⟨_, rfl, .no⟩
    · rename_i hno
      split
      · rename_i hnumber
        obtain ⟨n, rfl⟩ := (Numeral.isNumber_iff cs).mp hnumber
        rw [n.number?_chars]
        exact ⟨_, rfl, .number n⟩
      · rename_i hnumber
        rw [Numeral.isNumber_iff, not_exists] at hnumber
        exact ⟨_, rfl, .word h hyes hno hnumber⟩

theorem wordToken?_of_writes {token : Token} {cs : List Char} (h : Writes token cs) (hbare : token.IsBare) :
    IsWord cs ∧ wordToken? cs = some token := by
  cases h with
  | opening => cases hbare
  | closing => cases hbare
  | comma => cases hbare
  | text hquote hraw => cases hbare
  | yes => exact ⟨isWord_of_plain (by decide) (by simp), rfl⟩
  | no => exact ⟨isWord_of_plain (by decide) (by simp), rfl⟩
  | number n =>
      refine ⟨isWord_numeral n, ?_⟩
      have hletter : 'e' ∉ n.chars := fun hm => absurd (n.mem_chars hm) (by decide)
      have hyes : n.chars ≠ "true".toList := fun h => hletter (h ▸ by decide)
      have hno : n.chars ≠ "false".toList := fun h => hletter (h ▸ by decide)
      rw [wordToken?, if_neg hyes, if_neg hno, if_pos ((Numeral.isNumber_iff _).mpr ⟨n, rfl⟩),
        n.number?_chars]
      rfl
  | word hcs hyes hno hnumber =>
      rw [wordToken?, if_neg hyes, if_neg hno, if_neg]
      · exact ⟨hcs, rfl⟩
      · rw [Numeral.isNumber_iff, not_exists]
        exact hnumber

end Cadence.Target
