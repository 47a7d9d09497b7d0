import Mathlib.Data.String.Basic
import Cadence.Proofs.Moment.Offset
import Cadence.Proofs.Outcome
import Cadence.Proofs.Transform.Words

namespace Cadence.Moment

open Text

theorem length_units {c : Char} {rest : List Char} {n : Int}
    (h : amount? ((c :: rest).takeWhile isDigit) = some n) :
    (((c :: rest).dropWhile isDigit).dropWhile isLetter).length < (c :: rest).length := by
  have hparts := congrArg List.length (List.takeWhile_append_dropWhile (p := isDigit) (l := c :: rest))
  have hunits := (List.dropWhile_suffix isLetter (l := (c :: rest).dropWhile isDigit)).length_le
  have hcount : 0 < ((c :: rest).takeWhile isDigit).length := by
    rw [List.length_pos_iff]
    obtain ⟨count, hcount, -⟩ := Option.bind_eq_some_iff.mp h
    exact ne_nil_of_natural? hcount
  rw [List.length_append] at hparts
  omega

def addGroupsInWords (offset : String) (sign : Int) (total : Int) (cs : List Char) :
    Option (Except MomentError Int) :=
  match cs with
  | [] => some (.ok total)
  | c :: rest =>
    let tail := (c :: rest).dropWhile isDigit
    let name := tail.takeWhile isLetter
    match _ha : amount? ((c :: rest).takeWhile isDigit) with
    | none => some (.error (.amount offset))
    | some count =>
      match unitSeconds name with
      | none => some (.error (.unit (String.ofList name)))
      | some seconds =>
        match fits? (seconds * count) with
        | none => some (.error (.outOfRange offset))
        | some secs =>
          match Timestamp.word? (sign * secs) with
          | none => none
          | some signed =>
            match fits? (total + signed) with
            | none => some (.error (.outOfRange offset))
            | some total => addGroupsInWords offset sign total (tail.dropWhile isLetter)
termination_by cs.length
decreasing_by exact length_units _ha

def offsetSecondsInWords (cs : List Char) : Option (Except MomentError Int) :=
  match cs with
  | [] => some (.ok 0)
  | c :: rest => addGroupsInWords (String.ofList (c :: rest)) (if c = '-' then -1 else 1) 0 rest

def parseInWords (s : String) (now : Timestamp) : Option (Except MomentError Timestamp) :=
  let cs := normalize s
  let text := String.ofList cs
  match epoch? cs with
  | some t => some (.ok t)
  | none =>
    if ':' ∈ cs ∧ text.utf8ByteSize = dateTimeLength then
      match readDateTime cs with
      | .ok seconds => (Timestamp.word? seconds).map fun n => .ok (Int64.ofInt n)
      | .error fault => some (.error (.format text fault))
    else
      let reference := cs.takeWhile fun c => c ≠ '+' ∧ c ≠ '-'
      if reference ≠ [] ∧ reference ≠ "now".toList then some (.error (.reference text))
      else (offsetSecondsInWords (cs.drop reference.length)).map fun offset =>
        match offset with
        | .error e => .error e
        | .ok seconds =>
          match Timestamp.ofInt? (now.toInt + seconds) with
          | some t => .ok t
          | none => .error (.outOfRange text)

theorem amount?_nonneg {digits : List Char} {n : Int} (h : amount? digits = some n) : 0 ≤ n := by
  obtain ⟨count, -, hcount⟩ := Option.bind_eq_some_iff.mp h
  rw [fits?, Option.ite_none_right_eq_some, Option.some.injEq] at hcount
  omega

theorem unitSeconds_pos {name : List Char} {n : Int} (h : unitSeconds name = some n) : 0 < n := by
  cases unitSeconds_eq_some_iff.mp h <;> decide

-- The seconds of a group are not negative, so that they may change their sign.
theorem word?_sign_mul {sign count seconds secs : Int} (hsign : sign = 1 ∨ sign = -1) (hcount : 0 ≤ count)
    (hseconds : 0 < seconds) (h : fits? (seconds * count) = some secs) :
    Timestamp.word? (sign * secs) = some (sign * secs) := by
  rw [fits?, Option.ite_none_right_eq_some, Option.some.injEq] at h
  obtain ⟨⟨-, hhigh⟩, rfl⟩ := h
  have hpos : 0 ≤ seconds * count := Int.mul_nonneg (Int.le_of_lt hseconds) hcount
  unfold Timestamp.highest at hhigh
  refine Timestamp.word?_eq_some ?_ ?_
  · unfold Timestamp.lowest
    rcases hsign with rfl | rfl <;> omega
  · unfold Timestamp.highest
    rcases hsign with rfl | rfl <;> omega

theorem addGroupsInWords_cons (offset : String) (sign total : Int) (c : Char) (rest : List Char) :
    addGroupsInWords offset sign total (c :: rest) =
      match amount? ((c :: rest).takeWhile isDigit) with
      | none => some (.error (.amount offset))
      | some count =>
        match unitSeconds (((c :: rest).dropWhile isDigit).takeWhile isLetter) with
        | none => some (.error (.unit (String.ofList (((c :: rest).dropWhile isDigit).takeWhile isLetter))))
        | some seconds =>
          match fits? (seconds * count) with
          | none => some (.error (.outOfRange offset))
          | some secs =>
            match Timestamp.word? (sign * secs) with
            | none => none
            | some signed =>
              match fits? (total + signed) with
              | none => some (.error (.outOfRange offset))
              | some total =>
                addGroupsInWords offset sign total (((c :: rest).dropWhile isDigit).dropWhile isLetter) := by
  rw [addGroupsInWords]
  split <;> simp only [*]

theorem addGroupsInWords_eq (offset : String) {sign : Int} (hsign : sign = 1 ∨ sign = -1) (total : Int)
    (cs : List Char) : addGroupsInWords offset sign total cs = some (addGroups offset sign total cs) := by
  induction hn : cs.length using Nat.strongRecOn generalizing cs total with
  | ind n ih =>
      cases cs with
      | nil => rw [addGroupsInWords, addGroups]
      | cons c rest =>
          rw [addGroupsInWords_cons, addGroups_cons]
          cases hcount : amount? ((c :: rest).takeWhile isDigit) with
          | none => rfl
          | some count =>
              cases hunit : unitSeconds (((c :: rest).dropWhile isDigit).takeWhile isLetter) with
              | none => rfl
              | some seconds =>
                  cases hsecs : fits? (seconds * count) with
                  | none => simp only [hsecs, Option.bind_none]
                  | some secs =>
                      simp only [hsecs, Option.bind_some,
                        word?_sign_mul hsign (amount?_nonneg hcount) (unitSeconds_pos hunit) hsecs]
                      cases fits? (total + sign * secs) with
                      | none => rfl
                      | some total => exact ih _ (hn ▸ length_units hcount) total _ rfl

theorem offsetSecondsInWords_eq (cs : List Char) : offsetSecondsInWords cs = some (offsetSeconds cs) := by
  cases cs with
  | nil => rfl
  | cons c rest =>
      refine addGroupsInWords_eq _ ?_ 0 rest
      split
      · exact .inr rfl
      · exact .inl rfl

theorem foldl_digits_lt {digits : List Char} (h : ∀ c ∈ digits, isDigit c = true) (n : Nat) :
    digits.foldl (fun n c => n * 10 + (c.toNat - '0'.toNat)) n < (n + 1) * 10 ^ digits.length := by
  induction digits generalizing n with
  | nil => simp
  | cons c digits ih =>
      rw [List.forall_mem_cons] at h
      have hdigit := toNat_of_isDigit h.1
      have hrest := ih h.2 (n * 10 + (c.toNat - '0'.toNat))
      have hnext : n * 10 + (c.toNat - '0'.toNat) + 1 ≤ (n + 1) * 10 := by
        show n * 10 + (c.toNat - 48) + 1 ≤ _
        omega
      calc (c :: digits).foldl (fun n c => n * 10 + (c.toNat - '0'.toNat)) n
          < (n * 10 + (c.toNat - '0'.toNat) + 1) * 10 ^ digits.length := hrest
        _ ≤ (n + 1) * 10 * 10 ^ digits.length := Nat.mul_le_mul_right _ hnext
        _ = (n + 1) * 10 ^ (c :: digits).length := by rw [List.length_cons, Nat.pow_succ']; ac_rfl

theorem digitsValue_lt {digits : List Char} (h : ∀ c ∈ digits, isDigit c = true) :
    digitsValue digits < 10 ^ digits.length := by
  have hlt := foldl_digits_lt h 0
  rwa [Nat.zero_add, Nat.one_mul] at hlt

-- A number has no more digits than it may have, and takes one at least.
theorem readDigits_spec {width n : Nat} {cs rest : List Char} (hwidth : 0 < width)
    (h : readDigits width cs = .ok (n, rest)) : n < 10 ^ width ∧ rest.length < cs.length := by
  cases cs with
  | nil => cases h
  | cons c cs =>
      rw [readDigits] at h
      split at h
      · cases h
      · rename_i hdigit
        cases h
        have hdigits : ∀ d ∈ ((c :: cs).take width).takeWhile isDigit, isDigit d = true := fun d hd =>
          List.all_eq_true.mp List.all_takeWhile d hd
        have hlength : (((c :: cs).take width).takeWhile isDigit).length ≤ width :=
          Nat.le_trans (List.takeWhile_sublist _).length_le (List.length_take_le width _)
        have hsome : 0 < (((c :: cs).take width).takeWhile isDigit).length := by
          obtain ⟨width, rfl⟩ := Nat.exists_eq_succ_of_ne_zero (Nat.ne_of_gt hwidth)
          rw [List.take_succ_cons, List.takeWhile_cons_of_pos (by simpa using hdigit)]
          simp
        refine ⟨Nat.lt_of_lt_of_le (digitsValue_lt hdigits) (Nat.pow_le_pow_right (by decide) hlength), ?_⟩
        rw [List.length_drop, List.length_cons]
        omega

theorem length_dropBlanks_le (cs : List Char) : (dropBlanks cs).length ≤ cs.length :=
  (List.dropWhile_sublist _).length_le

theorem readField_spec {width low high n : Nat} {cs rest : List Char} (hwidth : 0 < width)
    (h : readField width low high cs = .ok (n, rest)) :
    low ≤ n ∧ n ≤ high ∧ rest.length < cs.length := by
  obtain ⟨⟨m, after⟩, hread, h⟩ := exists_of_bind_eq_ok h
  have hlength := (readDigits_spec hwidth hread).2
  have hblanks := length_dropBlanks_le cs
  dsimp only at h
  split at h
  · rename_i hbounds
    cases h
    exact ⟨hbounds.1, hbounds.2, by omega⟩
  · cases h

theorem readColon_spec {cs rest : List Char} (h : readColon cs = .ok rest) : rest.length < cs.length := by
  cases cs with
  | nil => cases h
  | cons c cs =>
      rw [readColon] at h
      split at h
      · cases h
        exact Nat.lt_succ_self _
      · cases h

theorem readDigits_length {n k : Nat} {cs rest : List Char} (h : readDigits cs.length cs = .ok (n, rest))
    (hshort : cs.length ≤ k) : n < 10 ^ k := by
  have hpos : 0 < cs.length := by
    cases cs with
    | nil => cases h
    | cons c cs => exact Nat.succ_pos _
  exact Nat.lt_of_lt_of_le (readDigits_spec hpos h).1 (Nat.pow_le_pow_right (by decide) hshort)

theorem readYear_spec {year : Int} {cs rest : List Char} (h : readYear cs = .ok (year, rest))
    (hshort : cs.length ≤ 10) : -1000000000 < year ∧ year < 1000000000 := by
  have hblanks := length_dropBlanks_le cs
  unfold readYear at h
  split at h
  · rename_i signed hsigned
    obtain ⟨⟨n, after⟩, hread, h⟩ := exists_of_bind_eq_ok h
    cases h
    rw [hsigned, List.length_cons] at hblanks
    have := readDigits_length hread (show signed.length ≤ 9 by omega)
    omega
  · rename_i signed hsigned
    obtain ⟨⟨n, after⟩, hread, h⟩ := exists_of_bind_eq_ok h
    cases h
    rw [hsigned, List.length_cons] at hblanks
    have := readDigits_length hread (show signed.length ≤ 9 by omega)
    omega
  · obtain ⟨⟨n, after⟩, hread, h⟩ := exists_of_bind_eq_ok h
    cases h
    have := (readDigits_spec (by decide) hread).1
    omega

theorem daysBeforeMonth_le (d : Date) (h : d.month ≤ 12) : d.daysBeforeMonth ≤ 366 := by
  have hall : ∀ leap : Bool, ∀ months < 12, ([31, if leap then 29 else 28, 31, 30, 31, 30, 31, 31, 30, 31,
      30, 31].take months).foldl (· + ·) 0 ≤ 366 := by decide
  exact hall (Date.isLeap d.year) (d.month - 1) (by omega)

theorem fits_of_readDateTime {cs : List Char} {seconds : Int} (h : readDateTime cs = .ok seconds)
    (hshort : cs.length ≤ dateTimeLength) : Fits seconds := by
  obtain ⟨⟨hours, cs₁⟩, hhours, h⟩ := exists_of_bind_eq_ok h
  obtain ⟨cs₂, hcolon, h⟩ := exists_of_bind_eq_ok h
  obtain ⟨⟨minutes, cs₃⟩, hminutes, h⟩ := exists_of_bind_eq_ok h
  obtain ⟨⟨year, cs₄⟩, hyear, h⟩ := exists_of_bind_eq_ok h
  obtain ⟨⟨month, cs₅⟩, hmonth, h⟩ := exists_of_bind_eq_ok h
  obtain ⟨⟨day, cs₆⟩, hday, h⟩ := exists_of_bind_eq_ok h
  dsimp only at h hcolon hminutes hyear hmonth hday
  split at h
  · cases h
  split at h
  · cases h
  cases h
  have hhours := readField_spec (by decide) hhours
  have hcolon := readColon_spec hcolon
  have hminutes := readField_spec (by decide) hminutes
  have hmonth := readField_spec (by decide) hmonth
  have hday := readField_spec (by decide) hday
  have hyear := readYear_spec hyear (by unfold dateTimeLength at hshort; omega)
  have hdays := daysBeforeMonth_le ⟨year, month, day⟩ hmonth.2.1
  unfold Fits Timestamp.lowest Timestamp.highest Date.daysSinceEpoch Date.daysBeforeYear
  dsimp only
  omega

theorem length_le_utf8ByteSize (cs : List Char) : cs.length ≤ (String.ofList cs).utf8ByteSize := by
  rw [String.utf8ByteSize_ofList]
  induction cs with
  | nil => exact Nat.zero_le _
  | cons c cs ih =>
      have hpos := c.utf8Size_pos
      rw [String.utf8Len_cons, List.length_cons]
      omega

theorem parseInWords_eq (s : String) (now : Timestamp) : parseInWords s now = some (parse s now) := by
  unfold parseInWords parse
  simp only [offsetSecondsInWords_eq, Option.map_some]
  generalize normalize s = cs
  cases epoch? cs with
  | some t => rfl
  | none =>
      by_cases hdate : ':' ∈ cs ∧ (String.ofList cs).utf8ByteSize = dateTimeLength
      · simp only [if_pos hdate]
        have hshort := length_le_utf8ByteSize cs
        rw [hdate.2] at hshort
        cases hread : readDateTime cs with
        | error fault => rfl
        | ok seconds =>
            obtain ⟨hlow, hhigh⟩ := fits_of_readDateTime hread hshort
            simp only [Timestamp.word?_eq_some hlow hhigh, Option.map_some, Timestamp.clamp,
              Int.min_eq_left hhigh, Int.max_eq_right hlow]
      · simp only [if_neg hdate]
        by_cases hreference : (cs.takeWhile fun c => c ≠ '+' ∧ c ≠ '-') ≠ [] ∧
            (cs.takeWhile fun c => c ≠ '+' ∧ c ≠ '-') ≠ "now".toList
        · simp only [if_pos hreference]
        · exact (if_neg hreference).trans (congrArg some (if_neg hreference).symm)

end Cadence.Moment
