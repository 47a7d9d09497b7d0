import Cadence.Moment.Basic
import Cadence.Proofs.Text.Ascii

namespace Cadence.Moment

open Text

-- The names of units, by the seconds that they have. No name has two meanings.
inductive IsUnit (name : List Char) : Int → Prop
  | second (h : "s".toList <+: name) : IsUnit name 1
  | minute (h : name = ['m'] ∨ "min".toList <+: name) : IsUnit name 60
  | hour (h : "h".toList <+: name) : IsUnit name 3600
  | day (h : "d".toList <+: name) : IsUnit name 86400
  | week (h : "w".toList <+: name) : IsUnit name 604800
  | month (h : "mon".toList <+: name) : IsUnit name 2592000
  | year (h : "y".toList <+: name) : IsUnit name 31536000

theorem unitSeconds_eq_some_iff {name : List Char} {n : Int} : unitSeconds name = some n ↔ IsUnit name n := by
  constructor
  · intro h
    unfold unitSeconds at h
    simp only [List.isPrefixOf_iff_prefix] at h
    split at h
    · cases h
      exact .second ‹_›
    split at h
    · cases h
      exact .minute ‹_›
    split at h
    · cases h
      exact .hour ‹_›
    split at h
    · cases h
      exact .day ‹_›
    split at h
    · cases h
      exact .week ‹_›
    split at h
    · cases h
      exact .month ‹_›
    split at h
    · cases h
      exact .year ‹_›
    · cases h
  · intro h
    cases h with
    | minute h =>
        rcases h with rfl | ⟨rest, rfl⟩
        · rfl
        · rfl
    | second h | hour h | day h | week h | month h | year h =>
        obtain ⟨rest, rfl⟩ := h
        rfl

theorem splits_append {p : Char → Bool} {cs rest : List Char} (hcs : ∀ c ∈ cs, p c = true)
    (hrest : ∀ c ∈ rest.head?, p c = false) :
    (cs ++ rest).takeWhile p = cs ∧ (cs ++ rest).dropWhile p = rest := by
  rw [List.takeWhile_append_of_pos hcs, List.dropWhile_append_of_pos hcs]
  cases rest with
  | nil => simp
  | cons c rest => simp [hrest c rfl]

theorem isLetter_iff {c : Char} :
    isLetter c = true ↔ 65 ≤ c.toNat ∧ c.toNat ≤ 90 ∨ 97 ≤ c.toNat ∧ c.toNat ≤ 122 := by
  change (decide (c.val ≥ 65 ∧ c.val ≤ 90) || decide (c.val ≥ 97) && decide (c.val ≤ 122)) = true ↔ _
  simp only [Bool.or_eq_true, Bool.and_eq_true, decide_eq_true_eq, ge_iff_le, UInt32.le_iff_toNat_le]
  rfl

-- A count and a unit, as they are written in any letter case.
structure OffsetGroup where
  digits : List Char
  unit : List Char
  digits_ne_nil : digits ≠ []
  unit_ne_nil : unit ≠ []
  isDigit : ∀ c ∈ digits, isDigit c = true
  isLetter : ∀ c ∈ unit, isLetter c = true

namespace OffsetGroup

variable (g : OffsetGroup)

def chars : List Char := g.digits ++ g.unit

def name : List Char := g.unit.map Char.toLower

def count : Int := digitsValue g.digits

def seconds : Int := (unitSeconds g.name).getD 0

def sum : List OffsetGroup → Int
  | [] => 0
  | g :: groups => g.seconds * g.count + sum groups

end OffsetGroup

def Fits (n : Int) : Prop := Timestamp.lowest ≤ n ∧ n ≤ Timestamp.highest

instance (n : Int) : Decidable (Fits n) := inferInstanceAs (Decidable (_ ∧ _))

-- Groups that can be added to a total with a sign.
structure Addable (sign total : Int) (groups : List OffsetGroup) : Prop where
  known : ∀ g ∈ groups, IsUnit g.name g.seconds
  counts : ∀ g ∈ groups, Fits g.count
  products : ∀ g ∈ groups, Fits (g.seconds * g.count)
  sums : ∀ before, before <+: groups → Fits (total + sign * OffsetGroup.sum before)

variable {sign total : Int} {g : OffsetGroup} {groups : List OffsetGroup}

theorem sum_cons : OffsetGroup.sum (g :: groups) = g.seconds * g.count + OffsetGroup.sum groups := rfl

theorem addable_nil (h : Fits total) : Addable sign total [] where
  known := by simp
  counts := by simp
  products := by simp
  sums := by simpa [OffsetGroup.sum] using h

theorem addable_cons_iff (h : Fits total) :
    Addable sign total (g :: groups) ↔
      IsUnit g.name g.seconds ∧ Fits g.count ∧ Fits (g.seconds * g.count) ∧
        Addable sign (total + sign * (g.seconds * g.count)) groups := by
  have hsum : ∀ before, total + sign * OffsetGroup.sum (g :: before)
      = total + sign * (g.seconds * g.count) + sign * OffsetGroup.sum before := by
    intro before
    rw [sum_cons, Int.mul_add, Int.add_assoc]
  constructor
  · rintro ⟨hknown, hcounts, hproducts, hsums⟩
    simp only [List.forall_mem_cons] at hknown hcounts hproducts
    refine ⟨hknown.1, hcounts.1, hproducts.1, hknown.2, hcounts.2, hproducts.2, fun before hbefore => ?_⟩
    rw [← hsum]
    exact hsums _ (List.cons_prefix_cons.mpr ⟨rfl, hbefore⟩)
  · rintro ⟨hknown, hcount, hproduct, hrest⟩
    refine ⟨List.forall_mem_cons.mpr ⟨hknown, hrest.known⟩, List.forall_mem_cons.mpr ⟨hcount, hrest.counts⟩,
      List.forall_mem_cons.mpr ⟨hproduct, hrest.products⟩, fun before hbefore => ?_⟩
    cases before with
    | nil => simpa [OffsetGroup.sum] using h
    | cons other before =>
        obtain ⟨rfl, hrestBefore⟩ := List.cons_prefix_cons.mp hbefore
        rw [hsum]
        exact hrest.sums before hrestBefore

namespace OffsetGroup

def text (g : OffsetGroup) : List Char := g.digits ++ g.name

theorem map_toLower_chars : g.chars.map Char.toLower = g.text := by
  have hdigits : g.digits.map Char.toLower = g.digits := by
    refine (List.map_congr_left fun c hc => ?_).trans (List.map_id g.digits)
    have hdigit := toNat_of_isDigit (g.isDigit c hc)
    have hsmall : c.toLower = c := (toLower_eq_iff (.inl (by omega))).mpr rfl
    exact hsmall
  rw [chars, text, List.map_append, hdigits, name]

theorem toNat_of_isLetter_name {c : Char} (h : c ∈ g.name) : 97 ≤ c.toNat ∧ c.toNat ≤ 122 := by
  obtain ⟨d, hd, rfl⟩ := List.mem_map.mp h
  have hletter := isLetter_iff.mp (g.isLetter d hd)
  rw [toNat_toLower]
  split <;> omega

theorem name_ne_nil : g.name ≠ [] := by
  simpa [name] using g.unit_ne_nil

-- A group is found at the front of a text that goes on with digits, if it goes on.
theorem split_text {rest : List Char} (h : ∀ c ∈ rest.head?, Text.isDigit c = true) :
    ((g.text ++ rest).takeWhile Text.isDigit = g.digits ∧
      (g.text ++ rest).dropWhile Text.isDigit = g.name ++ rest) ∧
      (g.name ++ rest).takeWhile Moment.isLetter = g.name ∧
      (g.name ++ rest).dropWhile Moment.isLetter = rest := by
  have hname : ∀ c ∈ (g.name ++ rest).head?, Text.isDigit c = false := by
    intro c hc
    rw [List.head?_append, List.head?_eq_some_head g.name_ne_nil, Option.some_or,
      ← List.head?_eq_some_head g.name_ne_nil] at hc
    have hletter := g.toNat_of_isLetter_name (List.mem_of_head? hc)
    exact Bool.eq_false_iff.mpr fun hdigit => by
      have := toNat_of_isDigit hdigit
      omega
  have hrest : ∀ c ∈ rest.head?, Moment.isLetter c = false := by
    intro c hc
    have hdigit := toNat_of_isDigit (h c hc)
    exact Bool.eq_false_iff.mpr fun hletter => by
      have := isLetter_iff.mp hletter
      omega
  have hletters : ∀ c ∈ g.name, Moment.isLetter c = true := fun c hc =>
    isLetter_iff.mpr (.inr (g.toNat_of_isLetter_name hc))
  rw [text, List.append_assoc]
  exact ⟨splits_append g.isDigit hname, splits_append hletters hrest⟩

theorem amount?_digits : amount? g.digits = fits? g.count := by
  have hall : g.digits.all Text.isDigit = true := List.all_eq_true.mpr g.isDigit
  simp [amount?, natural?, g.digits_ne_nil, hall, count]

end OffsetGroup

theorem fits?_eq_some {n : Int} (h : Fits n) : fits? n = some n := if_pos h

theorem fits?_eq_none {n : Int} (h : ¬Fits n) : fits? n = none := if_neg h

theorem addGroups_cons (offset : String) (sign total : Int) (c : Char) (rest : List Char) :
    addGroups offset sign total (c :: rest) =
      match amount? ((c :: rest).takeWhile isDigit) with
      | none => .error (.amount offset)
      | some count =>
        match unitSeconds (((c :: rest).dropWhile isDigit).takeWhile isLetter) with
        | none => .error (.unit (String.ofList (((c :: rest).dropWhile isDigit).takeWhile isLetter)))
        | some seconds =>
          match (fits? (seconds * count)).bind fun secs => fits? (total + sign * secs) with
          | none => .error (.outOfRange offset)
          | some total =>
            addGroups offset sign total (((c :: rest).dropWhile isDigit).dropWhile isLetter) := by
  rw [addGroups]
  split
  · next hamount => exact hamount ▸ rfl
  · next count hamount => exact hamount ▸ rfl

theorem addGroups_append (offset : String) (sign total : Int) (g : OffsetGroup) {rest : List Char}
    (h : ∀ c ∈ rest.head?, Text.isDigit c = true) :
    addGroups offset sign total (g.text ++ rest) =
      match fits? g.count with
      | none => .error (.amount offset)
      | some count =>
        match unitSeconds g.name with
        | none => .error (.unit (String.ofList g.name))
        | some seconds =>
          match (fits? (seconds * count)).bind fun secs => fits? (total + sign * secs) with
          | none => .error (.outOfRange offset)
          | some total => addGroups offset sign total rest := by
  obtain ⟨⟨hdigits, htail⟩, hname, hrest⟩ := g.split_text h
  obtain ⟨c, cs, htext⟩ : ∃ c cs, g.text ++ rest = c :: cs :=
    List.exists_cons_of_ne_nil (by simp [OffsetGroup.text, g.digits_ne_nil])
  rw [htext] at hdigits htail ⊢
  rw [addGroups_cons, hdigits, htail, hname, hrest, g.amount?_digits]

theorem head?_flatMap_text (groups : List OffsetGroup) :
    ∀ c ∈ (groups.flatMap OffsetGroup.text).head?, Text.isDigit c = true := by
  cases groups with
  | nil => simp
  | cons g groups =>
      intro c hc
      obtain ⟨d, digits, hdigits⟩ := List.exists_cons_of_ne_nil g.digits_ne_nil
      rw [List.flatMap_cons, OffsetGroup.text, hdigits] at hc
      obtain rfl : d = c := by simpa using hc
      exact g.isDigit d (hdigits ▸ List.mem_cons_self)

theorem addGroups_eq_ok (offset : String) (htotal : Fits total) (h : Addable sign total groups) :
    addGroups offset sign total (groups.flatMap OffsetGroup.text) = .ok (total + sign * OffsetGroup.sum groups) := by
  induction groups generalizing total with
  | nil => simp [addGroups, OffsetGroup.sum]
  | cons g groups ih =>
      obtain ⟨hknown, hcount, hproduct, hrest⟩ := (addable_cons_iff htotal).mp h
      have hnext : Fits (total + sign * (g.seconds * g.count)) := by
        simpa [OffsetGroup.sum] using hrest.sums [] (by simp)
      rw [List.flatMap_cons, addGroups_append offset sign total g (head?_flatMap_text groups),
        fits?_eq_some hcount, unitSeconds_eq_some_iff.mpr hknown]
      simp only [fits?_eq_some hproduct, Option.bind_some, fits?_eq_some hnext]
      rw [ih hnext hrest, sum_cons, Int.mul_add, Int.add_assoc]

theorem addGroups_eq_error (offset : String) (htotal : Fits total) (h : ¬Addable sign total groups) :
    ∃ e, addGroups offset sign total (groups.flatMap OffsetGroup.text) = .error e := by
  induction groups generalizing total with
  | nil => exact absurd (addable_nil htotal) h
  | cons g groups ih =>
      rw [List.flatMap_cons, addGroups_append offset sign total g (head?_flatMap_text groups)]
      by_cases hcount : Fits g.count
      · rw [fits?_eq_some hcount]
        cases hunit : unitSeconds g.name with
        | none => exact ⟨_, rfl⟩
        | some seconds =>
            obtain rfl : g.seconds = seconds := by rw [OffsetGroup.seconds, hunit, Option.getD_some]
            simp only
            by_cases hproduct : Fits (g.seconds * g.count)
            · rw [fits?_eq_some hproduct, Option.bind_some]
              by_cases hnext : Fits (total + sign * (g.seconds * g.count))
              · rw [fits?_eq_some hnext]
                refine ih hnext fun hrest => h ?_
                exact (addable_cons_iff htotal).mpr ⟨unitSeconds_eq_some_iff.mp hunit, hcount, hproduct, hrest⟩
              · rw [fits?_eq_none hnext]
                exact ⟨_, rfl⟩
            · rw [fits?_eq_none hproduct]
              exact ⟨_, rfl⟩
      · rw [fits?_eq_none hcount]
        exact ⟨_, rfl⟩

end Cadence.Moment
