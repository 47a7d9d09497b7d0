import Cadence.Proofs.Moment.Words
import Cadence.Service

namespace Cadence.Moment

open Text

-- What is left of a moment when the characters that do not matter are dropped.
def matters (c : Char) : Bool := c ≠ '_' ∧ c ≠ ',' ∧ c ≠ ' '

-- Whether a text is another one in some letter case, with characters in it that do not matter.
def Spells (s : String) (text : List Char) : Prop :=
  (s.toList.filter matters).map Char.toLower = text.map Char.toLower

theorem matters_toLower (c : Char) : matters c.toLower = matters c := by
  simp only [matters, ne_eq, toLower_eq_iff (show '_'.toNat < 65 ∨ 90 < '_'.toNat ∧ '_'.toNat < 97 ∨ _ by decide),
    toLower_eq_iff (show ','.toNat < 65 ∨ _ by decide), toLower_eq_iff (show ' '.toNat < 65 ∨ _ by decide)]

theorem filter_map_toLower (cs : List Char) :
    (cs.map Char.toLower).filter matters = (cs.filter matters).map Char.toLower := by
  rw [List.filter_map, show matters ∘ Char.toLower = matters from funext matters_toLower]

theorem normalize_of_spells {s : String} {text : List Char} (h : Spells s text)
    (htext : ∀ c ∈ text, 32 < c.toNat ∧ c.toNat < 0x80) : normalize s = text.map Char.toLower := by
  have hascii : ∀ c ∈ s.toList, matters c = true → 32 < c.toNat ∧ c.toNat < 0x80 := by
    intro c hc hmatters
    have hm : c.toLower ∈ (s.toList.filter matters).map Char.toLower :=
      List.mem_map_of_mem (List.mem_filter.mpr ⟨hc, hmatters⟩)
    rw [h] at hm
    obtain ⟨d, hd, heq⟩ := List.mem_map.mp hm
    have hsame := congrArg Char.toNat heq
    have hbounds := htext d hd
    rw [toNat_toLower, toNat_toLower] at hsame
    split at hsame <;> split at hsame <;> omega
  have hblank : ∀ c ∈ s.toList, isBlank c = true → matters c = false := by
    intro c hc hblank
    refine Bool.eq_false_iff.mpr fun hmatters => ?_
    obtain ⟨hlow, hhigh⟩ := hascii c hc hmatters
    rw [isBlank_eq_false hlow hhigh] at hblank
    cases hblank
  have hstrip : ∀ c ∈ (strip s).toList, c.toNat < 0x80 := by
    intro c hc
    cases hmatters : matters c with
    | true => exact (hascii c (mem_of_mem_strip hc) hmatters).2
    | false =>
        have hsome : c = '_' ∨ c = ',' ∨ c = ' ' := by
          simpa [matters, ← or_iff_not_imp_left] using hmatters
        rcases hsome with rfl | rfl | rfl <;> decide
  have hlower : (lower (strip s)).toList = (strip s).toList.map Char.toLower := by
    rw [lower, String.toList_ofList, lowerFrom_eq_map [] hstrip]
  have hnormal : normalize s = (lower (strip s)).toList.filter matters := rfl
  rw [hnormal, hlower, filter_map_toLower, filter_strip hblank]
  exact h

-- A moment relative to now: the word for now, if it is written, a sign, and groups.
structure Relative where
  named : Bool
  negative : Bool
  groups : List OffsetGroup
  groups_ne_nil : groups ≠ []

namespace Relative

variable (r : Relative)

def reference : List Char := if r.named then "now".toList else []

def mark : Char := if r.negative then '-' else '+'

def chars : List Char := r.reference ++ r.mark :: r.groups.flatMap OffsetGroup.chars

def sign : Int := if r.negative then -1 else 1

def offset : Int := r.sign * OffsetGroup.sum r.groups

-- Everything on the way to the moment fits a timestamp.
structure Exact (now : Timestamp) : Prop where
  addable : Addable r.sign 0 r.groups
  fits : Fits (now.toInt + r.offset)

def text : List Char := r.reference ++ r.mark :: r.groups.flatMap OffsetGroup.text

theorem map_toLower_chars : r.chars.map Char.toLower = r.text := by
  have hreference : r.reference.map Char.toLower = r.reference := by
    unfold reference
    split <;> rfl
  have hmark : r.mark.toLower = r.mark := by
    unfold mark
    split <;> rfl
  have hgroups : (r.groups.flatMap OffsetGroup.chars).map Char.toLower = r.groups.flatMap OffsetGroup.text := by
    rw [List.map_flatMap]
    exact List.flatMap_congr fun g _ => g.map_toLower_chars
  rw [chars, text, List.map_append, List.map_cons, hreference, hmark, hgroups]

theorem chars_ascii : ∀ c ∈ r.chars, 32 < c.toNat ∧ c.toNat < 0x80 := by
  intro c hc
  rw [chars, List.mem_append, List.mem_cons, List.mem_flatMap] at hc
  rcases hc with hc | rfl | ⟨g, -, hc⟩
  · unfold reference at hc
    split at hc
    · have hnow : c ∈ ['n', 'o', 'w'] := hc
      simp only [List.mem_cons, List.not_mem_nil, or_false] at hnow
      rcases hnow with rfl | rfl | rfl <;> decide
    · cases hc
  · unfold mark
    split <;> decide
  · rcases List.mem_append.mp hc with hc | hc
    · have := toNat_of_isDigit (g.isDigit c hc)
      omega
    · have := isLetter_iff.mp (g.isLetter c hc)
      omega

theorem normalize_eq {s : String} (h : Spells s r.chars) : normalize s = r.text := by
  rw [normalize_of_spells h r.chars_ascii, map_toLower_chars]

theorem mem_text {c : Char} (h : c ∈ r.text) :
    c = '+' ∨ c = '-' ∨ isDigit c = true ∨ 97 ≤ c.toNat ∧ c.toNat ≤ 122 := by
  rw [text, List.mem_append, List.mem_cons, List.mem_flatMap] at h
  rcases h with h | rfl | ⟨g, -, h⟩
  · unfold reference at h
    split at h
    · have hnow : c ∈ ['n', 'o', 'w'] := h
      simp only [List.mem_cons, List.not_mem_nil, or_false] at hnow
      rcases hnow with rfl | rfl | rfl <;> exact .inr (.inr (.inr (by decide)))
    · cases h
  · unfold mark
    split <;> simp
  · rcases List.mem_append.mp h with h | h
    · exact .inr (.inr (.inl (g.isDigit c h)))
    · exact .inr (.inr (.inr (g.toNat_of_isLetter_name h)))

theorem exists_letter : ∃ c ∈ r.text, 97 ≤ c.toNat := by
  obtain ⟨g, groups, hgroups⟩ := List.exists_cons_of_ne_nil r.groups_ne_nil
  obtain ⟨c, hc⟩ := List.exists_mem_of_ne_nil _ g.name_ne_nil
  refine ⟨c, ?_, (g.toNat_of_isLetter_name hc).1⟩
  rw [text, hgroups, List.flatMap_cons, OffsetGroup.text]
  simp [hc]

theorem natural?_eq_none {cs : List Char} (h : ∃ c ∈ cs, 97 ≤ c.toNat) : natural? cs = none := by
  obtain ⟨c, hc, hletter⟩ := h
  have hall : cs.all isDigit = false := by
    rw [List.all_eq_false]
    refine ⟨c, hc, fun hdigit => ?_⟩
    have := toNat_of_isDigit hdigit
    omega
  rw [natural?, if_pos (.inr (by rw [hall]; rfl))]

theorem integer?_eq_none {cs : List Char} (h : ∃ c ∈ cs, 97 ≤ c.toNat) : integer? cs = none := by
  have htail : ∀ sign digits, cs = sign :: digits → sign.toNat < 97 → ∃ c ∈ digits, 97 ≤ c.toNat := by
    rintro sign digits rfl hsign
    obtain ⟨c, hc, hletter⟩ := h
    rcases List.mem_cons.mp hc with rfl | hc
    · omega
    · exact ⟨c, hc, hletter⟩
  unfold integer?
  split
  · rw [natural?_eq_none (htail '-' _ rfl (by decide))]
    rfl
  · rw [natural?_eq_none (htail '+' _ rfl (by decide))]
    rfl
  · rw [natural?_eq_none h]
    rfl

theorem takeWhile_text : (r.text.takeWhile fun c => c ≠ '+' ∧ c ≠ '-') = r.reference := by
  have hreference : ∀ c ∈ r.reference, decide (c ≠ '+' ∧ c ≠ '-') = true := by
    unfold reference
    split
    · simp
    · simp
  rw [text, List.takeWhile_append_of_pos hreference]
  unfold mark
  split <;> simp

theorem parse_eq {s : String} (h : Spells s r.chars) (now : Timestamp) :
    parse s now =
      match addGroups (String.ofList (r.mark :: r.groups.flatMap OffsetGroup.text)) r.sign 0
        (r.groups.flatMap OffsetGroup.text) with
      | .error e => .error e
      | .ok seconds =>
        match Timestamp.ofInt? (now.toInt + seconds) with
        | some t => .ok t
        | none => .error (.outOfRange (String.ofList r.text)) := by
  have hepoch : epoch? r.text = none := by
    rw [epoch?, integer?_eq_none r.exists_letter]
    rfl
  have hcolon : ':' ∉ r.text := fun hm => absurd (r.mem_text hm) (by decide)
  have hreference : ¬(r.reference ≠ [] ∧ r.reference ≠ "now".toList) := by
    unfold reference
    split <;> simp
  have hdrop : r.text.drop r.reference.length = r.mark :: r.groups.flatMap OffsetGroup.text := by
    rw [text, List.drop_left]
  have hsign : (if r.mark = '-' then -1 else 1 : Int) = r.sign := by
    unfold mark sign
    split <;> rfl
  have hparse := parse.eq_1 s now
  simp only [r.normalize_eq h, hepoch, hcolon, false_and, if_false, r.takeWhile_text, if_neg hreference, hdrop,
    offsetSeconds, hsign] at hparse
  exact hparse

theorem parse_eq_ok {s : String} (h : Spells s r.chars) {now : Timestamp} (hexact : r.Exact now) :
    ∃ t, parse s now = .ok t ∧ t.toInt = now.toInt + r.offset := by
  have hzero : Fits 0 := by decide
  rw [r.parse_eq h, addGroups_eq_ok _ hzero hexact.addable, Int.zero_add]
  have hsome : Timestamp.ofInt? (now.toInt + r.sign * OffsetGroup.sum r.groups) = some _ := if_pos hexact.fits
  exact ⟨_, by simp only [hsome], (Timestamp.ofInt?_eq_some_iff _ _).mp hsome⟩

theorem parse_eq_error {s : String} (h : Spells s r.chars) {now : Timestamp} (hexact : ¬r.Exact now) :
    ∃ e, parse s now = .error e := by
  have hzero : Fits 0 := by decide
  rw [r.parse_eq h]
  by_cases haddable : Addable r.sign 0 r.groups
  · rw [addGroups_eq_ok _ hzero haddable, Int.zero_add]
    have hnone : Timestamp.ofInt? (now.toInt + r.sign * OffsetGroup.sum r.groups) = none :=
      if_neg fun hfits => hexact ⟨haddable, hfits⟩
    exact ⟨.outOfRange (String.ofList r.text), by simp only [hnone]⟩
  · obtain ⟨e, he⟩ := addGroups_eq_error (String.ofList (r.mark :: r.groups.flatMap OffsetGroup.text)) hzero haddable
    exact ⟨e, by rw [he]⟩

end Relative

-- A moment relative to now is the sum in whole numbers, where everything on the way to it fits a timestamp;
-- where something does not, it is refused as an argument. Any text at all is a moment or is refused so, and
-- nothing that is computed without a check leaves 64 bits.
theorem moment_relative :
    (∀ (r : Relative) (s : String) (now : Timestamp), Spells s r.chars →
      (r.Exact now → ∃ t, Service.moment s now = .ok t ∧ t.toInt = now.toInt + r.offset) ∧
        (¬r.Exact now → ∃ message, Service.moment s now = .error (.argument message))) ∧
      ∀ (s : String) (now : Timestamp),
        ((∃ t, Service.moment s now = .ok t) ∨
          ∃ message, Service.moment s now = .error (.argument message)) ∧
        parseInWords s now = some (parse s now) := by
  refine ⟨fun r s now h => ⟨fun hexact => ?_, fun hexact => ?_⟩, fun s now => ⟨?_, parseInWords_eq s now⟩⟩
  · obtain ⟨t, hparse, ht⟩ := r.parse_eq_ok h hexact
    exact ⟨t, by rw [Service.moment, hparse]; rfl, ht⟩
  · obtain ⟨e, hparse⟩ := r.parse_eq_error h hexact
    exact ⟨e.message, by rw [Service.moment, hparse]; rfl⟩
  · rw [Service.moment]
    cases parse s now with
    | ok t => exact .inl ⟨t, rfl⟩
    | error e => exact .inr ⟨e.message, rfl⟩

def dayAndTwoHoursAgo : Relative where
  named := true
  negative := true
  groups := [⟨['1'], ['D'], by simp, by simp, List.all_eq_true.mp rfl, List.all_eq_true.mp rfl⟩,
    ⟨['0', '2'], ['h'], by simp, by simp, List.all_eq_true.mp rfl, List.all_eq_true.mp rfl⟩]
  groups_ne_nil := by simp

theorem moment_day_and_two_hours_ago :
    Spells "Now - 1D, 0_2H" dayAndTwoHoursAgo.chars ∧ dayAndTwoHoursAgo.Exact 1444508126 ∧
      ∃ t, Service.moment "Now - 1D, 0_2H" 1444508126 = .ok t ∧ t.toInt = 1444508126 - 86400 - 7200 := by
  have hspells : Spells "Now - 1D, 0_2H" dayAndTwoHoursAgo.chars := by
    unfold Spells
    decide
  have hfits : Fits 0 ∧ Fits (-86400) := by decide
  have hexact : dayAndTwoHoursAgo.Exact 1444508126 := by
    refine ⟨(addable_cons_iff hfits.1).mpr ⟨.day ⟨[], rfl⟩, by decide, by decide, ?_⟩, by decide⟩
    refine (addable_cons_iff hfits.2).mpr ⟨.hour ⟨[], rfl⟩, by decide, by decide, addable_nil (by decide)⟩
  refine ⟨hspells, hexact, ?_⟩
  obtain ⟨t, ht, heq⟩ := (moment_relative.1 dayAndTwoHoursAgo _ 1444508126 hspells).1 hexact
  exact ⟨t, ht, heq⟩

end Cadence.Moment
