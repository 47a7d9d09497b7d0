import Cadence.Text.Case
import Cadence.Text.Numeral

namespace Cadence.Text

theorem isBlank_eq_false {c : Char} (hlow : 32 < c.toNat) (hhigh : c.toNat < 0x80) :
    isBlank c = false := by
  simp [isBlank, isIn, blanks]
  omega

theorem toNat_of_isDigit {c : Char} (h : isDigit c = true) : 48 ≤ c.toNat ∧ c.toNat ≤ 57 := by
  simp only [isDigit, Bool.and_eq_true, decide_eq_true_eq] at h
  exact h

theorem toNat_toLower (c : Char) :
    c.toLower.toNat = if 65 ≤ c.toNat ∧ c.toNat ≤ 90 then c.toNat + 32 else c.toNat := by
  have hrange : (c.val ≥ 'A'.val ∧ c.val ≤ 'Z'.val) ↔ 65 ≤ c.toNat ∧ c.toNat ≤ 90 := by
    simp only [ge_iff_le, UInt32.le_iff_toNat_le]
    rfl
  unfold Char.toLower
  by_cases h : 65 ≤ c.toNat ∧ c.toNat ≤ 90
  · rw [dif_pos (hrange.mpr h), if_pos h]
    show (c.val + ('a'.val - 'A'.val)).toNat = c.val.toNat + 32
    rw [UInt32.toNat_add]
    have : c.val.toNat ≤ 90 := h.2
    show (c.val.toNat + 32) % 4294967296 = _
    omega
  · rw [dif_neg (fun hc => h (hrange.mp hc)), if_neg h]

-- A small letter comes from a letter only.
theorem toLower_eq_iff {c d : Char} (h : d.toNat < 65 ∨ 90 < d.toNat ∧ d.toNat < 97 ∨ 122 < d.toNat) :
    c.toLower = d ↔ c = d := by
  rw [← Char.toNat_inj, ← Char.toNat_inj, toNat_toLower]
  split <;> omega

theorem lowerFrom_eq_map (before : List Char) {cs : List Char} (h : ∀ c ∈ cs, c.toNat < 0x80) :
    lowerFrom before cs = cs.map Char.toLower := by
  induction cs generalizing before with
  | nil => rfl
  | cons c cs ih =>
      rw [List.forall_mem_cons] at h
      have hne : ∀ d : Char, 0x80 ≤ d.toNat → c ≠ d := by
        rintro d hd rfl
        omega
      have hval : c.val < 0x80 := h.1
      rw [lowerFrom, if_neg (hne 'Σ' (by decide)), if_neg (hne 'İ' (by decide)), smallLetter, if_pos hval,
        ih (c :: before) h.2]
      rfl

theorem filter_dropBlanks {p : Char → Bool} {cs : List Char} (h : ∀ c ∈ cs, isBlank c = true → p c = false) :
    (dropBlanks cs).filter p = cs.filter p := by
  have hblanks : (cs.takeWhile isBlank).filter p = [] := by
    rw [List.filter_eq_nil_iff]
    intro c hc
    rw [h c ((List.takeWhile_sublist _).subset hc) (List.all_eq_true.mp List.all_takeWhile c hc)]
    simp
  have hparts := congrArg (List.filter p) (List.takeWhile_append_dropWhile (p := isBlank) (l := cs))
  rwa [List.filter_append, hblanks, List.nil_append] at hparts

-- The blanks at the ends of a text are nothing to a filter that drops blanks.
theorem filter_strip {s : String} {p : Char → Bool} (h : ∀ c ∈ s.toList, isBlank c = true → p c = false) :
    (strip s).toList.filter p = s.toList.filter p := by
  have hdropped : ∀ c ∈ (dropBlanks s.toList).reverse, isBlank c = true → p c = false := by
    intro c hc
    exact h c ((List.dropWhile_sublist _).subset (List.mem_reverse.mp hc))
  rw [strip, String.toList_ofList, List.filter_reverse, filter_dropBlanks hdropped, List.filter_reverse,
    List.reverse_reverse, filter_dropBlanks h]

theorem mem_of_mem_strip {s : String} {c : Char} (h : c ∈ (strip s).toList) : c ∈ s.toList := by
  rw [strip, String.toList_ofList, List.mem_reverse] at h
  have hdropped := List.mem_reverse.mp ((List.dropWhile_sublist _).subset h)
  exact (List.dropWhile_sublist _).subset hdropped

end Cadence.Text
