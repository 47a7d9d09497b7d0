import Cadence.Proofs.Tier
import Cadence.Transform.Builtin
import Mathlib.Data.List.TakeWhile

namespace Cadence

-- What follows the last parenthesis that opens.
def innermost (cs : List Char) : List Char := (cs.reverse.takeWhile (· ≠ '(')).reverse

def pathChars (cs : List Char) : List Char := (innermost cs).takeWhile fun c => c ≠ ',' ∧ c ≠ ')'

theorem toList_metricPath (name : String) : (metricPath name).toList = pathChars name.toList :=
  String.toList_ofList

variable {xs ys : List Char}

theorem innermost_append_of_not_mem (h : '(' ∉ ys) (xs : List Char) :
    innermost (xs ++ ys) = innermost xs ++ ys := by
  have hall : ∀ c ∈ ys.reverse, decide (c ≠ '(') = true := by
    intro c hc
    exact decide_eq_true fun he => h (he ▸ List.mem_reverse.mp hc)
  rw [innermost, List.reverse_append, List.takeWhile_append_of_pos hall, List.reverse_append,
    List.reverse_reverse]
  rfl

theorem innermost_of_not_mem (h : '(' ∉ ys) : innermost ys = ys := innermost_append_of_not_mem h []

theorem innermost_append_of_mem (h : '(' ∈ ys) (xs : List Char) : innermost (xs ++ ys) = innermost ys := by
  obtain ⟨behind, before, hys, hbehind⟩ := List.eq_append_cons_of_mem (List.mem_reverse.mpr h)
  have hall : ∀ c ∈ behind, decide (c ≠ '(') = true := by
    intro c hc
    exact decide_eq_true fun he => hbehind (he ▸ hc)
  have hcut : ∀ rest, (behind ++ '(' :: rest).takeWhile (· ≠ '(') = behind := by
    intro rest
    rw [List.takeWhile_append_of_pos hall, List.takeWhile_cons_of_neg (by simp), List.append_nil]
  rw [innermost, innermost, List.reverse_append, hys, List.append_assoc, List.cons_append, hcut, hcut]

theorem pathChars_append_of_mem (h : '(' ∈ ys) (xs : List Char) : pathChars (xs ++ ys) = pathChars ys := by
  rw [pathChars, innermost_append_of_mem h, pathChars]

-- What stands in front of an opening parenthesis does not matter.
theorem pathChars_append_open (xs ys : List Char) : pathChars (xs ++ '(' :: ys) = pathChars ys := by
  by_cases h : '(' ∈ ys
  · rw [List.append_cons, pathChars_append_of_mem h]
  · have hopen : innermost (xs ++ ['(']) = [] := by simp [innermost]
    rw [List.append_cons, pathChars, pathChars, innermost_append_of_not_mem h, hopen, innermost_of_not_mem h]
    rfl

-- A comma or a closing parenthesis ends a path.
theorem pathChars_append_stop {c : Char} (hc : c = ',' ∨ c = ')') (h : '(' ∉ c :: ys) (xs : List Char) :
    pathChars (xs ++ c :: ys) = pathChars xs := by
  have hstop : decide (c ≠ ',' ∧ c ≠ ')') = false := by
    rcases hc with rfl | rfl <;> rfl
  rw [pathChars, innermost_append_of_not_mem h, pathChars]
  induction innermost xs with
  | nil => exact List.takeWhile_cons_of_neg (by simp [hstop])
  | cons d ds ih =>
      rw [List.cons_append, List.takeWhile_cons, List.takeWhile_cons, ih]

-- A part that follows a comma counts if a parenthesis opens in it.
theorem pathChars_append_parts (parts : List (List Char)) (xs : List Char) :
    pathChars (xs ++ parts.flatMap (',' :: ·)) = pathChars xs ∨
      ∃ part ∈ parts, '(' ∈ part ∧ pathChars (xs ++ parts.flatMap (',' :: ·)) = pathChars part := by
  induction parts generalizing xs with
  | nil => exact .inl (by simp)
  | cons part parts ih =>
      rw [List.flatMap_cons, ← List.append_assoc]
      rcases ih (xs ++ ',' :: part) with hpath | ⟨other, hother, hopen, hpath⟩
      · rw [hpath]
        by_cases hopen : '(' ∈ part
        · refine .inr ⟨part, List.mem_cons_self, hopen, ?_⟩
          rw [List.append_cons, pathChars_append_of_mem hopen]
        · exact .inl (pathChars_append_stop (.inl rfl) (by simp [hopen]) xs)
      · exact .inr ⟨other, List.mem_cons_of_mem part hother, hopen, hpath⟩

theorem toList_intercalate_cons (part : String) (parts : List String) :
    (",".intercalate (part :: parts)).toList
      = part.toList ++ (parts.map String.toList).flatMap (',' :: ·) := by
  induction parts generalizing part with
  | nil => simp
  | cons next parts ih => simp [ih]

theorem metricPath_callName (function part : String) (parts : List String) :
    metricPath (callName function (part :: parts)) = metricPath part ∨
      ∃ other ∈ parts, '(' ∈ other.toList ∧
        metricPath (callName function (part :: parts)) = metricPath other := by
  have hname : (callName function (part :: parts)).toList
      = function.toList ++ '(' :: (part.toList ++ (parts.map String.toList).flatMap (',' :: ·) ++ [')']) := by
    simp only [callName, String.toList_append, toList_intercalate_cons, List.append_assoc]
    rfl
  have hpath : pathChars (callName function (part :: parts)).toList
      = pathChars (part.toList ++ (parts.map String.toList).flatMap (',' :: ·)) := by
    rw [hname, pathChars_append_open, pathChars_append_stop (.inr rfl) (by simp)]
  have hinj : ∀ other, pathChars (callName function (part :: parts)).toList = pathChars other.toList →
      metricPath (callName function (part :: parts)) = metricPath other := by
    intro other h
    apply String.toList_injective
    rw [toList_metricPath, toList_metricPath, h]
  rcases pathChars_append_parts (parts.map String.toList) part.toList with h | ⟨_, hother, hopen, h⟩
  · exact .inl (hinj part (hpath.trans h))
  · obtain ⟨other, hmem, rfl⟩ := List.mem_map.mp hother
    exact .inr ⟨other, hmem, hopen, hinj other (hpath.trans h)⟩

-- A name in which nothing is called is its own path.
theorem metricPath_of_plain {name : String} (h : ∀ c ∈ name.toList, c ≠ '(' ∧ c ≠ ')' ∧ c ≠ ',') :
    metricPath name = name := by
  apply String.toList_injective
  have hopen : '(' ∉ name.toList := fun hm => (h _ hm).1 rfl
  rw [toList_metricPath, pathChars, innermost_of_not_mem hopen, List.takeWhile_eq_self_iff]
  intro c hc
  obtain ⟨-, hclose, hcomma⟩ := h c hc
  exact decide_eq_true ⟨hcomma, hclose⟩

namespace Decimal

theorem open_not_mem_toString (n : Nat) : '(' ∉ (toString n).toList := by
  intro hm
  have hnumeral : Tier.isNumeral '(' := Tier.isNumeral_of_mem_toString (i := n) hm
  cases hnumeral

theorem open_not_mem_zeros (n : Nat) : '(' ∉ (zeros n).toList := by
  simp [zeros]

theorem open_not_mem_positionally {style : Style} {digits : String} (h : '(' ∉ digits.toList) (place : Int) :
    '(' ∉ (positionally style digits place).toList := by
  have htake := fun n => mt (List.mem_of_mem_take (i := n)) h
  have hdrop := fun n => mt (List.mem_of_mem_drop (i := n)) h
  unfold positionally
  dsimp only
  split
  · simp [h, open_not_mem_zeros]
  · split
    · cases style.pointed <;> simp [h, open_not_mem_zeros]
    · simp [htake, hdrop]

end Decimal

open Decimal in
-- Factors are written without parentheses.
theorem open_not_mem_write (x : Float) : '(' ∉ (factorStyle.write x).toList := by
  have hmagnitude : ∀ mantissa exponent, '(' ∉ (factorStyle.writeMagnitude mantissa exponent).toList := by
    intro mantissa exponent
    unfold Style.writeMagnitude
    split
    · decide
    · exact open_not_mem_positionally (open_not_mem_toString _) _
  unfold Style.write
  split
  · decide
  · split <;> decide
  · split <;> simp [hmagnitude]

-- A series that is labelled by its name, in which nothing is called.
structure Series.Plain {α : Type} (s : Series α) : Prop where
  label : s.label = s.name
  name : ∀ c ∈ s.name.toList, c ≠ '(' ∧ c ≠ ')' ∧ c ≠ ','

-- Series that are labelled by their names, in each of which the metric is one of some leaves.
structure Named (leaf : Series Float → Prop) (series : List (Series Float)) : Prop where
  nonempty : (∃ l, leaf l) → series ≠ []
  label : ∀ s ∈ series, s.label = s.name
  path : ∀ s ∈ series, ∃ l, leaf l ∧ metricPath s.name = l.name

namespace Named

variable {leaf leaf' : Series Float → Prop} {s : Series Float} {series series' : List (Series Float)}

theorem congr (h : Named leaf series) (hsame : ∀ l, leaf l ↔ leaf' l) : Named leaf' series := by
  obtain rfl : leaf = leaf' := funext fun l => propext (hsame l)
  exact h

theorem of_plain (hleaf : ∀ s, leaf s ↔ s ∈ series) (hplain : ∀ s, leaf s → s.Plain) : Named leaf series where
  nonempty := fun ⟨s, hs⟩ => List.ne_nil_of_mem ((hleaf s).mp hs)
  label := fun s hs => (hplain s ((hleaf s).mpr hs)).label
  path := fun s hs => ⟨s, (hleaf s).mpr hs, metricPath_of_plain (hplain s ((hleaf s).mpr hs)).name⟩

theorem nil : Named (fun _ => False) [] :=
  ⟨fun ⟨_, h⟩ => h.elim, fun _ hs => absurd hs List.not_mem_nil, fun _ hs => absurd hs List.not_mem_nil⟩

theorem append (h : Named leaf series) (h' : Named leaf' series') :
    Named (fun l => leaf l ∨ leaf' l) (series ++ series') where
  nonempty := by
    rintro ⟨l, hl | hl⟩
    · exact List.append_ne_nil_of_left_ne_nil (h.nonempty ⟨l, hl⟩) series'
    · exact List.append_ne_nil_of_right_ne_nil series (h'.nonempty ⟨l, hl⟩)
  label := by
    intro s hs
    rcases List.mem_append.mp hs with hs | hs
    · exact h.label s hs
    · exact h'.label s hs
  path := by
    intro s hs
    rcases List.mem_append.mp hs with hs | hs
    · obtain ⟨l, hl, hpath⟩ := h.path s hs
      exact ⟨l, .inl hl, hpath⟩
    · obtain ⟨l, hl, hpath⟩ := h'.path s hs
      exact ⟨l, .inr hl, hpath⟩

-- A factor is never taken for a metric.
theorem map_mapSeries (h : Named leaf series) (function : String) (op : Float → Float → Float) (factor : Float) :
    Named leaf (series.map (Builtin.mapSeries function op factor)) where
  nonempty := fun hl => mt List.map_eq_nil_iff.mp (h.nonempty hl)
  label := by
    intro r hr
    obtain ⟨s, -, rfl⟩ := List.mem_map.mp hr
    rfl
  path := by
    intro r hr
    obtain ⟨s, hs, rfl⟩ := List.mem_map.mp hr
    obtain ⟨l, hl, hpath⟩ := h.path s hs
    refine ⟨l, hl, ?_⟩
    rcases metricPath_callName function s.label [factorStyle.write factor] with hname | ⟨other, hother, hopen, -⟩
    · rw [← hpath, ← h.label s hs]
      exact hname
    · rw [List.mem_singleton.mp hother] at hopen
      exact absurd hopen (open_not_mem_write factor)

-- Whichever of the series gives a combined one its metric, that is the metric of a leaf.
theorem aggregate (h : Named leaf (s :: series)) (a : Aggregation) (function : String) :
    Named leaf [aggregate a (callName function ((s :: series).map (·.label))) (s :: series)] where
  nonempty := fun _ => List.cons_ne_nil _ _
  label := by
    intro r hr
    rw [List.mem_singleton.mp hr]
    rfl
  path := by
    intro r hr
    have hpart : ∃ t ∈ s :: series, metricPath r.name = metricPath t.label := by
      rw [List.mem_singleton.mp hr]
      rcases metricPath_callName function s.label (series.map (·.label)) with hname | ⟨_, hother, -, hname⟩
      · exact ⟨s, List.mem_cons_self, hname⟩
      · obtain ⟨t, ht, rfl⟩ := List.mem_map.mp hother
        exact ⟨t, List.mem_cons_of_mem s ht, hname⟩
    obtain ⟨t, ht, hname⟩ := hpart
    obtain ⟨l, hl, hpath⟩ := h.path t ht
    exact ⟨l, hl, by rw [hname, h.label t ht, hpath]⟩

end Named

end Cadence
