import Cadence.Proofs.LastWins
import Cadence.Proofs.Sample.Encoding

namespace Cadence.Sample

def lastAt (t : Timestamp) (xs : List Sample) : Option UInt64 := lastUnder time bits t xs

theorem lastAt_append (t : Timestamp) (xs ys : List Sample) :
    lastAt t (xs ++ ys) = (lastAt t ys).or (lastAt t xs) :=
  lastUnder_append time bits t xs ys

theorem getElem?_addAll (set : Set) (xs : List Sample) (t : Timestamp) :
    (addAll set xs)[t]? = (lastAt t xs).or set[t]? :=
  getElem?_foldl_insert time bits xs set t

theorem lastAt_ofSet (set : Set) (t : Timestamp) : lastAt t (ofSet set) = set[t]? := by
  rw [← lastUnder_toList set t, ofSet, lastAt, lastUnder, lastSome_map]
  rfl

theorem pairwise_ofSet (set : Set) : (ofSet set).Pairwise (·.time ≠ ·.time) := by
  rw [ofSet, List.pairwise_map]
  exact pairwise_fst_toList set

theorem pairwise_union (stored added : List Sample) :
    (union stored added).Pairwise (·.time ≠ ·.time) :=
  pairwise_ofSet _

theorem lastAt_union (t : Timestamp) (stored added : List Sample) :
    lastAt t (union stored added) = (lastAt t added).or (lastAt t stored) := by
  simp [union, lastAt_ofSet, getElem?_addAll]

-- A union is determined by the last samples of the two sides.
theorem union_congr {xs ys vs ws : List Sample}
    (h : ∀ t, (lastAt t ys).or (lastAt t xs) = (lastAt t ws).or (lastAt t vs)) :
    union xs ys = union vs ws := by
  have hset : addAll (addAll ∅ xs) ys = addAll (addAll ∅ vs) ws := by
    apply Std.ExtTreeMap.ext_getElem?
    intro t
    simpa [getElem?_addAll] using h t
  rw [union, union, hset]

theorem union_assoc (xs ys zs : List Sample) :
    union (union xs ys) zs = union xs (union ys zs) := by
  apply union_congr
  intro t
  rw [lastAt_union, lastAt_union, Option.or_assoc]

theorem union_nil_right (xs ys : List Sample) : union xs (union [] ys) = union xs ys := by
  apply union_congr
  intro t
  have hnil : lastAt t [] = none := rfl
  rw [lastAt_union, hnil, Option.or_none]

theorem union_nil_nil : union [] [] = [] := by simp [union, addAll, ofSet]

theorem mem_union_nil (xs : List Sample) (s : Sample) :
    s ∈ union [] xs ↔ lastAt s.time xs = some s.bits := by
  have hlast : lastAt s.time (union [] xs) = lastAt s.time xs := by
    have hnil : lastAt s.time [] = none := rfl
    rw [lastAt_union, hnil, Option.or_none]
  rw [← hlast, lastAt, lastUnder_eq_some_iff (pairwise_union [] xs)]
  constructor
  · exact fun hs => ⟨s, hs, rfl, rfl⟩
  · rintro ⟨⟨_, _⟩, hs, rfl, rfl⟩
    exact hs

-- The samples that the rule finds in a stored value.
def readable (stored : Option Bytes) : List Sample :=
  match decode (stored.getD []) with
  | .error _ => []
  | .ok samples => samples

theorem readable_encode (samples : List Sample) : readable (some (encode samples)) = samples := by
  simp [readable, decode_encode]

theorem mergeRule_error {added : Bytes} {e : LengthError} (h : decode added = .error e)
    (stored : Option Bytes) : mergeRule stored added = stored.getD [] := by
  simp [mergeRule, h]

theorem mergeRule_ok {added : Bytes} {samples : List Sample} (h : decode added = .ok samples)
    (stored : Option Bytes) : mergeRule stored added = encode (union (readable stored) samples) := by
  simp only [mergeRule, h, readable]
  cases decode (stored.getD []) <;> rfl

theorem mergeRule_encode (stored : Option Bytes) (samples : List Sample) :
    mergeRule stored (encode samples) = encode (union (readable stored) samples) :=
  mergeRule_ok (decode_encode samples) stored

theorem mergeRule_assoc (stored : Option Bytes) (x y : Bytes) :
    mergeRule (some (mergeRule stored x)) y = mergeRule stored (mergeRule (some x) y) := by
  cases hy : decode y with
  | error e => rw [mergeRule_error hy, mergeRule_error hy, Option.getD_some, Option.getD_some]
  | ok ys =>
      rw [mergeRule_ok hy, mergeRule_ok hy, mergeRule_encode]
      congr 1
      cases hx : decode x with
      | error e =>
          -- the first operand is lost on both sides, with or without a stored value
          have hlost : readable (some x) = [] := by simp [readable, hx]
          rw [mergeRule_error hx, hlost, union_nil_right]
          rfl
      | ok xs =>
          have hkept : readable (some x) = xs := by simp [readable, hx]
          rw [mergeRule_ok hx, readable_encode, hkept, union_assoc]

-- A merge that is made once more changes nothing.
theorem mergeRule_self (stored : Option Bytes) (x : Bytes) :
    mergeRule (some (mergeRule stored x)) x = mergeRule stored x := by
  cases hx : decode x with
  | error e => rw [mergeRule_error hx, mergeRule_error hx, Option.getD_some]
  | ok xs =>
      rw [mergeRule_ok hx, mergeRule_ok hx, readable_encode]
      congr 1
      apply union_congr
      intro t
      rw [lastAt_union, ← Option.or_assoc, Option.or_self]

-- A way to bring operands together, one after the other, before they meet a stored value.
inductive Grouping where
  | one (operand : Bytes)
  | both (first second : Grouping)

namespace Grouping

def operands : Grouping → List Bytes
  | one operand => [operand]
  | both first second => first.operands ++ second.operands

def merged : Grouping → Bytes
  | one operand => operand
  | both first second => mergeRule (some first.merged) second.merged

end Grouping

-- Merges operands into a stored value one after the other.
def mergeEach (stored : Option Bytes) (operands : List Bytes) : Option Bytes :=
  operands.foldl (fun stored operand => some (mergeRule stored operand)) stored

theorem mergeEach_append (stored : Option Bytes) (xs ys : List Bytes) :
    mergeEach stored (xs ++ ys) = mergeEach (mergeEach stored xs) ys :=
  List.foldl_append

theorem mergeEach_operands (g : Grouping) (stored : Option Bytes) :
    mergeEach stored g.operands = some (mergeRule stored g.merged) := by
  induction g generalizing stored with
  | one operand => rfl
  | both first second ihf ihs =>
      rw [Grouping.operands, mergeEach_append, ihf, ihs, Grouping.merged, mergeRule_assoc]

-- Operands that are first brought together in groups, each group in any way, leave the same bytes
-- as operands merged one after the other.
theorem mergeEach_groupings (stored : Option Bytes) :
    (∀ groups : List Grouping,
      mergeEach stored (groups.map Grouping.merged)
        = mergeEach stored (groups.flatMap Grouping.operands)) ∧
    (∀ x y : Bytes,
      mergeRule (some (mergeRule stored x)) y = mergeRule stored (mergeRule (some x) y)) := by
  refine ⟨?_, mergeRule_assoc stored⟩
  intro groups
  induction groups generalizing stored with
  | nil => rfl
  | cons g rest ih =>
      rw [List.map_cons, List.flatMap_cons, mergeEach_append, mergeEach_operands]
      exact ih (some (mergeRule stored g.merged))

end Cadence.Sample
