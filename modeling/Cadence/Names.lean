import Cadence.Text.Split

namespace Cadence.Names

open Text

-- How deep a scan is inside braces after a character; a brace that closes nothing is ignored.
def depthAfter (depth : Nat) (c : Char) : Nat :=
  if c = '\x7b' then depth + 1 else if c = '\x7d' then depth - 1 else depth

-- The parts between the commas that are outside all braces.
def topLevel (depth : Nat) : List Char → List (List Char)
  | [] => [[]]
  | c :: cs =>
    if c = ',' ∧ depth = 0 then [] :: topLevel 0 cs
    else consHead c (topLevel (depthAfter depth c) cs)

-- Replaces each group by one of its alternatives, in all ways; the last group varies fastest.
-- A group ends at the first closing brace, and one that has none is kept as it stands.
def alternatives (cs : List Char) : List (List Char) :=
  match _hopen : cutAt? '\x7b' cs with
  | none => [cs]
  | some (before, rest) =>
    match _hclose : cutAt? '\x7d' rest with
    | none => [cs]
    | some (inside, after) =>
      let endings := alternatives after
      (splitOn ',' inside).flatMap fun choice => endings.map fun ending => before ++ choice ++ ending
termination_by cs.length
decreasing_by
  have := length_lt_of_cutAt? _hopen
  have := length_lt_of_cutAt? _hclose
  omega

-- The names of a pattern as characters. Empty ones are dropped.
def expandChars (pattern : List Char) : List (List Char) :=
  ((topLevel 0 pattern).flatMap alternatives).filter (· ≠ [])

def expand (pattern : String) : List String :=
  (expandChars pattern.toList).map String.ofList

-- Consecutive runs of at most so many elements; a limit of nothing counts as one.
def batches (limit : Nat) (names : List α) : List (List α) :=
  match names with
  | [] => []
  | name :: rest =>
    ((name :: rest).take (max limit 1)) :: batches limit ((name :: rest).drop (max limit 1))
termination_by names.length
decreasing_by
  simp only [List.length_drop, List.length_cons]
  omega

end Cadence.Names
