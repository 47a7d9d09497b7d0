namespace Cadence.Text

def isDigit (c : Char) : Bool := '0' ≤ c && c ≤ '9'

def digitsValue (digits : List Char) : Nat :=
  digits.foldl (fun n c => n * 10 + (c.toNat - '0'.toNat)) 0

def hexValue? (c : Char) : Option Nat :=
  if '0' ≤ c ∧ c ≤ '9' then some (c.toNat - '0'.toNat)
  else if 'a' ≤ c ∧ c ≤ 'f' then some (c.toNat - 'a'.toNat + 10)
  else if 'A' ≤ c ∧ c ≤ 'F' then some (c.toNat - 'A'.toNat + 10)
  else none

-- A number of at least one digit and nothing else.
def natural? (cs : List Char) : Option Nat :=
  if cs = [] ∨ !cs.all isDigit then none else some (digitsValue cs)

-- A number that may have a sign in front.
def integer? : List Char → Option Int
  | '-' :: digits => (natural? digits).map fun n => -(n : Int)
  | '+' :: digits => (natural? digits).map fun n => (n : Int)
  | digits => (natural? digits).map fun n => (n : Int)

theorem ne_nil_of_natural? {cs : List Char} {n : Nat} (h : natural? cs = some n) : cs ≠ [] := by
  rintro rfl
  simp [natural?] at h

end Cadence.Text
