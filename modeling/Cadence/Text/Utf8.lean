namespace Cadence

abbrev Bytes := List UInt8

end Cadence

namespace Cadence.Text.Utf8

def encode (s : String) : Bytes := s.toList.flatMap String.utf8EncodeChar

-- What stands at the front of some bytes: a character with the rest, a run of bytes that begins
-- no character, or the beginning of one that the end cuts short.
inductive Front where
  | char (c : Char) (rest : Bytes)
  | invalid (length : Nat)
  | incomplete

-- What a first byte says: its share of the character's number, how many bytes follow, and the
-- range of the second, which is narrower where the number would fit fewer bytes or is none.
def lead (first : UInt8) : Option (Nat × Nat × UInt8 × UInt8) :=
  let n := first.toNat
  if n < 0x80 then some (n, 0, 0x80, 0xbf)
  else if n < 0xc2 then none
  else if n < 0xe0 then some (n - 0xc0, 1, 0x80, 0xbf)
  else if n = 0xe0 then some (0, 2, 0xa0, 0xbf)
  else if n = 0xed then some (0xd, 2, 0x80, 0x9f)
  else if n < 0xf0 then some (n - 0xe0, 2, 0x80, 0xbf)
  else if n = 0xf0 then some (0, 3, 0x90, 0xbf)
  else if n < 0xf4 then some (n - 0xf0, 3, 0x80, 0xbf)
  else if n = 0xf4 then some (4, 3, 0x80, 0x8f)
  else none

-- Reads the bytes that follow; each brings six bits.
def follow (count : Nat) (low high : UInt8) (seen number : Nat) (bytes : Bytes) : Front :=
  match count, bytes with
  | 0, rest => .char (Char.ofNat number) rest
  | _ + 1, [] => .incomplete
  | count + 1, b :: rest =>
    if low ≤ b ∧ b ≤ high then
      follow count 0x80 0xbf (seen + 1) (number * 64 + (b.toNat - 0x80)) rest
    else .invalid seen

def front (first : UInt8) (rest : Bytes) : Front :=
  match lead first with
  | none => .invalid 1
  | some (number, count, low, high) => follow count low high 1 number rest

-- Where bytes stop being text. The length is missing when they end inside a character.
structure Fault where
  index : Nat
  length : Option Nat
  deriving DecidableEq

def Fault.message (f : Fault) : String :=
  match f.length with
  | some n => "invalid utf-8 sequence of " ++ toString n ++ " bytes from index " ++ toString f.index
  | none => "incomplete utf-8 byte sequence from index " ++ toString f.index

theorem length_of_follow {count seen number : Nat} {low high : UInt8} {bytes after : Bytes}
    {c : Char} (h : follow count low high seen number bytes = .char c after) :
    after.length ≤ bytes.length := by
  induction count generalizing low high seen number bytes with
  | zero =>
    rw [follow, Front.char.injEq] at h
    exact Nat.le_of_eq (congrArg List.length h.2.symm)
  | succ count ih =>
    cases bytes with
    | nil => simp [follow] at h
    | cons b rest =>
      rw [follow] at h
      split at h
      · exact Nat.le_succ_of_le (ih h)
      · cases h

theorem length_of_front {first : UInt8} {rest after : Bytes} {c : Char}
    (h : front first rest = .char c after) : after.length ≤ rest.length := by
  unfold front at h
  split at h
  · cases h
  · exact length_of_follow h

-- The characters of some bytes, or where they stop being text.
def decodeFrom (index : Nat) (bytes : Bytes) : Except Fault (List Char) :=
  match bytes with
  | [] => .ok []
  | first :: rest =>
    match _h : front first rest with
    | .char c after =>
      match decodeFrom (index + (rest.length + 1 - after.length)) after with
      | .ok cs => .ok (c :: cs)
      | .error f => .error f
    | .invalid n => .error ⟨index, some n⟩
    | .incomplete => .error ⟨index, none⟩
termination_by bytes.length
decreasing_by
  have := length_of_front _h
  simp only [List.length_cons]
  omega

def decode (bytes : Bytes) : Except Fault String := (decodeFrom 0 bytes).map String.ofList

-- The characters of some bytes, with the replacement character for each run that is none.
def repair (bytes : Bytes) : List Char :=
  match bytes with
  | [] => []
  | first :: rest =>
    match _h : front first rest with
    | .char c after => c :: repair after
    | .invalid n => Char.ofNat 0xfffd :: repair (rest.drop (n - 1))
    | .incomplete => [Char.ofNat 0xfffd]
termination_by bytes.length
decreasing_by
  · have := length_of_front _h
    simp only [List.length_cons]
    omega
  · simp only [List.length_drop, List.length_cons]
    omega

end Cadence.Text.Utf8
