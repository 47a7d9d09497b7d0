import Cadence.Database
import Cadence.Timestamp

namespace Cadence

structure Sample where
  time : Timestamp
  bits : UInt64
  deriving DecidableEq

namespace Sample

def width : Nat := 16

def wordBytes (w : UInt64) : Bytes :=
  [7, 6, 5, 4, 3, 2, 1, 0].map fun place => UInt8.ofNat (w.toNat / Nat.pow 256 place)

def bytesWord (bytes : Bytes) : UInt64 :=
  UInt64.ofNat (bytes.foldl (fun n b => n * 256 + b.toNat) 0)

def bytes (s : Sample) : Bytes := wordBytes s.time.toUInt64 ++ wordBytes s.bits

def encode (samples : List Sample) : Bytes := samples.flatMap bytes

-- Reads samples as far as whole ones are left.
def decodeWhole (bytes : Bytes) : List Sample :=
  if _h : bytes.length < width then []
  else
    ⟨(bytesWord (bytes.take 8)).toInt64, bytesWord ((bytes.drop 8).take 8)⟩
      :: decodeWhole (bytes.drop width)
termination_by bytes.length
decreasing_by
  simp only [List.length_drop]
  unfold width at *
  omega

structure LengthError where
  length : Nat
  deriving DecidableEq

def LengthError.message (e : LengthError) : String :=
  "point buffer length " ++ toString e.length ++ " is not a multiple of " ++ toString width

def decode (bytes : Bytes) : Except LengthError (List Sample) :=
  if bytes.length % width = 0 then .ok (decodeWhole bytes) else .error ⟨bytes.length⟩

abbrev Set := Std.ExtTreeMap Timestamp UInt64

-- Later samples win.
def addAll (set : Set) (samples : List Sample) : Set :=
  samples.foldl (fun set s => set.insert s.time s.bits) set

def ofSet (set : Set) : List Sample := set.toList.map fun (time, bits) => ⟨time, bits⟩

def union (stored added : List Sample) : List Sample := ofSet (addAll (addAll ∅ stored) added)

def mergeRule : MergeRule := fun stored added =>
  match decode added with
  | .error _ => stored.getD []
  | .ok samples =>
    match decode (stored.getD []) with
    | .error _ => encode (union [] samples)
    | .ok old => encode (union old samples)

end Sample

end Cadence
