import Cadence.Timestamp
import Cadence.Text.Utf8

namespace Cadence.Key

open Text

def version : UInt8 := 1

-- The length of a table's name has two bytes.
def maxTableLength : Nat := 65535

def lengthBytes (n : Nat) : Bytes := [UInt8.ofNat (n / 256), UInt8.ofNat n]

-- An epoch counted from the lowest timestamp, the most significant byte first.
def epochBytes (t : Timestamp) : Bytes :=
  let n := (t.toInt - Timestamp.lowest).toNat
  [7, 6, 5, 4, 3, 2, 1, 0].map fun place => UInt8.ofNat (n / Nat.pow 256 place)

def ofTable (table : String) : Bytes := version :: 1 :: Utf8.encode table

-- What the keys of all items with one table and epoch begin with.
def itemStem (table : String) (item : Timestamp) : Bytes :=
  let name := Utf8.encode table
  version :: 2 :: lengthBytes name.length ++ name ++ epochBytes item

def ofItem (table : String) (item : Timestamp) (name : String) : Bytes :=
  itemStem table item ++ Utf8.encode name

end Cadence.Key
