import Cadence.Decimal.Notation
import Cadence.Text.Quoted
import Cadence.Series

namespace Cadence.Json

-- Numbers have as few digits as read back, a point, and an exponent with a sign where they are
-- large or small; what is no number is null.
def numberStyle : Decimal.Style where
  tie := .toEven
  positional := some (-5, 16)
  pointed := true
  signed := true
  nan := "null"
  infinity := "null"

def number (x : Float) : String := if x.isFinite then numberStyle.write x else "null"

def fourDigits (n : Nat) : String :=
  let digits := Text.hexDigits n
  Decimal.zeros (4 - digits.length) ++ digits

def escape (c : Char) : String :=
  if c = '"' then "\\\""
  else if c = '\\' then "\\\\"
  else if c = '\n' then "\\n"
  else if c = '\r' then "\\r"
  else if c = '\t' then "\\t"
  else if c = '\x08' then "\\b"
  else if c = '\x0c' then "\\f"
  else if c.toNat < 0x20 then "\\u" ++ fourDigits c.toNat
  else c.toString

def string (s : String) : String := "\"" ++ String.join (s.toList.map escape) ++ "\""

def array (items : List String) : String := "[" ++ ",".intercalate items ++ "]"

def object (members : List (String × String)) : String :=
  "\x7b" ++ ",".intercalate (members.map fun (name, value) => string name ++ ":" ++ value) ++ "\x7d"

def optional (f : α → String) : Option α → String
  | none => "null"
  | some a => f a

-- A series is shown by its label and its points, each a value and an instant.
def series (s : Series Float) : String :=
  object [("target", string s.label),
    ("datapoints", array (s.points.map fun (t, value) => array [optional number value, toString t]))]

end Cadence.Json
