import Cadence.Text.Split
import Cadence.Text.Utf8

namespace Cadence.Http.Form

open Text

def hexValue? (b : UInt8) : Option UInt8 :=
  if 48 ≤ b ∧ b ≤ 57 then some (b - 48)
  else if 65 ≤ b ∧ b ≤ 70 then some (b - 55)
  else if 97 ≤ b ∧ b ≤ 102 then some (b - 87)
  else none

def plus : UInt8 := 43

def percent : UInt8 := 37

def ampersand : UInt8 := 38

def equals : UInt8 := 61

def space : UInt8 := 32

-- A percent sign that no two digits follow stands for itself.
def unescape : Bytes → Bytes
  | [] => []
  | b :: high :: low :: rest =>
    match b == percent, hexValue? high, hexValue? low with
    | true, some h, some l => (h * 16 + l) :: unescape rest
    | _, _, _ => b :: unescape (high :: low :: rest)
  | b :: rest => b :: unescape rest

def decode (bytes : Bytes) : String :=
  String.ofList (Utf8.repair (unescape (bytes.map fun b => if b = plus then space else b)))

-- A name and its value, which is empty without an equals sign.
def pair (bytes : Bytes) : String × String :=
  match cutAt? equals bytes with
  | some (name, value) => (decode name, decode value)
  | none => (decode bytes, "")

def pairs (text : String) : List (String × String) :=
  ((splitOn ampersand (Utf8.encode text)).filter (· ≠ [])).map pair

-- The text of a form that comes to some bytes, of which not all need be text.
def escape (bytes : Bytes) : String :=
  String.ofList (bytes.flatMap fun b =>
    if b < 128 then [Char.ofNat b.toNat] else ['%', Nat.digitChar (b.toNat / 16), Nat.digitChar (b.toNat % 16)])

-- The body of a request. Bytes that are no text make up a form at most; no other body is read from them.
def bodyText (type : Option String) (bytes : Bytes) : String :=
  match Utf8.decode bytes with
  | .ok text => text
  | .error _ => if (type.getD "").startsWith "application/x-www-form-urlencoded" then escape bytes else ""

end Cadence.Http.Form
