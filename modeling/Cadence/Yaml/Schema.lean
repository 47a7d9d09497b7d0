import Cadence.Decimal.Binary
import Cadence.Yaml.Node

namespace Cadence.Yaml

inductive Resolved where
  | null
  | bool (b : Bool)
  -- A whole number without a minus sign, and one with it.
  | natural (n : Nat)
  | negative (n : Int)
  -- A number that is not whole, or too large for that.
  | double
  | text (s : String)
  deriving DecidableEq

def isNull (text : String) : Bool := text ∈ ["null", "Null", "NULL", "~"]

def bool? (text : String) : Option Bool :=
  if text ∈ ["true", "True", "TRUE"] then some true
  else if text ∈ ["false", "False", "FALSE"] then some false
  else none

def withoutPlus : List Char → List Char
  | '+' :: cs => cs
  | cs => cs

def digits? (base : Nat) (cs : List Char) : Option Nat :=
  if cs = [] then none
  else cs.foldlM (fun n c => do
    let d ← Text.hexValue? c
    if d < base then return n * base + d else none) 0

-- Digits behind a leading zero are a text.
def isPadded (cs : List Char) : Bool :=
  1 < cs.length && cs.head? = some '0' && cs.all Text.isDigit

def natural? (cs : List Char) : Option Nat :=
  match cs with
  | '0' :: 'x' :: ds => digits? 16 ds
  | '0' :: 'o' :: ds => digits? 8 ds
  | '0' :: 'b' :: ds => digits? 2 ds
  | ds => if isPadded ds then none else digits? 10 ds

def maxNatural : Nat := Nat.pow 2 64 - 1

def minNegative : Int := -Nat.pow 2 63

-- A whole number of up to 64 bits that has no minus sign.
def unsigned? (text : String) : Option Nat :=
  (natural? (withoutPlus text.toList)).filter (· ≤ maxNatural)

-- A decimal without its sign: its digits, and the power of ten that they are worth.
def decimal? (cs : List Char) : Option (Nat × Int) := do
  let whole := cs.takeWhile Text.isDigit
  let rest := cs.drop whole.length
  let fraction := if rest.head? = some '.' then (rest.drop 1).takeWhile Text.isDigit else []
  let rest := if rest.head? = some '.' then rest.drop (fraction.length + 1) else rest
  if whole = [] ∧ fraction = [] then none
  let exponent ←
    match rest with
    | [] => some 0
    | e :: cs => if e = 'e' ∨ e = 'E' then Text.integer? cs else none
  return (Text.digitsValue (whole ++ fraction), exponent - fraction.length)

-- Whether a text is a number of double precision. Beyond their range only the written infinities
-- are.
def isDouble (text : String) : Bool :=
  let magnitude :=
    match text.toList with
    | '+' :: cs => cs
    | '-' :: cs => cs
    | cs => cs
  let isFinite :=
    match decimal? magnitude with
    | some (digits, exponent) => (Decimal.nearest false digits exponent).isFinite
    | none => false
  isFinite || String.ofList magnitude ∈ [".inf", ".Inf", ".INF"] || text ∈ [".nan", ".NaN", ".NAN"]

-- A whole number. Beyond 64 bits it is a fault, and none beyond 128 bits.
def whole? (text : String) : Option (Option Resolved) :=
  match text.toList with
  | '-' :: cs => (natural? cs).bind fun n =>
    if minNegative ≤ -(n : Int) then some (some (.negative (-n)))
    else if n ≤ Nat.pow 2 127 then some none
    else none
  | cs => (natural? (withoutPlus cs)).bind fun n =>
    if n ≤ maxNatural then some (some (.natural n))
    else if n < Nat.pow 2 128 then some none
    else none

def unsignedText (text : String) : List Char :=
  match text.toList with
  | '-' :: cs => cs
  | cs => withoutPlus cs

def resolvePlain (text : String) : Option Resolved :=
  if text = "" ∨ isNull text then some .null
  else
    match bool? text, whole? text with
    | some b, _ => some (.bool b)
    | none, some n => n
    | none, none =>
      if !isPadded (unsignedText text) && isDouble text then some .double else some (.text text)

-- Tags of a document's own, which have no meaning here.
def isLocal (tag : Option String) : Bool :=
  tag.any fun t => t.toList.head? = some '!' && t ≠ "!"

-- What a scalar stands for, if its text fits its tag.
def Scalar.resolve (tag : Option String) (s : Scalar) : Option Resolved :=
  match tag with
  | none => if s.style = .plain then resolvePlain s.text else some (.text s.text)
  | some t =>
    if isLocal tag then none
    else if t = standardTags ++ "bool" then (bool? s.text).map .bool
    else if t = standardTags ++ "int" then (whole? s.text).join
    else if t = standardTags ++ "float" then if isDouble s.text then some .double else none
    else if t = standardTags ++ "null" then if isNull s.text then some .null else none
    else some (.text s.text)

def Node.resolve : Node → Option Resolved
  | scalar tag s => s.resolve tag
  | _ => none

mutual

-- Whether all of a node stands for data, nested no deeper than a number of collections.
def Node.isData (depth : Nat) : Node → Bool
  | .scalar tag s => (s.resolve tag).isSome
  | .sequence tag items => !isLocal tag && depth ≠ 0 && areData (depth - 1) items
  | .mapping tag entries => !isLocal tag && depth ≠ 0 && areEntriesData (depth - 1) entries
  | .loop => false

def areData (depth : Nat) : List Node → Bool
  | [] => true
  | n :: ns => n.isData depth && areData depth ns

def areEntriesData (depth : Nat) : List (Node × Node) → Bool
  | [] => true
  | (key, value) :: entries =>
    key.isData depth && value.isData depth && areEntriesData depth entries

end

end Cadence.Yaml
