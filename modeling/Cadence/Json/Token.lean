import Cadence.Text.Numeral

namespace Cadence.Json

open Text (isDigit hexValue?)

structure NumberText where
  negative : Bool
  whole : List Char
  -- The digits behind the point, none without a point.
  fraction : List Char
  -- The sign and the digits of the exponent.
  exponent : Option (Bool × List Char)
  deriving DecidableEq

inductive Token where
  | openObject
  | closeObject
  | openArray
  | closeArray
  | comma
  | colon
  | null
  | bool (b : Bool)
  | number (n : NumberText)
  -- No text where an escape stands for half a character.
  | string (s : Option String)
  | fault
  deriving DecidableEq

def isBlank (c : Char) : Bool := c = ' ' || c = '\n' || c = '\t' || c = '\r'

def hexUnit? (a b c d : Char) : Option Nat := do
  return (((← hexValue? a) * 16 + (← hexValue? b)) * 16 + (← hexValue? c)) * 16 + (← hexValue? d)

def escaped? (c : Char) : Option Char :=
  if c = '"' ∨ c = '\\' ∨ c = '/' then some c
  else if c = 'b' then some '\x08'
  else if c = 'f' then some '\x0c'
  else if c = 'n' then some '\n'
  else if c = 'r' then some '\r'
  else if c = 't' then some '\t'
  else none

-- Reads up to the closing quote: the numbers of the characters, in which a character may be split
-- into two halves, and the rest.
def readString : List Char → Option (List Nat × List Char)
  | [] => none
  | '\\' :: 'u' :: a :: b :: c :: d :: rest => do
    let unit ← hexUnit? a b c d
    let (units, rest) ← readString rest
    return (unit :: units, rest)
  | '\\' :: c :: rest => do
    let c ← escaped? c
    let (units, rest) ← readString rest
    return (c.toNat :: units, rest)
  | c :: rest =>
    if c = '"' then some ([], rest)
    else if c = '\\' ∨ c.toNat < 0x20 then none
    else (readString rest).map fun (units, rest) => (c.toNat :: units, rest)

-- Joins halves of characters; one without its partner is no text.
def joinHalves : List Nat → Option (List Char)
  | [] => some []
  | high :: low :: rest =>
    if 0xd800 ≤ high ∧ high < 0xdc00 ∧ 0xdc00 ≤ low ∧ low < 0xe000 then
      (joinHalves rest).map (Char.ofNat (0x10000 + (high - 0xd800) * 0x400 + (low - 0xdc00)) :: ·)
    else if 0xd800 ≤ high ∧ high < 0xe000 then none
    else (joinHalves (low :: rest)).map (Char.ofNat high :: ·)
  | [unit] => if 0xd800 ≤ unit ∧ unit < 0xe000 then none else some [Char.ofNat unit]

-- Digits at the front, of which there has to be one.
def readDigits (cs : List Char) : Option (List Char × List Char) :=
  match cs.takeWhile isDigit with
  | [] => none
  | d :: ds => some (d :: ds, cs.dropWhile isDigit)

def readFraction (cs : List Char) : Option (List Char × List Char) :=
  match cs with
  | '.' :: rest => readDigits rest
  | _ => some ([], cs)

def readExponent (cs : List Char) : Option (Option (Bool × List Char) × List Char) :=
  match cs with
  | c :: rest =>
    if c = 'e' ∨ c = 'E' then
      let (negative, rest) :=
        match rest with
        | '-' :: rest => (true, rest)
        | '+' :: rest => (false, rest)
        | _ => (false, rest)
      (readDigits rest).map fun (digits, rest) => (some (negative, digits), rest)
    else some (none, cs)
  | [] => some (none, [])

-- A number without its sign. A zero in front stands alone.
def readNumber (negative : Bool) (cs : List Char) : Option (NumberText × List Char) := do
  let (whole, rest) ← readDigits cs
  if whole.head? = some '0' ∧ whole.length ≠ 1 then none
  else
    let (fraction, rest) ← readFraction rest
    let (exponent, rest) ← readExponent rest
    return (⟨negative, whole, fraction, exponent⟩, rest)

def readWord (word : String) (token : Token) (cs : List Char) : Option (Token × List Char) :=
  if word.toList.isPrefixOf cs then some (token, cs.drop word.length) else none

def punctuation? (c : Char) : Option Token :=
  if c = '\x7b' then some .openObject
  else if c = '\x7d' then some .closeObject
  else if c = '[' then some .openArray
  else if c = ']' then some .closeArray
  else if c = ',' then some .comma
  else if c = ':' then some .colon
  else none

def readToken (c : Char) (cs : List Char) : Option (Token × List Char) :=
  match punctuation? c with
  | some token => some (token, cs)
  | none =>
    if c = '"' then (readString cs).map fun (units, rest) =>
      (.string ((joinHalves units).map String.ofList), rest)
    else if c = '-' then (readNumber true cs).map fun (n, rest) => (.number n, rest)
    else if isDigit c then (readNumber false (c :: cs)).map fun (n, rest) => (.number n, rest)
    else if c = 'n' then readWord "ull" .null cs
    else if c = 't' then readWord "rue" (.bool true) cs
    else if c = 'f' then readWord "alse" (.bool false) cs
    else none

-- The tokens of a text. Each takes at least one character, so the length of the text bounds
-- their number.
def tokensWithin : Nat → List Char → List Token
  | 0, _ => []
  | _ + 1, [] => []
  | fuel + 1, c :: cs =>
    if isBlank c then tokensWithin fuel cs
    else
      match readToken c cs with
      | none => [.fault]
      | some (token, rest) => token :: tokensWithin fuel rest

def tokens (text : String) : List Token := tokensWithin text.length text.toList

end Cadence.Json
