import Cadence.Moment.Calendar
import Cadence.Text.Case
import Cadence.Text.Numeral
import Cadence.Timestamp

namespace Cadence.Moment

open Text

inductive FormatFault where
  | invalid
  | outOfRange
  | tooShort
  | tooLong
  deriving DecidableEq

def FormatFault.message : FormatFault → String
  | invalid => "input contains invalid characters"
  | outOfRange => "input is out of range"
  | tooShort => "premature end of input"
  | tooLong => "trailing input"

-- Why a text is no moment. Each shows the part of the text that is at fault.
inductive MomentError where
  | format (text : String) (fault : FormatFault)
  | reference (text : String)
  | amount (offset : String)
  | unit (name : String)
  | outOfRange (text : String)
  deriving DecidableEq

def MomentError.message : MomentError → String
  | format text fault => "invalid time format (" ++ text ++ "): " ++ fault.message
  | reference text => "unsupported time reference (" ++ text ++ ")"
  | amount offset => "invalid offset amount in (" ++ offset ++ ")"
  | unit name => "invalid offset unit (" ++ name ++ ")"
  | outOfRange text => "time out of range (" ++ text ++ ")"

def fits? (n : Int) : Option Int :=
  if Timestamp.lowest ≤ n ∧ n ≤ Timestamp.highest then some n else none

def amount? (digits : List Char) : Option Int := (natural? digits).bind fun n => fits? n

-- Seconds since the epoch, with a sign or without.
def epoch? (cs : List Char) : Option Timestamp := (integer? cs).bind Timestamp.ofInt?

-- A number of at most so many digits at the front of a text.
def readDigits (width : Nat) (cs : List Char) : Except FormatFault (Nat × List Char) :=
  match cs with
  | [] => .error .tooShort
  | c :: rest =>
    if !isDigit c then .error .invalid
    else
      let digits := ((c :: rest).take width).takeWhile isDigit
      .ok (digitsValue digits, (c :: rest).drop digits.length)

-- A number between bounds; blanks before it are skipped.
def readField (width low high : Nat) (cs : List Char) : Except FormatFault (Nat × List Char) := do
  let (n, rest) ← readDigits width (dropBlanks cs)
  if low ≤ n ∧ n ≤ high then return (n, rest) else throw .outOfRange

-- A year has four digits, or any number of them behind a sign.
def readYear (cs : List Char) : Except FormatFault (Int × List Char) := do
  match dropBlanks cs with
  | '-' :: rest =>
    let (n, rest) ← readDigits rest.length rest
    return (-n, rest)
  | '+' :: rest =>
    let (n, rest) ← readDigits rest.length rest
    return (n, rest)
  | rest =>
    let (n, rest) ← readDigits 4 rest
    return (n, rest)

def readColon : List Char → Except FormatFault (List Char)
  | [] => .error .tooShort
  | c :: rest => if c = ':' then .ok rest else .error .invalid

-- Seconds since the epoch of hours, a colon, minutes, and a date from the year to the day.
def readDateTime (cs : List Char) : Except FormatFault Int := do
  let (hours, cs) ← readField 2 0 23 cs
  let cs ← readColon cs
  let (minutes, cs) ← readField 2 0 59 cs
  let (year, cs) ← readYear cs
  let (month, cs) ← readField 2 1 12 cs
  let (day, cs) ← readField 2 1 31 cs
  if cs ≠ [] then throw .tooLong
  let date : Date := ⟨year, month, day⟩
  if !date.exists? then throw .outOfRange
  return date.daysSinceEpoch * 86400 + hours * 3600 + minutes * 60

-- Seconds in a unit. Most units may be cut anywhere or go on as they like.
def unitSeconds (name : List Char) : Option Int :=
  if "s".toList.isPrefixOf name then some 1
  else if name = ['m'] ∨ "min".toList.isPrefixOf name then some 60
  else if "h".toList.isPrefixOf name then some 3600
  else if "d".toList.isPrefixOf name then some 86400
  else if "w".toList.isPrefixOf name then some (7 * 86400)
  else if "mon".toList.isPrefixOf name then some (30 * 86400)
  else if "y".toList.isPrefixOf name then some (365 * 86400)
  else none

def isLetter (c : Char) : Bool := c.isAlpha

-- Adds groups of a count and a unit to a total; neither a product nor a sum may leave the range of
-- timestamps.
def addGroups (offset : String) (sign : Int) (total : Int) (cs : List Char) :
    Except MomentError Int :=
  match cs with
  | [] => .ok total
  | c :: rest =>
    let digits := (c :: rest).takeWhile isDigit
    let tail := (c :: rest).dropWhile isDigit
    let name := tail.takeWhile isLetter
    match _ha : amount? digits with
    | none => .error (.amount offset)
    | some count =>
      match unitSeconds name with
      | none => .error (.unit (String.ofList name))
      | some seconds =>
        match (fits? (seconds * count)).bind fun secs => fits? (total + sign * secs) with
        | none => .error (.outOfRange offset)
        | some total => addGroups offset sign total (tail.dropWhile isLetter)
termination_by cs.length
decreasing_by
  have hparts := congrArg List.length (List.takeWhile_append_dropWhile (p := isDigit) (l := c :: rest))
  have hunits := (List.dropWhile_suffix isLetter (l := List.dropWhile isDigit (c :: rest))).length_le
  have hcount : 0 < (List.takeWhile isDigit (c :: rest)).length := by
    rw [List.length_pos_iff]
    intro h0
    obtain ⟨n, hn, -⟩ := Option.bind_eq_some_iff.1 _ha
    exact ne_nil_of_natural? hn h0
  simp only [List.length_append] at hparts
  omega

-- The seconds of an offset, which begins with its sign.
def offsetSeconds (cs : List Char) : Except MomentError Int :=
  match cs with
  | [] => .ok 0
  | c :: rest =>
    let offset := String.ofList (c :: rest)
    addGroups offset (if c = '-' then -1 else 1) 0 rest

def normalize (s : String) : List Char :=
  (lower (strip s)).toList.filter fun c => c ≠ '_' ∧ c ≠ ',' ∧ c ≠ ' '

def dateTimeLength : Nat := 13

def parse (s : String) (now : Timestamp) : Except MomentError Timestamp :=
  let cs := normalize s
  let text := String.ofList cs
  match epoch? cs with
  | some t => .ok t
  | none =>
    if ':' ∈ cs ∧ text.utf8ByteSize = dateTimeLength then
      match readDateTime cs with
      | .ok seconds => .ok (Timestamp.clamp seconds)
      | .error fault => .error (.format text fault)
    else
      let reference := cs.takeWhile fun c => c ≠ '+' ∧ c ≠ '-'
      if reference ≠ [] ∧ reference ≠ "now".toList then .error (.reference text)
      else
        match offsetSeconds (cs.drop reference.length) with
        | .error e => .error e
        | .ok seconds =>
          match Timestamp.ofInt? (now.toInt + seconds) with
          | some t => .ok t
          | none => .error (.outOfRange text)

end Cadence.Moment
