import Cadence.Transform.Argument
import Cadence.Transform.Aggregate
import Cadence.Decimal.Notation
import Cadence.Text.Split

namespace Cadence

open Text

-- Factors in names have as few digits as read back and no exponent.
def factorStyle : Decimal.Style where
  tie := .up
  positional := none
  pointed := false
  signed := false
  nan := "NaN"
  infinity := "inf"

def callName (function : String) (parts : List String) : String :=
  function ++ "(" ++ ",".intercalate parts ++ ")"

-- The metric inside the name of a result: what follows the last parenthesis that opens, up to the
-- next comma or closing one.
def metricPath (name : String) : String :=
  let inner := (name.toList.reverse.takeWhile (· ≠ '(')).reverse
  String.ofList (inner.takeWhile fun c => c ≠ ',' ∧ c ≠ ')')

-- The whole part of a double, clamped to the range of timestamps; none of it where it is not a
-- number.
def wholePart (x : Float) : Int :=
  let signed (negative : Bool) (n : Int) : Int := if negative then -n else n
  let clamp (n : Int) : Int := max Timestamp.lowest (min n Timestamp.highest)
  match Decimal.Double.ofBits x.toBits with
  | .nan => 0
  | .infinite negative => if negative then Timestamp.lowest else Timestamp.highest
  | .finite negative mantissa exponent =>
    if 0 ≤ exponent then clamp (signed negative (mantissa * Nat.pow 2 exponent.toNat))
    else clamp (signed negative (mantissa / Nat.pow 2 (-exponent).toNat : Nat))

namespace Builtin

def label (args : List Argument) : Checked (List (Series Float)) := do
  checkArity "alias" (.exactly 2) args
  match args with
  | [head, name] =>
    let series ← head.asSeries "alias" 0
    let name ← name.asText "alias" 1
    return series.map (·.withLabel name)
  | _ => return []

-- The part with a number; a negative one counts from the end.
def pickNode (name : String) (parts : List String) (node : Int) : Checked String :=
  let index := if node < 0 then parts.length + node else node
  if index < 0 then .error (.nodeOutOfRange node name)
  else
    match parts[index.toNat]? with
    | some part => .ok part
    | none => .error (.nodeOutOfRange node name)

def nodes (path : String) : List String := (splitOn '.' path.toList).map String.ofList

def labelByNode (picks : List Int) (s : Series Float) : Checked (Series Float) := do
  let picked ← picks.mapM (pickNode s.name (nodes (metricPath s.name)))
  return s.withLabel (".".intercalate picked)

def labelByNodes (args : List Argument) : Checked (List (Series Float)) := do
  checkArity "aliasByNode" (.atLeast 2) args
  match args with
  | head :: rest =>
    let series ← head.asSeries "aliasByNode" 0
    let numbers ← rest.zipIdx.mapM fun (arg, i) => arg.asNumber "aliasByNode" (i + 1)
    series.mapM (labelByNode (numbers.map wholePart))
  | [] => return []

def group (args : List Argument) : Checked (List (Series Float)) := allSeries "group" args

def mapSeries (function : String) (op : Float → Float → Float) (factor : Float)
    (s : Series Float) : Series Float :=
  .ofValues (callName function [s.label, factorStyle.write factor]) s.start s.step
    (s.values.map (·.map (op · factor)))

def mapValues (function : String) (op : Float → Float → Float) (args : List Argument) :
    Checked (List (Series Float)) := do
  checkArity function (.exactly 2) args
  match args with
  | [head, factor] =>
    let series ← head.asSeries function 0
    let factor ← factor.asNumber function 1
    return series.map (mapSeries function op factor)
  | _ => return []

-- Combines all series into one, unless there is none.
def combine (function : String) (a : Aggregation) (args : List Argument) :
    Checked (List (Series Float)) := do
  let series ← allSeries function args
  match series with
  | [] => return []
  | s :: rest =>
    return [aggregate a (callName function ((s :: rest).map (·.label))) (s :: rest)]

end Builtin

structure Registry where
  functions : List (String × Transform)

namespace Registry

def find? (r : Registry) (name : String) : Option Transform := r.functions.lookup name

def names (r : Registry) : List String := r.functions.map (·.1)

-- In the order of their names.
def builtin : Registry where
  functions := [
    ("alias", .ofChecked Builtin.label),
    ("aliasByNode", .ofChecked Builtin.labelByNodes),
    ("averageSeries", .ofChecked (Builtin.combine "averageSeries" .average)),
    ("group", .ofChecked Builtin.group),
    ("maxSeries", .ofChecked (Builtin.combine "maxSeries" .max)),
    ("minSeries", .ofChecked (Builtin.combine "minSeries" .min)),
    ("offset", .ofChecked (Builtin.mapValues "offset" (· + ·))),
    ("scale", .ofChecked (Builtin.mapValues "scale" (· * ·))),
    ("sumSeries", .ofChecked (Builtin.combine "sumSeries" .sum))]

end Registry

end Cadence
