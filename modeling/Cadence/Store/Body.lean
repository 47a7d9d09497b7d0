import Cadence.Json.Number
import Cadence.Json.Value
import Cadence.Store.Write

namespace Cadence.Body

open Json

-- A value of the wrong shape, or a text that is no value.
inductive Fault where
  | shape
  | malformed
  deriving DecidableEq

abbrev Read (α : Type) := Value → Except Fault α

mutual

-- Whether a value keeps to the rules everywhere.
def isWhole : Value → Bool
  | .broken => false
  | .array items => areWhole items
  | .object members => areMembersWhole members
  | _ => true

def areWhole : List Value → Bool
  | [] => true
  | item :: items => isWhole item && areWhole items

def areMembersWhole : List (Option String × Value) → Bool
  | [] => true
  | (_, value) :: members => isWhole value && areMembersWhole members

end

def mismatch : Value → Fault
  | .broken => .malformed
  | .string none => .malformed
  | .number n =>
    match n.value with
    | .outOfRange => .malformed
    | _ => .shape
  | _ => .shape

def text : Read String
  | .string (some s) => .ok s
  | v => .error (mismatch v)

def timestamp : Read Timestamp
  | .number n =>
    match n.value with
    | .whole k =>
      match Timestamp.ofInt? k with
      | some t => .ok t
      | none => .error .shape
    | _ => .error (mismatch (.number n))
  | v => .error (mismatch v)

def double : Read Float
  | .number n =>
    match n.value with
    | .whole k => .ok (wholeToFloat k)
    | .double x => .ok x
    | .outOfRange => .error .malformed
  | v => .error (mismatch v)

-- The values of two named members, which are read where they stand. Other members are passed over.
def members (first second : String) (readFirst : Read α) (readSecond : Read β)
    (a : Option α) (b : Option β) : List (Option String × Value) → Except Fault (α × β)
  | [] =>
    match a, b with
    | some a, some b => .ok (a, b)
    | _, _ => .error .shape
  | (none, _) :: _ => .error .malformed
  | (some name, value) :: rest =>
    if name = first then
      match a with
      | some _ => .error .shape
      | none => do members first second readFirst readSecond (some (← readFirst value)) b rest
    else if name = second then
      match b with
      | some _ => .error .shape
      | none => do members first second readFirst readSecond a (some (← readSecond value)) rest
    else if isWhole value then members first second readFirst readSecond a b rest
    else .error .malformed

-- A pair of values, by their names or in their order.
def record (first second : String) (readFirst : Read α) (readSecond : Read β) : Read (α × β)
  | .object ms => members first second readFirst readSecond none none ms
  | .array [] => .error .shape
  | .array [a] => do
    let _ ← readFirst a
    throw .shape
  | .array (a :: b :: rest) => do
    let a ← readFirst a
    let b ← readSecond b
    if rest.isEmpty then return (a, b) else throw .malformed
  | v => .error (mismatch v)

def sample : Read Sample := fun v => do
  let (time, value) ← record "timestamp" "value" timestamp double v
  return ⟨time, value.toBits⟩

def samples : Read (List Sample)
  | .array items => items.mapM sample
  | v => .error (mismatch v)

def metric : Read Metric := fun v => do
  let (name, samples) ← record "name" "datapoints" text samples v
  return ⟨name, samples⟩

def readMetric (body : String) : Except Fault Metric := do
  let document := Json.parse body
  let m ← metric document.value
  if document.complete then return m else throw .malformed

def Fault.message : Fault → String
  | shape => "Failed to deserialize the JSON body into the target type"
  | malformed => "Failed to parse the request body as JSON"

end Cadence.Body
