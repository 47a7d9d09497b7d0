import Cadence.Http.Message

namespace Cadence

inductive Endpoint where
  | ping
  | inspect
  | render
  | datapoints
  | metrics
  | healthy
  deriving DecidableEq

namespace Endpoint

def all : List Endpoint := [ping, inspect, render, datapoints, metrics, healthy]

def path : Endpoint → String
  | ping => "/ping"
  | inspect => "/inspect"
  | render => "/render"
  | datapoints => "/datapoints"
  | metrics => "/metrics"
  | healthy => "/-/healthy"

def ofPath? (path : String) : Option Endpoint := all.find? (·.path = path)

-- Unknown paths are counted together.
def label : Option Endpoint → String
  | some e => e.path
  | none => "other"

end Endpoint

inductive MethodClass where
  | get
  | post
  | other
  deriving DecidableEq

def MethodClass.of : Http.Method → MethodClass
  | .get => get
  | .post => post
  | _ => other

def MethodClass.label : MethodClass → String
  | get => "Get"
  | post => "Post"
  | other => "Other"

structure RequestLabels where
  method : MethodClass
  endpoint : Option Endpoint
  status : Nat
  deriving DecidableEq

inductive Outcome where
  | success
  | error
  deriving DecidableEq

def Outcome.label : Outcome → String
  | success => "Success"
  | error => "Error"

-- Counts by their labels, in the order in which the labels first came up.
abbrev Tally (α : Type) := List (α × Nat)

namespace Tally

variable {α : Type} [DecidableEq α]

def add (label : α) (n : Nat) : Tally α → Tally α
  | [] => [(label, n)]
  | (l, count) :: rest =>
    if l = label then (l, count + n) :: rest else (l, count) :: add label n rest

def count (label : α) (t : Tally α) : Nat := (t.lookup label).getD 0

end Tally

structure Counters where
  requests : Tally RequestLabels
  renders : Tally Outcome
  datapoints : Nat

namespace Counters

def zero : Counters := ⟨[], [], 0⟩

def countRequest (c : Counters) (labels : RequestLabels) : Counters :=
  { c with requests := c.requests.add labels 1 }

def countTargets (c : Counters) (outcome : Outcome) (n : Nat) : Counters :=
  { c with renders := c.renders.add outcome n }

def countDatapoints (c : Counters) (n : Nat) : Counters :=
  { c with datapoints := c.datapoints + n }

def labelText (labels : List (String × String)) : String :=
  "\x7b" ++ ",".intercalate (labels.map fun (name, value) => name ++ "=\"" ++ value ++ "\"") ++ "\x7d"

def description (name help : String) : List String :=
  ["# HELP " ++ name ++ " " ++ help ++ ".", "# TYPE " ++ name ++ " counter"]

def sample (name labels : String) (n : Nat) : String :=
  name ++ "_total" ++ labels ++ " " ++ toString n

def requestLine (entry : RequestLabels × Nat) : String :=
  sample "http_requests_total"
    (labelText [("method", entry.1.method.label), ("endpoint", Endpoint.label entry.1.endpoint),
      ("status", toString entry.1.status)])
    entry.2

def renderLine (entry : Outcome × Nat) : String :=
  sample "render_targets_total" (labelText [("status", entry.1.label)]) entry.2

def lines (c : Counters) : List String :=
  description "http_requests_total" "Total number of HTTP requests" ++ c.requests.map requestLine
    ++ description "render_targets_total" "Total number of render targets evaluated by status"
    ++ c.renders.map renderLine
    ++ description "datapoints_written_total" "Total number of datapoints written"
    ++ [sample "datapoints_written_total" "" c.datapoints]
    ++ ["# EOF"]

def page (c : Counters) : String := String.join (c.lines.map (· ++ "\n"))

end Counters

end Cadence
