import Cadence.Config.Basic
import Cadence.Counters
import Cadence.Evaluation
import Cadence.Http.Form
import Cadence.Http.MediaType
import Cadence.Json.Writer
import Cadence.Moment.Basic
import Cadence.Store.Body

namespace Cadence

open Http

structure ServiceState (σ : Type) where
  counters : Counters
  storage : σ

structure Service (σ : Type) where
  store : Store σ
  evaluator : Evaluator σ
  config : Config

structure Refusal where
  status : Nat
  message : String
  deriving DecidableEq

namespace Refusal

def badRequest (message : String) : Refusal := ⟨400, message⟩

def unavailable (message : String) : Refusal := ⟨503, message⟩

def ofQuery (e : QueryError) : Refusal := ⟨if e.isClientError then 400 else 500, e.message⟩

def response (r : Refusal) : Response := .json r.status (Json.object [("error", Json.string r.message)])

end Refusal

abbrev Answer (σ : Type) := ExceptT Refusal (StateM (ServiceState σ))

-- What is to be rendered. The bounds of the window are texts.
structure RenderParameters where
  targets : List String
  since : String
  until_ : String
  deriving DecidableEq

namespace RenderParameters

-- Without bounds the last day is rendered.
def standard : RenderParameters := ⟨[], "-1d", "now"⟩

-- Takes a pair into account. Empty targets do not count, and the last bound of each kind wins.
def take (p : RenderParameters) : String × String → RenderParameters
  | (name, value) =>
    if (name = "target" ∨ name = "target[]") ∧ value ≠ "" then
      { p with targets := p.targets ++ [value] }
    else if name = "from" then { p with since := value }
    else if name = "until" then { p with until_ := value }
    else p

def ofPairs (pairs : List (String × String)) : RenderParameters := pairs.foldl take standard

end RenderParameters

namespace Service

variable {σ : Type}

def attempt {α : Type} (q : Query σ α) : Answer σ (Except QueryError α) := fun s =>
  let (result, storage) := q.run s.storage
  (.ok result, { s with storage })

def ask {α : Type} (fail : QueryError → Refusal) (q : Query σ α) : Answer σ α := do
  liftExcept fail (← attempt q)

def count (f : Counters → Counters) : Answer σ Unit :=
  modify fun s => { s with counters := f s.counters }

def ping (svc : Service σ) : Answer σ Response := do
  ask (fun e => .unavailable e.message) svc.store.ping
  return .text 200 "PONG"

-- The pairs that a request for rendering carries in its query or its form. Forms are read at any length; a
-- host that refuses more than two megabytes with 400 does so before.
def renderPairs (r : Request) : Except Refusal (List (String × String)) :=
  match r.method with
  | .get => .ok (Form.pairs r.query)
  | .post =>
    match (r.header? "content-type").bind visible? with
    | some type =>
      if type.startsWith "application/x-www-form-urlencoded" then .ok (Form.pairs r.body)
      else .error missingFormType
    | none => .error missingFormType
  | _ => .error (.badRequest "only GET and POST are supported")
where
  missingFormType : Refusal :=
    .badRequest ("failed to parse form body: Form requests must have "
      ++ "\x60Content-Type: application/x-www-form-urlencoded\x60")

def moment (text : String) (now : Timestamp) : Except QueryError Timestamp :=
  (Moment.parse text now).mapError fun e => .argument e.message

def renderWindow (p : RenderParameters) (now : Timestamp) : Except QueryError Window := do
  let since ← moment p.since now
  let until_ ← moment p.until_ now
  if until_.toInt < since.toInt then
    throw (.argument ("from (" ++ toString since.toInt ++ ") is after until ("
      ++ toString until_.toInt ++ ")"))
  let w : Window := ⟨since, until_⟩
  w.check.mapError .ofWindow
  return w

def renderRequest (r : Request) (now : Timestamp) : Except Refusal (List String × Window) := do
  let p := RenderParameters.ofPairs (← renderPairs r)
  if p.targets = [] then throw (.badRequest "no targets requested")
  let w ← (renderWindow p now).mapError .ofQuery
  return (p.targets, w)

-- Evaluates targets and counts them by the outcome of all.
def renderTargets (svc : Service σ) (targets : List String) (w : Window) : Answer σ Response := do
  match ← attempt (svc.evaluator.evaluateTargets w targets) with
  | .ok series =>
    count (·.countTargets .success targets.length)
    return .json 200 (Json.array (series.map Json.series))
  | .error e =>
    count (·.countTargets .error targets.length)
    throw (.ofQuery e)

def render (svc : Service σ) (now : Timestamp) (r : Request) : Answer σ Response := do
  let (targets, w) ← liftExcept id (renderRequest r now)
  svc.renderTargets targets w

-- The metric that a request carries, in a body of any length, as for forms.
def requestMetric (r : Request) : Except Refusal Metric :=
  match ((r.header? "content-type").bind visible?).bind MediaType.parse? with
  | some type =>
    if type.isJson then (Body.readMetric r.body).mapError fun f => .badRequest f.message
    else .error missingJsonType
  | none => .error missingJsonType
where
  missingJsonType : Refusal :=
    .badRequest "Expected request with \x60Content-Type: application/json\x60"

def write (svc : Service σ) (r : Request) : Answer σ Response := do
  let m ← liftExcept id (requestMetric r)
  ask .ofQuery (svc.store.insert m)
  count (·.countDatapoints m.samples.length)
  return .empty 204

def metrics : Answer σ Response := do
  return .text 200 (← get).counters.page

def admits (e : Endpoint) (m : Method) : Bool :=
  match e, m with
  | .datapoints, .post => true
  | .datapoints, _ => false
  | .render, .post => true
  | _, .get => true
  | _, .head => true
  | _, _ => false

def answerAt (svc : Service σ) (now : Timestamp) (r : Request) : Endpoint → Answer σ Response
  | .ping => svc.ping
  | .inspect => return .json 200 svc.config.toJson
  | .render => svc.render now r
  | .datapoints => svc.write r
  | .metrics => metrics
  | .healthy => return .text 200 "OK"

def answer (svc : Service σ) (now : Timestamp) (r : Request) :
    StateM (ServiceState σ) Response := do
  match Endpoint.ofPath? r.path with
  | none => return .empty 404
  | some e =>
    if !admits e r.method then return .empty 405
    else
      let response ←
        match ← (svc.answerAt now r e).run with
        | .ok response => pure response
        | .error refusal => pure refusal.response
      return if r.method = .head then response.withoutBody else response

def handle (svc : Service σ) (now : Timestamp) (r : Request) :
    StateM (ServiceState σ) Response := do
  let response ← svc.answer now r
  modify fun s => { s with
    counters := s.counters.countRequest
      ⟨.of r.method, Endpoint.ofPath? r.path, response.status⟩ }
  return response

end Service

def Service.ofBackend {σ : Type} (b : Backend σ) (config : Config) : Service σ :=
  let store := Store.ofBackend b config.settings
  ⟨store, store.evaluator, config⟩

end Cadence
