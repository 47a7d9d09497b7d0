import Cadence.Proofs.Counters
import Cadence.Proofs.Service.Render

namespace Cadence

open Http

variable {σ : Type}

def ServiceState.counting (s : ServiceState σ) (r : Request) (response : Response) : ServiceState σ :=
  { s with counters := s.counters.countRequest ⟨.of r.method, Endpoint.ofPath? r.path, response.status⟩ }

namespace Service

def namesTarget (pair : String × String) : Bool :=
  (pair.1 = "target" ∨ pair.1 = "target[]") ∧ pair.2 ≠ ""

-- The targets that a request names, without the empty ones.
def requestTargets (r : Request) : List String :=
  match renderPairs r with
  | .ok pairs => (pairs.filter namesTarget).map Prod.snd
  | .error _ => []

def requestSamples (r : Request) : List Sample :=
  match requestMetric r with
  | .ok m => m.samples
  | .error _ => []

theorem targets_foldl_take (pairs : List (String × String)) (p : RenderParameters) :
    (pairs.foldl RenderParameters.take p).targets
      = p.targets ++ (pairs.filter namesTarget).map Prod.snd := by
  induction pairs generalizing p with
  | nil => simp
  | cons pair pairs ih =>
      obtain ⟨name, value⟩ := pair
      rw [List.foldl_cons, ih]
      cases htarget : namesTarget (name, value) with
      | true =>
          rw [List.filter_cons_of_pos htarget, List.map_cons, RenderParameters.take,
            if_pos (of_decide_eq_true htarget), List.append_assoc]
          rfl
      | false =>
          have hsame : (p.take (name, value)).targets = p.targets := by
            rw [RenderParameters.take, if_neg (of_decide_eq_false htarget)]
            split
            · rfl
            · split <;> rfl
          have hnot : ¬namesTarget (name, value) = true := by simp [htarget]
          rw [List.filter_cons_of_neg hnot, hsame]

theorem targets_of_renderRequest {r : Request} {now : Timestamp} {targets : List String} {w : Window}
    (h : renderRequest r now = .ok (targets, w)) : targets = requestTargets r := by
  obtain ⟨pairs, hpairs, h⟩ := exists_of_bind_eq_ok h
  simp only at h
  split at h
  · cases h
  · obtain ⟨_, -, h⟩ := exists_of_bind_eq_ok h
    cases h
    rw [requestTargets, hpairs]
    exact targets_foldl_take pairs .standard

theorem bad_of_requestMetric {r : Request} {f : Refusal} (h : requestMetric r = .error f) :
    f = .badRequest f.message := by
  unfold requestMetric at h
  split at h
  · split at h
    · obtain ⟨_, -, rfl⟩ := exists_of_mapError_eq_error h
      rfl
    · cases h
      rfl
  · cases h
    rfl

theorem status_ofQuery (e : QueryError) :
    (Refusal.ofQuery e).status = 400 ∨ (Refusal.ofQuery e).status = 500 := by
  unfold Refusal.ofQuery
  split
  · exact .inl rfl
  · exact .inr rfl

end Service

open Service

-- A request that was served, with the storage that it found and what it was answered.
structure Exchange (σ : Type) where
  now : Timestamp
  request : Request
  found : σ
  response : Response

namespace Exchange

def endpoint (x : Exchange σ) : Option Endpoint := Endpoint.ofPath? x.request.path

def labels (x : Exchange σ) : RequestLabels := ⟨.of x.request.method, x.endpoint, x.response.status⟩

-- Whether a request for rendering was answered with what it asked for.
def rendered (x : Exchange σ) : Bool := x.endpoint = some .render ∧ x.response.status = 200

-- What the targets of a request come to, if it has targets and a window that can be served.
def evaluation? (svc : Service σ) (x : Exchange σ) : Option (Except QueryError (List (Series Float))) :=
  match renderRequest x.request x.now with
  | .ok (targets, w) => some (outcome (svc.evaluator.evaluateTargets w targets) x.found).1
  | .error _ => none

-- Whether a request could be rendered, but its targets could not be evaluated.
def failed (svc : Service σ) (x : Exchange σ) : Bool :=
  match x.endpoint, x.evaluation? svc with
  | some .render, some (.error _) => true
  | _, _ => false

-- Whether a request stored its datapoints.
def stored (x : Exchange σ) : Bool :=
  x.request.method = .post ∧ x.endpoint = some .datapoints ∧ x.response.status = 204

variable {svc : Service σ} {x : Exchange σ}

theorem failed_iff :
    x.failed svc = true ↔ x.endpoint = some .render ∧ ∃ e, x.evaluation? svc = some (.error e) := by
  unfold failed
  split
  · rename_i e hendpoint hevaluation
    exact iff_of_true rfl ⟨hendpoint, e, hevaluation⟩
  · rename_i hother
    refine iff_of_false Bool.false_ne_true ?_
    rintro ⟨hendpoint, e, hevaluation⟩
    exact hother e hendpoint hevaluation

-- What answering a request adds to the counters, before the request itself is counted.
structure Adds (svc : Service σ) (x : Exchange σ) (c c' : Counters) : Prop where
  requests : c'.requests = c.requests
  once : (c.renders.map Prod.fst).Nodup → (c'.renders.map Prod.fst).Nodup
  datapoints : c'.datapoints
    = c.datapoints + if x.stored then (requestSamples x.request).length else 0
  succeeded : c'.renders.count .success
    = c.renders.count .success + if x.rendered then (requestTargets x.request).length else 0
  failed : c'.renders.count .error
    = c.renders.count .error + if x.failed svc then (requestTargets x.request).length else 0

theorem not_rendered_of_endpoint (h : x.endpoint ≠ some .render) : x.rendered = false :=
  decide_eq_false fun hrendered => h hrendered.1

theorem not_rendered_of_status (h : x.response.status ≠ 200) : x.rendered = false :=
  decide_eq_false fun hrendered => h hrendered.2

theorem not_failed_of_endpoint (h : x.endpoint ≠ some .render) : x.failed svc = false :=
  Bool.eq_false_iff.mpr fun hfailed => h (failed_iff.mp hfailed).1

theorem not_failed_of_evaluation (h : ∀ e, x.evaluation? svc ≠ some (.error e)) :
    x.failed svc = false :=
  Bool.eq_false_iff.mpr fun hfailed => (failed_iff.mp hfailed).2.elim h

theorem not_stored_of_endpoint (h : x.endpoint ≠ some .datapoints) : x.stored = false :=
  decide_eq_false fun hstored => h hstored.2.1

theorem not_stored_of_status (h : x.response.status ≠ 204) : x.stored = false :=
  decide_eq_false fun hstored => h hstored.2.2

namespace Adds

variable {c : Counters}

theorem nothing (hrendered : x.rendered = false) (hfailed : x.failed svc = false)
    (hstored : x.stored = false) : Adds svc x c c := by
  constructor <;> simp [hrendered, hfailed, hstored]

theorem elsewhere (hrender : x.endpoint ≠ some .render) (hwrite : x.endpoint ≠ some .datapoints) :
    Adds svc x c c :=
  nothing (not_rendered_of_endpoint hrender) (not_failed_of_endpoint hrender)
    (not_stored_of_endpoint hwrite)

theorem targets (hrendered : x.rendered = true) (hfailed : x.failed svc = false) :
    Adds svc x c (c.countTargets .success (requestTargets x.request).length) := by
  have hendpoint : x.endpoint = some .render := (of_decide_eq_true hrendered).1
  have hstored : x.stored = false := not_stored_of_endpoint (by simp [hendpoint])
  constructor
  case requests => rfl
  case once => exact Tally.nodup_labels_add _ _
  all_goals simp [Counters.countTargets, Tally.count_add, hrendered, hfailed, hstored]

theorem failures (hrendered : x.rendered = false) (hfailed : x.failed svc = true) :
    Adds svc x c (c.countTargets .error (requestTargets x.request).length) := by
  have hendpoint : x.endpoint = some .render := (failed_iff.mp hfailed).1
  have hstored : x.stored = false := not_stored_of_endpoint (by simp [hendpoint])
  constructor
  case requests => rfl
  case once => exact Tally.nodup_labels_add _ _
  all_goals simp [Counters.countTargets, Tally.count_add, hrendered, hfailed, hstored]

theorem samples (hstored : x.stored = true) :
    Adds svc x c (c.countDatapoints (requestSamples x.request).length) := by
  have hendpoint : x.endpoint = some .datapoints := (of_decide_eq_true hstored).2.1
  have hother : x.endpoint ≠ some .render := by simp [hendpoint]
  have hrendered : x.rendered = false := not_rendered_of_endpoint hother
  have hfailed : x.failed svc = false := not_failed_of_endpoint hother
  constructor <;> simp [Counters.countDatapoints, hrendered, hfailed, hstored]

end Adds

end Exchange

namespace Service

variable (svc : Service σ) (now : Timestamp) {r : Request} (s : ServiceState σ)

theorem outcome_ask {α : Type} (fail : QueryError → Refusal) (q : Query σ α) :
    outcome (ask fail q) s = ((outcome q s.storage).1.mapError fail,
      { s with storage := (outcome q s.storage).2 }) := by
  rw [ask, outcome_bind_ok (outcome_attempt q s)]
  cases (outcome q s.storage).1 <;> rfl

theorem adds_render (hpath : Endpoint.ofPath? r.path = some .render) :
    Exchange.Adds svc ⟨now, r, s.storage, reply r (outcome (svc.render now r) s).1⟩ s.counters
      (outcome (svc.render now r) s).2.counters := by
  cases hrequest : renderRequest r now with
  | error f =>
      have hrender : outcome (svc.render now r) s = (.error f, s) := by
        rw [render, hrequest]
        rfl
      rw [hrender]
      apply Exchange.Adds.nothing
      · apply Exchange.not_rendered_of_status
        rw [status_reply_error, bad_of_renderRequest hrequest]
        exact (by decide : 400 ≠ 200)
      · apply Exchange.not_failed_of_evaluation
        simp [Exchange.evaluation?, hrequest]
      · exact Exchange.not_stored_of_endpoint (by simp [Exchange.endpoint, hpath])
  | ok request =>
      obtain ⟨targets, w⟩ := request
      have hrender : outcome (svc.render now r) s = outcome (svc.renderTargets targets w) s := by
        rw [render, hrequest]
        rfl
      have hevaluation : ∀ response, (Exchange.mk now r s.storage response).evaluation? svc
          = some (outcome (svc.evaluator.evaluateTargets w targets) s.storage).1 := by
        intro response
        simp [Exchange.evaluation?, hrequest]
      rw [hrender, renderTargets, outcome_bind_ok (outcome_attempt _ s), targets_of_renderRequest hrequest]
      rw [targets_of_renderRequest hrequest] at hevaluation
      cases hresult : (outcome (svc.evaluator.evaluateTargets w (requestTargets r)) s.storage).1 with
      | ok series =>
          refine .targets ?_ ?_
          · exact decide_eq_true ⟨hpath, status_reply_ok r _⟩
          · apply Exchange.not_failed_of_evaluation
            simp [hevaluation, hresult]
      | error e =>
          refine .failures ?_ ?_
          · apply Exchange.not_rendered_of_status
            have hstatus : (reply r (.error (.ofQuery e))).status ≠ 200 := by
              rw [status_reply_error]
              rcases status_ofQuery e with h | h <;> simp [h]
            exact hstatus
          · rw [Exchange.failed_iff]
            exact ⟨hpath, e, by rw [hevaluation, hresult]⟩

theorem post_of_admits {m : Method} (h : admits .datapoints m = true) : m = .post := by
  cases m <;> first | rfl | cases h

theorem adds_write (hpath : Endpoint.ofPath? r.path = some .datapoints)
    (hmethod : admits .datapoints r.method = true) :
    Exchange.Adds svc ⟨now, r, s.storage, reply r (outcome (svc.write r) s).1⟩ s.counters
      (outcome (svc.write r) s).2.counters := by
  have hother : ∀ response, (Exchange.mk now r s.storage response).endpoint ≠ some .render := by
    intro response
    simp [Exchange.endpoint, hpath]
  have hrefused : ∀ f : Refusal, f.status ≠ 204 →
      Exchange.Adds svc ⟨now, r, s.storage, reply r (.error f)⟩ s.counters s.counters := by
    intro f hstatus
    rw [← status_reply_error r] at hstatus
    exact .nothing (Exchange.not_rendered_of_endpoint (hother _))
      (Exchange.not_failed_of_endpoint (hother _)) (Exchange.not_stored_of_status hstatus)
  cases hmetric : requestMetric r with
  | error f =>
      have hwrite : outcome (svc.write r) s = (.error f, s) := by
        rw [write, hmetric]
        rfl
      rw [hwrite]
      apply hrefused
      rw [bad_of_requestMetric hmetric]
      exact (by decide : 400 ≠ 204)
  | ok m =>
      have hask := outcome_ask s .ofQuery (svc.store.insert m)
      have hsamples : requestSamples r = m.samples := by rw [requestSamples, hmetric]
      rw [write, hmetric, outcome_bind_ok (outcome_liftExcept_ok id m s)]
      cases hinsert : (outcome (svc.store.insert m) s.storage).1 with
      | ok _ =>
          rw [hinsert] at hask
          rw [outcome_bind_ok hask, ← hsamples]
          exact .samples (decide_eq_true ⟨post_of_admits hmethod, hpath, status_reply_ok r _⟩)
      | error e =>
          rw [hinsert] at hask
          rw [outcome_bind_error hask]
          apply hrefused
          rcases status_ofQuery e with h | h <;> simp [h]

theorem counters_answerAt {e : Endpoint} (hrender : e ≠ .render) (hwrite : e ≠ .datapoints) :
    (outcome (svc.answerAt now r e) s).2.counters = s.counters := by
  cases e with
  | render => exact absurd rfl hrender
  | datapoints => exact absurd rfl hwrite
  | ping =>
      have hask := outcome_ask s (fun e => .unavailable e.message) svc.store.ping
      change (outcome svc.ping s).2.counters = _
      cases hping : (outcome svc.store.ping s.storage).1 with
      | ok _ =>
          rw [hping] at hask
          rw [ping, outcome_bind_ok hask]
          rfl
      | error e =>
          rw [hping] at hask
          rw [ping, outcome_bind_error hask]
  | inspect => rfl
  | metrics => rfl
  | healthy => rfl

theorem evaluation?_of_not_admits (h : admits .render r.method = false) (found : σ) (response : Response) :
    (Exchange.mk now r found response).evaluation? svc = none := by
  have hrequest : ∃ f, renderRequest r now = .error f := by
    cases hmethod : r.method with
    | get => simp [hmethod, admits] at h
    | head => simp [hmethod, admits] at h
    | post => simp [hmethod, admits] at h
    | other name =>
        refine ⟨.badRequest "only GET and POST are supported", ?_⟩
        rw [renderRequest, renderPairs, hmethod]
        rfl
  obtain ⟨f, hf⟩ := hrequest
  simp [Exchange.evaluation?, hf]

-- An answer comes from one endpoint, or from none if there is no such path or it does not take the method.
theorem adds_answer (r : Request) :
    Exchange.Adds svc ⟨now, r, s.storage, ((svc.answer now r).run s).1⟩ s.counters
      ((svc.answer now r).run s).2.counters := by
  cases hpath : Endpoint.ofPath? r.path with
  | none =>
      have hnone : ∀ e : Endpoint, (Exchange.mk now r s.storage (.empty 404)).endpoint ≠ some e := by
        intro e
        simp [Exchange.endpoint, hpath]
      rw [svc.answer_of_missing now s hpath]
      exact .elsewhere (hnone .render) (hnone .datapoints)
  | some e =>
      cases hmethod : admits e r.method with
      | false =>
          rw [svc.answer_of_not_admits now s hpath hmethod]
          have hrendered : 405 ≠ 200 := by decide
          have hstored : 405 ≠ 204 := by decide
          refine .nothing (Exchange.not_rendered_of_status hrendered) ?_
            (Exchange.not_stored_of_status hstored)
          by_cases hrender : e = .render
          · subst hrender
            apply Exchange.not_failed_of_evaluation
            simp [svc.evaluation?_of_not_admits now hmethod]
          · exact Exchange.not_failed_of_endpoint (by simpa [Exchange.endpoint, hpath] using hrender)
      | true =>
          rw [svc.answer_eq now s hpath hmethod]
          by_cases hrender : e = .render
          · subst hrender
            exact svc.adds_render now s hpath
          by_cases hwrite : e = .datapoints
          · subst hwrite
            exact svc.adds_write now s hpath hmethod
          · rw [svc.counters_answerAt now s hrender hwrite]
            apply Exchange.Adds.elsewhere
            · simpa [Exchange.endpoint, hpath] using hrender
            · simpa [Exchange.endpoint, hpath] using hwrite

theorem handle_eq (r : Request) :
    (svc.handle now r).run s = (((svc.answer now r).run s).1,
      ((svc.answer now r).run s).2.counting r ((svc.answer now r).run s).1) := by
  rw [handle, StateT.run_bind]
  rfl

def serve (svc : Service σ) :
    List (Timestamp × Request) → StateM (ServiceState σ) (List (Exchange σ))
  | [] => return []
  | (now, r) :: rest => do
    let found := (← get).storage
    let response ← svc.handle now r
    return ⟨now, r, found, response⟩ :: (← svc.serve rest)

theorem serve_cons (r : Request) (requests : List (Timestamp × Request)) :
    (svc.serve ((now, r) :: requests)).run s
      = (⟨now, r, s.storage, ((svc.handle now r).run s).1⟩ ::
          ((svc.serve requests).run ((svc.handle now r).run s).2).1,
        ((svc.serve requests).run ((svc.handle now r).run s).2).2) := by
  rw [serve, StateT.run_bind]
  rfl

end Service

-- Whether counters account for the requests that were served.
structure Accounts (svc : Service σ) (c : Counters) (served : List (Exchange σ)) : Prop where
  once : (c.requests.map Prod.fst).Nodup ∧ (c.renders.map Prod.fst).Nodup
  total : (c.requests.map Prod.snd).sum = served.length
  answered : ∀ labels, c.requests.count labels = served.countP (·.labels = labels)
  datapoints : c.datapoints
    = ((served.filter (·.stored)).map fun x => (requestSamples x.request).length).sum
  succeeded : c.renders.count .success
    = ((served.filter (·.rendered)).map fun x => (requestTargets x.request).length).sum
  failed : c.renders.count .error
    = ((served.filter (·.failed svc)).map fun x => (requestTargets x.request).length).sum

namespace Accounts

variable {svc : Service σ} {c c' : Counters} {served : List (Exchange σ)} {x : Exchange σ}

theorem zero (svc : Service σ) : Accounts svc .zero [] where
  once := ⟨List.nodup_nil, List.nodup_nil⟩
  total := rfl
  answered := fun _ => rfl
  datapoints := rfl
  succeeded := rfl
  failed := rfl

theorem sum_filter_append (p : Exchange σ → Bool) (n : Exchange σ → Nat) (served : List (Exchange σ))
    (x : Exchange σ) :
    (((served ++ [x]).filter p).map n).sum = ((served.filter p).map n).sum + if p x then n x else 0 := by
  cases h : p x <;> simp [List.filter_append, h]

theorem append (h : Accounts svc c served) (hadds : x.Adds svc c c') :
    Accounts svc (c'.countRequest x.labels) (served ++ [x]) where
  once := by
    rw [Counters.countRequest, hadds.requests]
    exact ⟨Tally.nodup_labels_add _ _ h.once.1, hadds.once h.once.2⟩
  total := by
    rw [Counters.countRequest, hadds.requests, Tally.sum_add, h.total, List.length_append,
      List.length_singleton]
  answered := by
    intro labels
    rw [Counters.countRequest, hadds.requests, Tally.count_add, h.answered, List.countP_append,
      List.countP_singleton]
    by_cases hlabels : x.labels = labels
    · simp [hlabels]
    · simp [hlabels, Ne.symm hlabels]
  datapoints := by rw [sum_filter_append, ← h.datapoints, ← hadds.datapoints]; rfl
  succeeded := by rw [sum_filter_append, ← h.succeeded, ← hadds.succeeded]; rfl
  failed := by rw [sum_filter_append, ← h.failed, ← hadds.failed]; rfl

end Accounts

theorem accounts_serve_from (svc : Service σ) (requests : List (Timestamp × Request))
    {s : ServiceState σ} {served : List (Exchange σ)} (h : Accounts svc s.counters served) :
    ∃ exchanges after, (svc.serve requests).run s = (exchanges, after) ∧
      exchanges.map (fun x => (x.now, x.request)) = requests ∧
      Accounts svc after.counters (served ++ exchanges) := by
  induction requests generalizing s served with
  | nil => exact ⟨[], s, rfl, rfl, by rwa [List.append_nil]⟩
  | cons request requests ih =>
      obtain ⟨now, r⟩ := request
      cases hanswer : (svc.answer now r).run s with
      | mk response next =>
          have hadds := svc.adds_answer now s r
          rw [hanswer] at hadds
          let x : Exchange σ := ⟨now, r, s.storage, response⟩
          obtain ⟨exchanges, after, hrun, hrequests, haccounts⟩ :=
            ih (s := next.counting r response) (h.append hadds)
          refine ⟨x :: exchanges, after, ?_, ?_, ?_⟩
          · rw [svc.serve_cons, svc.handle_eq, hanswer, hrun]
          · rw [List.map_cons, hrequests]
          · rwa [List.append_assoc] at haccounts

-- What a request is counted under.
structure Exchange.Labelled (x : Exchange σ) : Prop where
  endpoint : ∀ e, x.labels.endpoint = some e ↔ x.request.path = e.path
  get : x.labels.method = .get ↔ x.request.method = .get
  post : x.labels.method = .post ↔ x.request.method = .post
  status : x.labels.status = x.response.status

theorem Exchange.labelled (x : Exchange σ) : x.Labelled where
  endpoint e := Endpoint.ofPath?_eq_some_iff
  get := by
    rw [labels]
    cases x.request.method <;> simp [MethodClass.of]
  post := by
    rw [labels]
    cases x.request.method <;> simp [MethodClass.of]
  status := rfl

-- From counters at zero on, the counters account for every request that was served.
theorem accounts_serve (svc : Service σ) (requests : List (Timestamp × Request)) (storage : σ) :
    ∃ exchanges after, (svc.serve requests).run ⟨.zero, storage⟩ = (exchanges, after) ∧
      exchanges.map (fun x => (x.now, x.request)) = requests ∧
      (∀ x ∈ exchanges, x.Labelled) ∧ Accounts svc after.counters exchanges := by
  obtain ⟨exchanges, after, hrun, hrequests, haccounts⟩ :=
    accounts_serve_from svc requests (s := ⟨.zero, storage⟩) (Accounts.zero svc)
  exact ⟨exchanges, after, hrun, hrequests, fun x _ => x.labelled, haccounts⟩

end Cadence
