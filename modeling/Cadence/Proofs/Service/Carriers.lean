import Cadence.Proofs.Service.Accounts

namespace Cadence

open Http Service

variable {σ α β : Type}

-- Where a request for rendering has its parameters. The type of a form may have parameters of its own.
inductive Carries (parameters : String) (r : Request) : Prop
  | address (path : Endpoint.ofPath? r.path = some .render) (method : r.method = .get)
      (query : r.query = parameters)
  | form {type : String} (path : Endpoint.ofPath? r.path = some .render) (method : r.method = .post)
      (header : (r.header? "content-type").bind visible? = some type)
      (isForm : type.startsWith "application/x-www-form-urlencoded" = true) (body : r.body = parameters)

namespace Carries

variable {parameters : String} {r r' : Request}

theorem path_eq (h : Carries parameters r) : Endpoint.ofPath? r.path = some .render := by
  cases h <;> assumption

theorem renderPairs_eq (h : Carries parameters r) : renderPairs r = .ok (Form.pairs parameters) := by
  cases h with
  | address _ method query => rw [renderPairs, method, query]
  | form _ method header isForm body =>
      rw [renderPairs, method]
      simp only [header, isForm, if_true, body]

theorem admits_render (h : Carries parameters r) : admits .render r.method = true := by
  cases h with
  | address _ method _ => rw [method]; rfl
  | form _ method _ _ _ => rw [method]; rfl

theorem reply_eq (h : Carries parameters r) (h' : Carries parameters r')
    (result : Except Refusal Response) : reply r result = reply r' result := by
  have hwhole : ∀ {r : Request}, Carries parameters r → r.method ≠ .head := by
    intro r h
    cases h with
    | address _ method _ => simp [method]
    | form _ method _ _ _ => simp [method]
  simp only [reply, hwhole h, hwhole h', if_false]

-- An answer depends on a request for rendering by its parameters only.
theorem answer_eq (h : Carries parameters r) (h' : Carries parameters r') (svc : Service σ)
    (now : Timestamp) (s : ServiceState σ) : (svc.answer now r).run s = (svc.answer now r').run s := by
  have hrender : svc.answerAt now r .render = svc.answerAt now r' .render := by
    change svc.render now r = svc.render now r'
    rw [render, render, renderRequest, renderRequest, h.renderPairs_eq, h'.renderPairs_eq]
  rw [svc.answer_eq now s h.path_eq h.admits_render, svc.answer_eq now s h'.path_eq h'.admits_render,
    h.reply_eq h', hrender]

end Carries

-- A request for the head alone comes to the handler and is refused there.
theorem Service.answer_head (svc : Service σ) (now : Timestamp) {r : Request} (s : ServiceState σ)
    (hpath : Endpoint.ofPath? r.path = some .render) (hmethod : r.method = .head) :
    (svc.answer now r).run s = (⟨400, some "application/json", ""⟩, s) := by
  have hrender : outcome (svc.answerAt now r .render) s
      = (.error (.badRequest "only GET and POST are supported"), s) := by
    change outcome (svc.render now r) s = _
    rw [render, renderRequest, renderPairs, hmethod]
    rfl
  rw [svc.answer_eq now s hpath (by rw [hmethod]; rfl), hrender, reply, if_pos hmethod]
  rfl

-- Two states that differ at most in how requests were counted.
structure Alike (s s' : ServiceState σ) : Prop where
  storage : s.storage = s'.storage
  renders : s.counters.renders = s'.counters.renders
  datapoints : s.counters.datapoints = s'.counters.datapoints

theorem Alike.counting {s s' : ServiceState σ} (h : Alike s s') (r r' : Request)
    (response response' : Response) : Alike (s.counting r response) (s'.counting r' response') :=
  ⟨h.storage, h.renders, h.datapoints⟩

-- A step that takes no notice of how requests were counted.
def Blind (act : Answer σ α) : Prop :=
  ∀ s s', Alike s s' → (outcome act s).1 = (outcome act s').1 ∧ Alike (outcome act s).2 (outcome act s').2

namespace Blind

theorem pure (a : α) : Blind (σ := σ) (pure a) := fun _ _ h => ⟨rfl, h⟩

theorem throw (f : Refusal) : Blind (σ := σ) (α := α) (throw f) := fun _ _ h => ⟨rfl, h⟩

theorem bind {act : Answer σ α} {f : α → Answer σ β} (hact : Blind act) (hf : ∀ a, Blind (f a)) :
    Blind (act >>= f) := by
  intro s s' h
  obtain ⟨hresult, hnext⟩ := hact s s' h
  cases hs : outcome act s with
  | mk result next =>
      cases hs' : outcome act s' with
      | mk result' next' =>
          rw [hs, hs'] at hresult hnext
          obtain rfl : result = result' := hresult
          cases result with
          | ok a =>
              rw [outcome_bind_ok hs, outcome_bind_ok hs']
              exact hf a next next' hnext
          | error e =>
              rw [outcome_bind_error hs, outcome_bind_error hs']
              exact ⟨rfl, hnext⟩

theorem liftExcept (result : Except Refusal α) : Blind (σ := σ) (liftExcept id result) := by
  intro s s' h
  rw [outcome_liftExcept, outcome_liftExcept]
  exact ⟨rfl, h⟩

theorem attempt (q : Query σ α) : Blind (attempt q) := by
  intro s s' h
  rw [outcome_attempt, outcome_attempt, h.storage]
  exact ⟨rfl, rfl, h.renders, h.datapoints⟩

theorem ask (fail : QueryError → Refusal) (q : Query σ α) : Blind (ask fail q) := by
  intro s s' h
  rw [outcome_ask, outcome_ask, h.storage]
  exact ⟨rfl, rfl, h.renders, h.datapoints⟩

theorem countTargets (o : Outcome) (n : Nat) : Blind (σ := σ) (count (·.countTargets o n)) :=
  fun _ _ h => ⟨rfl, h.storage, congrArg (·.add o n) h.renders, h.datapoints⟩

theorem countDatapoints (n : Nat) : Blind (σ := σ) (count (·.countDatapoints n)) :=
  fun _ _ h => ⟨rfl, h.storage, h.renders, congrArg (· + n) h.datapoints⟩

theorem render (svc : Service σ) (now : Timestamp) (r : Request) : Blind (svc.render now r) := by
  refine (liftExcept (renderRequest r now)).bind fun (targets, w) => ?_
  refine (attempt (svc.evaluator.evaluateTargets w targets)).bind fun result => ?_
  cases result with
  | ok series => exact (countTargets .success targets.length).bind fun _ => .pure _
  | error e => exact (countTargets .error targets.length).bind fun _ => .throw _

theorem write (svc : Service σ) (r : Request) : Blind (svc.write r) :=
  (liftExcept (requestMetric r)).bind fun m =>
    (ask .ofQuery (svc.store.insert m)).bind fun _ =>
      (countDatapoints m.samples.length).bind fun _ => .pure _

-- Only the page of counters tells how requests were counted.
theorem answerAt (svc : Service σ) (now : Timestamp) (r : Request) {e : Endpoint} (he : e ≠ .metrics) :
    Blind (svc.answerAt now r e) := by
  cases e with
  | ping => exact (ask _ svc.store.ping).bind fun _ => .pure _
  | inspect => exact .pure _
  | render => exact render svc now r
  | datapoints => exact write svc r
  | metrics => exact absurd rfl he
  | healthy => exact .pure _

end Blind

-- Requests that differ at most in how they carry the parameters for rendering.
inductive Recarried : Request → Request → Prop
  | same (r : Request) : Recarried r r
  | carried {parameters : String} {r r' : Request} (left : Carries parameters r)
      (right : Carries parameters r') : Recarried r r'

theorem Alike.answer {s s' : ServiceState σ} (h : Alike s s') (svc : Service σ) (now : Timestamp)
    (r : Request) :
    (Endpoint.ofPath? r.path ≠ some .metrics →
      ((svc.answer now r).run s).1 = ((svc.answer now r).run s').1) ∧
    Alike ((svc.answer now r).run s).2 ((svc.answer now r).run s').2 := by
  cases hpath : Endpoint.ofPath? r.path with
  | none =>
      rw [svc.answer_of_missing now s hpath, svc.answer_of_missing now s' hpath]
      exact ⟨fun _ => rfl, h⟩
  | some e =>
      cases hmethod : admits e r.method with
      | false =>
          rw [svc.answer_of_not_admits now s hpath hmethod, svc.answer_of_not_admits now s' hpath hmethod]
          exact ⟨fun _ => rfl, h⟩
      | true =>
          rw [svc.answer_eq now s hpath hmethod, svc.answer_eq now s' hpath hmethod]
          by_cases hmetrics : e = .metrics
          · subst hmetrics
            exact ⟨fun hother => absurd rfl hother, h⟩
          · obtain ⟨hresult, hnext⟩ := Blind.answerAt svc now r hmetrics s s' h
            rw [hresult]
            exact ⟨fun _ => rfl, hnext⟩

theorem Alike.handle {s s' : ServiceState σ} (h : Alike s s') {r r' : Request} (hr : Recarried r r')
    (svc : Service σ) (now : Timestamp) :
    (Endpoint.ofPath? r.path ≠ some .metrics →
      ((svc.handle now r).run s).1 = ((svc.handle now r').run s').1) ∧
    Alike ((svc.handle now r).run s).2 ((svc.handle now r').run s').2 := by
  have hanswer : (svc.answer now r').run s' = (svc.answer now r).run s' := by
    cases hr with
    | same => rfl
    | carried left right => exact right.answer_eq left svc now s'
  obtain ⟨hresponse, hnext⟩ := h.answer svc now r
  rw [svc.handle_eq, svc.handle_eq, hanswer]
  exact ⟨hresponse, hnext.counting _ _ _ _⟩

-- How a request and the one in its place are served.
structure ServedAlike (x x' : Exchange σ) : Prop where
  now : x.now = x'.now
  found : x.found = x'.found
  response : x.endpoint ≠ some .metrics → x.response = x'.response

-- However the requests of a run carry their parameters, they find the same storage and are answered alike,
-- and the run leaves the same storage.
theorem Alike.serve (svc : Service σ) {requests requests' : List (Timestamp × Request)}
    (hrequests : List.Forall₂ (fun x x' => x.1 = x'.1 ∧ Recarried x.2 x'.2) requests requests')
    {s s' : ServiceState σ} (h : Alike s s') :
    List.Forall₂ ServedAlike ((svc.serve requests).run s).1 ((svc.serve requests').run s').1 ∧
      Alike ((svc.serve requests).run s).2 ((svc.serve requests').run s').2 := by
  induction hrequests generalizing s s' with
  | nil => exact ⟨.nil, h⟩
  | @cons x x' requests requests' hx _ ih =>
      obtain ⟨now, r⟩ := x
      obtain ⟨_, r'⟩ := x'
      obtain ⟨rfl, hr⟩ := hx
      obtain ⟨hresponse, hnext⟩ := h.handle hr svc now
      obtain ⟨hserved, hafter⟩ := ih hnext
      rw [svc.serve_cons, svc.serve_cons]
      exact ⟨.cons ⟨rfl, h.storage, hresponse⟩ hserved, hafter⟩

-- GET and POST are answered alike and leave the same state but for the count of the request; HEAD is refused
-- and leaves nothing but that count.
theorem handle_carried (svc : Service σ) (now : Timestamp) (s : ServiceState σ) (parameters : String) :
    (∃ (response : Response) (next : ServiceState σ), ∀ r, Carries parameters r →
      (svc.handle now r).run s = (response, next.counting r response)) ∧
    ∀ r : Request, Endpoint.ofPath? r.path = some .render → r.method = .head →
      ∃ refused : Response, refused.status = 400 ∧ refused.body = "" ∧
        (svc.handle now r).run s = (refused, s.counting r refused) := by
  refine ⟨?_, fun r hpath hmethod => ?_⟩
  · let get : Request := ⟨.get, Endpoint.render.path, parameters, [], ""⟩
    have hpath : Endpoint.ofPath? Endpoint.render.path = some .render := by decide
    have hget : Carries parameters get := .address hpath rfl rfl
    refine ⟨((svc.answer now get).run s).1, ((svc.answer now get).run s).2, fun r hr => ?_⟩
    rw [svc.handle_eq, hr.answer_eq hget]
  · refine ⟨⟨400, some "application/json", ""⟩, rfl, rfl, ?_⟩
    rw [svc.handle_eq, svc.answer_head now s hpath hmethod]

-- After a write: parameters in an address, in a form whose type has a character set, and for the head alone.
theorem handle_carried_written :
    ∃ db, Reached db ∧ ∃ (response refused : Response) (next : ServiceState Database),
      ((Service.ofBackend Keyed.backend .standard).handle 0
          ⟨.get, "/render", "target=m&from=0&until=60", [], ""⟩).run ⟨.zero, db⟩
        = (response, next.counting ⟨.get, "/render", "target=m&from=0&until=60", [], ""⟩ response) ∧
      ((Service.ofBackend Keyed.backend .standard).handle 0
          ⟨.post, "/render", "", [("Accept", "*/*"),
            ("Content-Type", "application/x-www-form-urlencoded; charset=utf-8")],
            "target=m&from=0&until=60"⟩).run ⟨.zero, db⟩
        = (response, next.counting ⟨.post, "/render", "", [], ""⟩ response) ∧
      refused.status = 400 ∧ refused.body = "" ∧
      ((Service.ofBackend Keyed.backend .standard).handle 0
          ⟨.head, "/render", "target=m&from=0&until=60", [], ""⟩).run ⟨.zero, db⟩
        = (refused, ServiceState.counting ⟨.zero, db⟩ ⟨.head, "/render", "", [], ""⟩ refused) := by
  have hreached := Reached.empty.leaves ⟨Config.standard.settings, ⟨"m", [⟨0, 1⟩]⟩⟩
  obtain ⟨⟨response, next, hrun⟩, hhead⟩ := handle_carried (Service.ofBackend Keyed.backend .standard) 0
    ⟨.zero, _⟩ "target=m&from=0&until=60"
  obtain ⟨refused, hstatus, hbody, hrefused⟩ :=
    hhead ⟨.head, "/render", "target=m&from=0&until=60", [], ""⟩ (by decide) rfl
  refine ⟨_, hreached, response, refused, next, hrun _ (.address (by decide) rfl rfl), ?_, hstatus,
    hbody, hrefused⟩
  have hform : "application/x-www-form-urlencoded; charset=utf-8".startsWith
      "application/x-www-form-urlencoded" = true := by decide +kernel
  exact hrun _ (.form (by decide) rfl (by decide +kernel) hform rfl)

-- Parameters that GET is answered for and HEAD is not.
theorem head_not_carried :
    (((Service.ofBackend Keyed.backend .standard).handle 0
        ⟨.get, "/render", "target=a&target=b&from=0&until=60", [], ""⟩).run
      ⟨.zero, .empty (some Sample.mergeRule)⟩).1.status = 200 ∧
    (((Service.ofBackend Keyed.backend .standard).handle 0
        ⟨.head, "/render", "target=a&target=b&from=0&until=60", [], ""⟩).run
      ⟨.zero, .empty (some Sample.mergeRule)⟩).1.status = 400 := by
  refine ⟨?_, ?_⟩
  · have hpath : Endpoint.ofPath? "/render" = some .render := by decide
    have hrequest : renderRequest ⟨.get, "/render", "target=a&target=b&from=0&until=60", [], ""⟩ 0
        = .ok (["a", "b"], ⟨0, 60⟩) := by decide +kernel
    have hpartitions : (⟨0, 60⟩ : Window).partitions Config.standard.settings.tablePrefix
        = .ok [⟨"diamondb.timeseries-1m1h-0", 0⟩] := rfl
    have hfetch : ∀ pattern, ∃ series, outcome (Keyed.backend.series Config.standard.settings pattern ⟨0, 60⟩)
        (.empty (some Sample.mergeRule)) = (.ok series, .empty (some Sample.mergeRule)) := by
      intro pattern
      obtain ⟨series, hseries, -⟩ := exists_series_iff Keyed.contents_empty hpartitions (by decide) pattern
      exact ⟨series, hseries⟩
    obtain ⟨_, hparts⟩ := (Service.ofBackend Keyed.backend .standard).evaluator.exists_outcome_targetParts
      Schedule.inOrder_fair ["a", "b"] fun pattern _ => hfetch (Evaluator.leafPattern pattern)
    have hrun := Evaluator.outcome_evaluateTargets (Service.ofBackend Keyed.backend .standard).evaluator
      ⟨0, 60⟩ Evaluator.mapM_parse_names (.empty (some Sample.mergeRule))
    rw [List.map_cons, List.map_cons, List.map_nil] at hparts
    rw [hparts] at hrun
    rw [Service.handle_eq, Service.answer_eq _ _ _ hpath rfl]
    change (reply _ (outcome (Service.render _ _ _) _).1).status = 200
    rw [render, hrequest]
    change (reply _ (outcome (Service.renderTargets _ _ _) _).1).status = 200
    rw [renderTargets, outcome_bind_ok (outcome_attempt _ _), hrun]
    exact status_reply_ok _ _
  · rw [Service.handle_eq, Service.answer_head _ _ _ (by decide) rfl]

end Cadence
