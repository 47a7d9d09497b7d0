import Cadence.Proofs.Store.Series
import Cadence.Proofs.Store.Writers
import Cadence.Service

namespace Cadence

open Keyed

def StoreSettings.evaluator (settings : StoreSettings) (schedule : Schedule) : Evaluator Database :=
  ⟨(Store.ofBackend backend settings).fetch, .builtin, schedule⟩

def StoreSettings.evaluatorInWords (settings : StoreSettings) (schedule : Schedule) :
    Evaluator Database :=
  { settings.evaluator schedule with registry := .inWords }

def Service.inWords (config : Config) : Service Database :=
  { Service.ofBackend backend config with evaluator := config.settings.evaluatorInWords .inOrder }

theorem Schedule.inOrder_fair : Schedule.inOrder.Fair := fun _ _ => .refl _

variable {db : Database} {tables : List String} {log : List Entry}

theorem agrees_inWords (hc : Contents db tables log) (settings : StoreSettings) {schedule : Schedule}
    (hfair : schedule.Fair) {w : Window} (hstart : Timestamp.lowest ≤ w.firstSlot) :
    Evaluator.Agrees (Grid.Fits w) w (settings.evaluator schedule)
      (settings.evaluatorInWords schedule) db :=
  ⟨hfair, rfl, Registry.inWords_agrees w, safe_series hc settings hstart⟩

namespace Service

theorem bad_of_renderPairs {r : Http.Request} {f : Refusal} (h : renderPairs r = .error f) :
    f = .badRequest f.message := by
  unfold renderPairs at h
  split at h
  · cases h
  · split at h
    · split at h
      · cases h
      · cases h
        rfl
    · cases h
      rfl
  · cases h
    rfl

theorem isClientError_of_renderWindow {p : RenderParameters} {now : Timestamp} {e : QueryError}
    (h : renderWindow p now = .error e) : e.isClientError = true := by
  unfold renderWindow at h
  rcases error_or_exists_of_bind_eq_error h with h | ⟨since, -, h⟩
  · obtain ⟨_, -, rfl⟩ := exists_of_mapError_eq_error h
    rfl
  · rcases error_or_exists_of_bind_eq_error h with h | ⟨until_, -, h⟩
    · obtain ⟨_, -, rfl⟩ := exists_of_mapError_eq_error h
      rfl
    · split at h
      · cases h
        rfl
      · rcases error_or_exists_of_bind_eq_error h with h | ⟨_, -, h⟩
        · obtain ⟨_, -, rfl⟩ := exists_of_mapError_eq_error h
          rfl
        · cases h

theorem ofQuery_eq_badRequest {e : QueryError} (h : e.isClientError = true) :
    Refusal.ofQuery e = .badRequest e.message := by
  rw [Refusal.ofQuery, if_pos h, Refusal.badRequest]

theorem bad_of_renderRequest {r : Http.Request} {now : Timestamp} {f : Refusal}
    (h : renderRequest r now = .error f) : f = .badRequest f.message := by
  unfold renderRequest at h
  rcases error_or_exists_of_bind_eq_error h with h | ⟨pairs, -, h⟩
  · exact bad_of_renderPairs h
  · simp only at h
    split at h
    · cases h
      rfl
    · rcases error_or_exists_of_bind_eq_error h with h | ⟨w, -, h⟩
      · obtain ⟨e, he, rfl⟩ := exists_of_mapError_eq_error h
        rw [ofQuery_eq_badRequest (isClientError_of_renderWindow he)]
        rfl
      · cases h

theorem outcome_attempt {σ α : Type} (q : Query σ α) (s : ServiceState σ) :
    outcome (attempt q) s
      = (.ok (outcome q s.storage).1, { s with storage := (outcome q s.storage).2 }) := rfl

-- What rendering comes to: an answer, or the refusal of a bad request. The storage stays as it is.
inductive Rendered (s : ServiceState Database) : Except Refusal Http.Response × ServiceState Database → Prop
  | answered {body counters} : Rendered s (.ok (.json 200 body), ⟨counters, s.storage⟩)
  | refused {message counters} : Rendered s (.error (.badRequest message), ⟨counters, s.storage⟩)

variable {svc svc' : Service Database} {now : Timestamp} {r : Http.Request} {s : ServiceState Database}

theorem renderTargets_of_agrees {w : Window}
    (h : Evaluator.Agrees (Grid.Fits w) w svc.evaluator svc'.evaluator s.storage)
    (targets : List String) :
    outcome (svc'.renderTargets targets w) s = outcome (svc.renderTargets targets w) s ∧
      Rendered s (outcome (svc.renderTargets targets w) s) := by
  obtain ⟨hsame, hkeeps, hsound⟩ := h.evaluateTargets targets
  have hattempt := outcome_attempt (svc.evaluator.evaluateTargets w targets) s
  have hattempt' := outcome_attempt (svc'.evaluator.evaluateTargets w targets) s
  rw [hsame] at hattempt'
  rw [renderTargets, renderTargets, outcome_bind_ok hattempt, outcome_bind_ok hattempt']
  cases hevaluate : outcome (svc.evaluator.evaluateTargets w targets) s.storage with
  | mk result storage =>
      rw [hevaluate] at hkeeps hsound
      obtain rfl : storage = s.storage := hkeeps
      cases result with
      | ok series => exact ⟨rfl, .answered⟩
      | error e =>
          have hrefused : Rendered s (.error (.ofQuery e),
              ⟨s.counters.countTargets .error targets.length, s.storage⟩) := by
            rw [ofQuery_eq_badRequest hsound]
            exact .refused
          exact ⟨rfl, hrefused⟩

theorem render_of_agrees (h : ∀ targets w, renderRequest r now = .ok (targets, w) →
      Evaluator.Agrees (Grid.Fits w) w svc.evaluator svc'.evaluator s.storage) :
    outcome (svc'.render now r) s = outcome (svc.render now r) s ∧
      Rendered s (outcome (svc.render now r) s) := by
  cases hrequest : renderRequest r now with
  | error f =>
      have hrender : ∀ svc : Service Database, outcome (svc.render now r) s = (.error f, s) := by
        intro svc
        rw [render, hrequest]
        rfl
      rw [hrender svc, hrender svc', bad_of_renderRequest hrequest]
      exact ⟨rfl, .refused⟩
  | ok request =>
      obtain ⟨targets, w⟩ := request
      have hrender : ∀ svc : Service Database,
          outcome (svc.render now r) s = outcome (svc.renderTargets targets w) s := by
        intro svc
        rw [render, hrequest]
        rfl
      rw [hrender svc, hrender svc']
      exact renderTargets_of_agrees (h targets w hrequest) targets

def reply (r : Http.Request) (result : Except Refusal Http.Response) : Http.Response :=
  let response := match result with
    | .ok response => response
    | .error f => f.response
  if r.method = .head then response.withoutBody else response

theorem status_reply_ok (r : Http.Request) (response : Http.Response) :
    (reply r (.ok response)).status = response.status := by
  change (if r.method = .head then response.withoutBody else response).status = _
  split <;> rfl

theorem status_reply_error (r : Http.Request) (f : Refusal) :
    (reply r (.error f)).status = f.status :=
  status_reply_ok r f.response

theorem answer_eq {σ : Type} (svc : Service σ) (now : Timestamp) (s : ServiceState σ) {e : Endpoint}
    (hpath : Endpoint.ofPath? r.path = some e) (hmethod : admits e r.method = true) :
    (svc.answer now r).run s
      = (reply r (outcome (svc.answerAt now r e) s).1, (outcome (svc.answerAt now r e) s).2) := by
  cases hresult : outcome (svc.answerAt now r e) s with
  | mk result next =>
      have hrun : (svc.answerAt now r e).run.run s = (result, next) := hresult
      rw [answer, hpath]
      simp only [hmethod, Bool.not_true, Bool.false_eq_true, if_false]
      rw [StateT.run_bind, hrun]
      cases result <;> rfl

theorem answer_of_missing {σ : Type} (svc : Service σ) (now : Timestamp) (s : ServiceState σ)
    (hpath : Endpoint.ofPath? r.path = none) : (svc.answer now r).run s = (.empty 404, s) := by
  rw [answer, hpath]
  rfl

theorem answer_of_not_admits {σ : Type} (svc : Service σ) (now : Timestamp) (s : ServiceState σ)
    {e : Endpoint} (hpath : Endpoint.ofPath? r.path = some e) (hmethod : admits e r.method = false) :
    (svc.answer now r).run s = (.empty 405, s) := by
  rw [answer, hpath]
  simp only [hmethod, Bool.not_false, if_true]
  rfl

-- What is answered when rendering comes to a result.
def respond (r : Http.Request) (result : Except Refusal Http.Response × ServiceState Database) :
    Http.Response × ServiceState Database :=
  let response := reply r result.1
  (response, { result.2 with
    counters := result.2.counters.countRequest ⟨.of r.method, some .render, response.status⟩ })

theorem handle_eq_respond (svc : Service Database) (now : Timestamp) (s : ServiceState Database)
    (hpath : Endpoint.ofPath? r.path = some .render) (hmethod : admits .render r.method = true) :
    (svc.handle now r).run s = respond r (outcome (svc.render now r) s) := by
  rw [handle, StateT.run_bind, svc.answer_eq now s hpath hmethod, hpath]
  rfl

theorem Rendered.respond {result : Except Refusal Http.Response × ServiceState Database}
    (h : Rendered s result) (r : Http.Request) :
    (∃ counters, (respond r result).2 = ⟨counters, s.storage⟩) ∧
      ((respond r result).1.status = 200 ∨ (respond r result).1.status = 400) := by
  cases h with
  | answered => exact ⟨⟨_, rfl⟩, .inl (status_reply_ok r _)⟩
  | refused => exact ⟨⟨_, rfl⟩, .inr (status_reply_error r _)⟩

end Service

-- No read fails, a fetch fails only for its window, targets are evaluated or the request is at fault, and
-- rendering answers one of two statuses.
theorem only_requests_at_fault (h : Reached db) :
    (∀ (w : Window) (u : FetchUnit), ∃ part, outcome (u.run backend w) db = (.ok part, db)) ∧
    (∀ (settings : StoreSettings) (order : Nat → Fanout.Order),
      (∀ count, (order count).Perm (List.range count)) → ∀ pattern (w : Window),
        (∃ m, outcome (backend.fetchMap settings order pattern w) db = (.ok m, db)) ∨
        ∃ e, w.partitions settings.tablePrefix = .error e ∧
          outcome (backend.fetchMap settings order pattern w) db = (.error (.ofWindow e), db)) ∧
    (∀ (settings : StoreSettings) (schedule : Schedule), schedule.Fair →
      ∀ w : Window, Timestamp.lowest ≤ w.firstSlot → ∀ targets,
        Safe (fun series => ∀ s ∈ series, s.pointsInWords = some s.points)
          ((settings.evaluator schedule).evaluateTargets w targets)
          ((settings.evaluatorInWords schedule).evaluateTargets w targets) db) ∧
    ∀ (config : Config) (now : Timestamp) (r : Http.Request) (counters : Counters),
      Endpoint.ofPath? r.path = some .render → Service.admits .render r.method = true →
      (∀ targets w, Service.renderRequest r now = .ok (targets, w) →
        Timestamp.lowest ≤ w.firstSlot) →
      ∃ response counters',
        ((Service.ofBackend backend config).handle now r).run ⟨counters, db⟩
          = (response, ⟨counters', db⟩) ∧
        ((Service.inWords config).handle now r).run ⟨counters, db⟩ = (response, ⟨counters', db⟩) ∧
        (response.status = 200 ∨ response.status = 400) := by
  obtain ⟨tables, log, hf, -⟩ := h.filled
  have hc := hf.toContents
  refine ⟨FetchUnit.outcome_run hc, ?_, ?_, ?_⟩
  · intro settings order horder pattern w
    cases hpartitions : w.partitions settings.tablePrefix with
    | ok partitions => exact .inl ⟨_, outcome_fetchMap_eq hc horder hpartitions pattern⟩
    | error e =>
        exact .inr ⟨e, rfl, outcome_fetchMap_of_error settings order hpartitions pattern backend db⟩
  · intro settings schedule hfair w hstart targets
    have hsafe := (agrees_inWords hc settings hfair hstart).evaluateTargets targets
    exact hsafe.mono fun series hseries s hs => Series.Fits.pointsInWords_eq (hseries s hs)
  · intro config now r counters hpath hmethod hstart
    have hagrees : ∀ targets w, Service.renderRequest r now = .ok (targets, w) →
        Evaluator.Agrees (Grid.Fits w) w (Service.ofBackend backend config).evaluator
          (Service.inWords config).evaluator db :=
      fun targets w hrequest =>
        agrees_inWords hc config.settings Schedule.inOrder_fair (hstart targets w hrequest)
    let state : ServiceState Database := ⟨counters, db⟩
    obtain ⟨hsame, hrendered⟩ := Service.render_of_agrees (s := state) hagrees
    obtain ⟨⟨counters', hnext⟩, hstatus⟩ := hrendered.respond r
    rw [Service.handle_eq_respond _ _ _ hpath hmethod, Service.handle_eq_respond _ _ _ hpath hmethod,
      hsame]
    exact ⟨_, counters', Prod.ext rfl hnext, Prod.ext rfl hnext, hstatus⟩

-- A request for a metric that was written and for a function that there is not.
theorem only_requests_at_fault_written :
    ∃ db, Reached db ∧ ∃ response counters',
      ((Service.ofBackend backend .standard).handle 0
          ⟨.get, "/render", "target=m&target=nosuch(m)&from=0&until=60", [], ""⟩).run ⟨.zero, db⟩
        = (response, ⟨counters', db⟩) ∧ (response.status = 200 ∨ response.status = 400) := by
  have hreached := Reached.empty.leaves ⟨Config.standard.settings, ⟨"m", [⟨0, 1⟩]⟩⟩
  have hrequest : Service.renderRequest
      ⟨.get, "/render", "target=m&target=nosuch(m)&from=0&until=60", [], ""⟩ 0
      = .ok (["m", "nosuch(m)"], ⟨0, 60⟩) := by decide +kernel
  obtain ⟨-, -, -, hrender⟩ := only_requests_at_fault hreached
  obtain ⟨response, counters', hhandle, -, hstatus⟩ := hrender .standard 0
    ⟨.get, "/render", "target=m&target=nosuch(m)&from=0&until=60", [], ""⟩ .zero (by decide +kernel)
    (by decide +kernel) fun targets w hw => by
      rw [hrequest] at hw
      cases hw
      decide
  exact ⟨_, hreached, response, counters', hhandle, hstatus⟩

end Cadence
