import Cadence.Store.Basic

namespace Cadence

variable {ε δ α β σ : Type}

theorem mapM_eq_ok_iff (f : α → Except ε β) (xs : List α) (ys : List β) :
    xs.mapM f = .ok ys ↔ xs.map f = ys.map .ok := by
  induction xs generalizing ys with
  | nil => cases ys <;> simp [pure, Except.pure]
  | cons x xs ih =>
      rw [List.mapM_cons]
      cases hx : f x with
      | error e => cases ys <;> simp [bind, Except.bind, hx]
      | ok y =>
          cases hxs : xs.mapM f with
          | error e => cases ys <;> simp [bind, Except.bind, ← ih, hx, hxs]
          | ok rest => cases ys <;> simp [bind, Except.bind, pure, Except.pure, ← ih, hx, hxs]

theorem mem_iff_of_mapM {f : α → Except ε β} {xs : List α} {ys : List β} (h : xs.mapM f = .ok ys)
    (y : β) : y ∈ ys ↔ ∃ x ∈ xs, f x = .ok y := by
  have hok : (.ok y : Except ε β) ∈ xs.map f ↔ (.ok y : Except ε β) ∈ ys.map .ok := by
    rw [(mapM_eq_ok_iff f xs ys).mp h]
  simpa using hok.symm

theorem exists_mapM_eq_ok {f : α → Except ε β} {xs : List α} (h : ∀ x ∈ xs, ∃ y, f x = .ok y) :
    ∃ ys, xs.mapM f = .ok ys := by
  induction xs with
  | nil => exact ⟨[], rfl⟩
  | cons x xs ih =>
      obtain ⟨y, hy⟩ := h x (by simp)
      obtain ⟨ys, hys⟩ := ih fun z hz => h z (by simp [hz])
      exact ⟨y :: ys, by simp [bind, Except.bind, pure, Except.pure, hy, hys]⟩

theorem exists_of_bind_eq_ok {r : Except ε α} {f : α → Except ε β} {b : β} (h : r >>= f = .ok b) :
    ∃ a, r = .ok a ∧ f a = .ok b := by
  cases r with
  | ok a => exact ⟨a, rfl, h⟩
  | error e => cases h

theorem error_or_exists_of_bind_eq_error {r : Except ε α} {f : α → Except ε β} {e : ε}
    (h : r >>= f = .error e) : r = .error e ∨ ∃ a, r = .ok a ∧ f a = .error e := by
  cases r with
  | ok a => exact .inr ⟨a, rfl, h⟩
  | error e' =>
      cases h
      exact .inl rfl

theorem exists_of_mapError_eq_error {r : Except δ α} {f : δ → ε} {e : ε}
    (h : r.mapError f = .error e) : ∃ e', r = .error e' ∧ f e' = e := by
  cases r with
  | ok a => cases h
  | error e' => exact ⟨e', rfl, Except.error.inj h⟩

theorem exists_of_mapM_error {f : α → Except ε β} {xs : List α} {e : ε} (h : xs.mapM f = .error e) :
    ∃ x ∈ xs, f x = .error e := by
  induction xs with
  | nil => cases h
  | cons x xs ih =>
      rw [List.mapM_cons] at h
      cases hx : f x with
      | error e' =>
          rw [hx] at h
          cases h
          exact ⟨x, by simp, hx⟩
      | ok y =>
          cases hxs : xs.mapM f with
          | error e' =>
              rw [hx, hxs] at h
              cases h
              obtain ⟨z, hz, he⟩ := ih hxs
              exact ⟨z, by simp [hz], he⟩
          | ok ys =>
              rw [hx, hxs] at h
              cases h

theorem map_eq_of_mapM {f : α → Except ε β} {g : β → α} (hback : ∀ x y, f x = .ok y → g y = x)
    {xs : List α} {ys : List β} (h : xs.mapM f = .ok ys) : ys.map g = xs := by
  rw [mapM_eq_ok_iff] at h
  induction xs generalizing ys with
  | nil => rw [List.map_eq_nil_iff.mp h.symm, List.map_nil]
  | cons x xs ih =>
      cases ys with
      | nil => cases h
      | cons y ys =>
          obtain ⟨hfirst, hrest⟩ := List.cons.inj h
          rw [List.map_cons, hback x y hfirst, ih hrest]

theorem mapM_zipIdx_eq_ok {make : β → α} {f : α × Nat → Except ε β} (hread : ∀ y i, f (make y, i) = .ok y)
    (ys : List β) : (ys.map make).zipIdx.mapM f = .ok ys := by
  have hfirst : f ∘ Prod.map make id = Except.ok ∘ Prod.fst := funext fun p => hread p.1 p.2
  rw [mapM_eq_ok_iff, List.zipIdx_map, List.map_map, hfirst, ← List.map_map, List.zipIdx_map_fst]

theorem exists_of_map_eq_ok {f : α → β} {r : Except ε α} {b : β} (h : r.map f = .ok b) :
    ∃ a, r = .ok a ∧ f a = b := by
  cases r with
  | ok a =>
      cases h
      exact ⟨a, rfl, rfl⟩
  | error e => cases h

theorem map_toOption_eq_iff (results : List (Except ε α)) (values : List α) :
    results.map Except.toOption = values.map some ↔ results = values.map .ok := by
  constructor
  · intro h
    induction results generalizing values with
    | nil =>
        rw [List.map_eq_nil_iff.mp h.symm]
        rfl
    | cons result results ih =>
        cases values with
        | nil => cases h
        | cons value values =>
            obtain ⟨hfirst, hrest⟩ := List.cons.inj h
            rw [ih values hrest]
            cases result with
            | ok a =>
                cases hfirst
                rfl
            | error e => cases hfirst
  · rintro rfl
    rw [List.map_map]
    rfl

-- What an action yields in a state, and the state that it leaves.
def outcome (act : ExceptT ε (StateM σ) α) (s : σ) : Except ε α × σ := act.run.run s

theorem outcome_bind_ok {act : ExceptT ε (StateM σ) α} {s s' : σ} {a : α}
    (h : outcome act s = (.ok a, s')) (f : α → ExceptT ε (StateM σ) β) :
    outcome (act >>= f) s = outcome (f a) s' := by
  have hrun : act.run.run s = (.ok a, s') := h
  rw [outcome, ExceptT.run_bind, StateT.run_bind, hrun]
  rfl

theorem outcome_bind_error {act : ExceptT ε (StateM σ) α} {s s' : σ} {e : ε}
    (h : outcome act s = (.error e, s')) (f : α → ExceptT ε (StateM σ) β) :
    outcome (act >>= f) s = (.error e, s') := by
  have hrun : act.run.run s = (.error e, s') := h
  rw [outcome, ExceptT.run_bind, StateT.run_bind, hrun]
  rfl

theorem outcome_bind_congr {act : ExceptT ε (StateM σ) α} {f g : α → ExceptT ε (StateM σ) β}
    (h : ∀ a s, outcome (f a) s = outcome (g a) s) (s : σ) :
    outcome (act >>= f) s = outcome (act >>= g) s := by
  cases hact : outcome act s with
  | mk result s' =>
      cases result with
      | ok a => rw [outcome_bind_ok hact, outcome_bind_ok hact, h]
      | error e => rw [outcome_bind_error hact, outcome_bind_error hact]

theorem outcome_forM_flatMap {act : α → ExceptT ε (StateM σ) Unit}
    {small : β → ExceptT ε (StateM σ) Unit} {parts : α → List β}
    (h : ∀ x s, outcome (act x) s = outcome ((parts x).forM small) s) (xs : List α) (s : σ) :
    outcome (xs.forM act) s = outcome ((xs.flatMap parts).forM small) s := by
  induction xs generalizing s with
  | nil => rfl
  | cons x xs ih =>
      have hsplit : ((x :: xs).flatMap parts).forM small
          = (parts x).forM small >>= fun _ => (xs.flatMap parts).forM small := List.forM_append
      change outcome (act x >>= fun _ => xs.forM act) s = _
      rw [hsplit, outcome_bind_congr fun _ s => ih s]
      cases hact : outcome (act x) s with
      | mk result s' =>
          have hparts := (h x s).symm.trans hact
          cases result with
          | ok _ => rw [outcome_bind_ok hact, outcome_bind_ok hparts]
          | error e => rw [outcome_bind_error hact, outcome_bind_error hparts]

-- What follows an action and leaves the state alone only turns its result into another.
theorem outcome_bind {act : ExceptT ε (StateM σ) α} {f : α → ExceptT ε (StateM σ) β}
    {g : α → Except ε β} (h : ∀ a s, outcome (f a) s = (g a, s)) (s : σ) :
    outcome (act >>= f) s = ((outcome act s).1.bind g, (outcome act s).2) := by
  cases hact : outcome act s with
  | mk result s' =>
      cases result with
      | ok a => exact (outcome_bind_ok hact f).trans (h a s')
      | error e => exact outcome_bind_error hact f

theorem outcome_map (act : ExceptT ε (StateM σ) α) (f : α → β) (s : σ) :
    outcome (do return f (← act)) s = ((outcome act s).1.map f, (outcome act s).2) := by
  have hpure : ∀ a s, outcome (pure (f a) : ExceptT ε (StateM σ) β) s = (.ok (f a), s) :=
    fun _ _ => rfl
  rw [outcome_bind hpure]
  cases (outcome act s).1 <;> rfl

theorem outcome_bind_eq_ok {act : ExceptT ε (StateM σ) α} {f : α → ExceptT ε (StateM σ) β}
    {s s'' : σ} {b : β} (h : outcome (act >>= f) s = (.ok b, s'')) :
    ∃ a s', outcome act s = (.ok a, s') ∧ outcome (f a) s' = (.ok b, s'') := by
  cases hact : outcome act s with
  | mk result s' =>
      cases result with
      | ok a => exact ⟨a, s', rfl, outcome_bind_ok hact f ▸ h⟩
      | error e =>
          rw [outcome_bind_error hact] at h
          cases h

theorem outcome_liftExcept_ok (f : δ → ε) (a : α) (s : σ) :
    outcome (liftExcept f (.ok a)) s = (.ok a, s) := rfl

theorem outcome_liftExcept (r : Except ε α) (s : σ) : outcome (liftExcept id r) s = (r, s) := by
  cases r <;> rfl

theorem mapM_inWords (f : α → Option β) (xs : List α) :
    xs.mapM (fun x => QueryError.inWords (f x)) = QueryError.inWords (xs.mapM f) := by
  induction xs with
  | nil => rfl
  | cons x xs ih =>
      rw [List.mapM_cons, List.mapM_cons, ih]
      cases f x with
      | none => rfl
      | some y => cases xs.mapM f <;> rfl

theorem outcome_liftAction (act : Action σ α) (s : σ) :
    outcome (liftAction act) s
      = ((outcome act s).1.mapError QueryError.ofBackend, (outcome act s).2) := rfl

theorem outcome_liftAction_eq_ok {act : Action σ α} {s s' : σ} {a : α}
    (h : outcome (liftAction act) s = (.ok a, s')) : outcome act s = (.ok a, s') := by
  rw [outcome_liftAction] at h
  cases hact : outcome act s with
  | mk result t =>
      rw [hact] at h
      cases result with
      | ok b =>
          cases h
          rfl
      | error e => cases h

end Cadence
