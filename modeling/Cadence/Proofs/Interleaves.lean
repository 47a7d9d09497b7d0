import Cadence.Proofs.LastWins
import Cadence.Proofs.Outcome
import Mathlib.Data.List.Pairwise
import Mathlib.Data.List.Permutation

namespace Cadence

-- The elements of some lists, each list in its own order.
inductive Interleaves {α : Type} : List (List α) → List α → Prop
  | done {lists : List (List α)} (empty : ∀ l ∈ lists, l = []) : Interleaves lists []
  | step {front back : List (List α)} {x : α} {rest xs : List α}
      (more : Interleaves (front ++ rest :: back) xs) :
      Interleaves (front ++ (x :: rest) :: back) (x :: xs)

namespace Interleaves

variable {α β : Type} {lists : List (List α)} {xs : List α}

theorem perm (h : Interleaves lists xs) : xs.Perm lists.flatten := by
  induction h with
  | done empty => rw [List.flatten_eq_nil_iff.mpr empty]
  | step more ih =>
      simp only [List.flatten_append, List.flatten_cons, List.cons_append] at ih ⊢
      exact List.perm_cons_append_cons _ ih

theorem mem_iff (h : Interleaves lists xs) (x : α) : x ∈ xs ↔ ∃ l ∈ lists, x ∈ l := by
  rw [h.perm.mem_iff, List.mem_flatten]

theorem filterMap (h : Interleaves lists xs) (f : α → Option β) :
    Interleaves (lists.map (List.filterMap f)) (xs.filterMap f) := by
  induction h with
  | done empty =>
      refine .done ?_
      simpa using fun l hl => by simp [empty l hl]
  | @step front back x rest xs more ih =>
      rw [List.map_append, List.map_cons] at ih ⊢
      cases hx : f x with
      | none =>
          rw [List.filterMap_cons_none hx, List.filterMap_cons_none hx]
          exact ih
      | some y =>
          rw [List.filterMap_cons_some hx, List.filterMap_cons_some hx]
          exact .step ih

theorem filter (h : Interleaves lists xs) (p : α → Bool) :
    Interleaves (lists.map (List.filter p)) (xs.filter p) := by
  have hguard := h.filterMap (Option.guard p)
  rwa [List.filterMap_eq_filter] at hguard

theorem eq_of_singleton {l : List α} (h : Interleaves [l] xs) : xs = l := by
  generalize hlists : [l] = lists at h
  induction h generalizing l with
  | done empty => rw [empty l (by simp [← hlists])]
  | @step front back x rest xs more ih =>
      obtain ⟨rfl, hcons⟩ | ⟨-, hnil⟩ := List.append_eq_singleton_iff.mp hlists.symm
      · obtain ⟨rfl, rfl⟩ := List.cons.inj hcons
        rw [ih rfl]
      · cases hnil

-- Two lists of at most one element are interleaved by putting one behind the other.
theorem eq_append_or_eq_append {l r : List α} (h : Interleaves [l, r] xs) (hl : l.length ≤ 1)
    (hr : r.length ≤ 1) : xs = l ++ r ∨ xs = r ++ l := by
  have hperm : xs.Perm (l ++ r) := by simpa using h.perm
  match l, r with
  | [], r =>
      match r with
      | [] => exact .inl (List.perm_nil.mp hperm)
      | [y] => exact .inl (List.perm_singleton.mp hperm)
  | [x], [] => exact .inl (List.perm_singleton.mp hperm)
  | [x], [y] => exact List.perm_pair.mp hperm

theorem lastSome_eq_none_iff (h : Interleaves lists xs) (f : α → Option β) :
    lastSome f xs = none ↔ ∀ l ∈ lists, lastSome f l = none := by
  simp only [Cadence.lastSome_eq_none_iff, h.mem_iff]
  constructor
  · exact fun hnone l hl x hx => hnone x ⟨l, hl, hx⟩
  · rintro hnone x ⟨l, hl, hx⟩
    exact hnone l hl x hx

theorem exists_of_lastSome (h : Interleaves lists xs) {f : α → Option β} {b : β}
    (hlast : lastSome f xs = some b) : ∃ l ∈ lists, lastSome f l = some b := by
  induction h with
  | done empty => cases hlast
  | @step front back x rest xs more ih =>
      rw [lastSome_cons] at hlast
      cases hxs : lastSome f xs with
      | some c =>
          rw [hxs, Option.some_or] at hlast
          cases hlast
          obtain ⟨l, hl, hlast⟩ := ih hxs
          rcases List.mem_append.mp hl with hl | hl
          · exact ⟨l, by simp [hl], hlast⟩
          rcases List.mem_cons.mp hl with rfl | hl
          · exact ⟨x :: l, by simp, by rw [lastSome_cons, hlast, Option.some_or]⟩
          · exact ⟨l, by simp [hl], hlast⟩
      | none =>
          -- nothing behind it says anything, in its own list neither
          have hrest := (more.lastSome_eq_none_iff f).mp hxs rest (by simp)
          exact ⟨x :: rest, by simp, by rw [lastSome_cons, hrest, ← hxs, hlast]⟩

-- Where no two lists say different things last, what any of them says is said last.
theorem lastSome_eq_some_iff (h : Interleaves lists xs) {f : α → Option β}
    (hagree : lists.Pairwise fun l r => ∀ b c, lastSome f l = some b → lastSome f r = some c → b = c)
    (b : β) : lastSome f xs = some b ↔ ∃ l ∈ lists, lastSome f l = some b := by
  refine ⟨h.exists_of_lastSome, ?_⟩
  rintro ⟨l, hl, hb⟩
  let Agree (l r : List α) : Prop := ∀ b c, lastSome f l = some b → lastSome f r = some c → b = c
  have hsymm : Std.Symm Agree := ⟨fun l r hlr b c hb hc => (hlr c b hc hb).symm⟩
  have hself : ∀ l ∈ lists, Agree l l := fun l _ b c hb hc => Option.some.inj (hb.symm.trans hc)
  have hall := List.Pairwise.forall_of_forall hself hagree
  cases hlast : lastSome f xs with
  | none =>
      have hnone := (h.lastSome_eq_none_iff f).mp hlast l hl
      rw [hb] at hnone
      cases hnone
  | some c =>
      obtain ⟨r, hr, hc⟩ := h.exists_of_lastSome hlast
      rw [hall hl hr b c hb hc]

end Interleaves

variable {α β σ : Type}

-- What a party still has to do after an action: nothing if that has failed.
def remaining : Except BackendError Unit → List α → List α
  | .ok _, rest => rest
  | .error _, _ => []

-- Parties take turns to act on a state, each in its own order, until none has anything left to do.
inductive Turns (perform : α → Action σ Unit) : List (List α) → σ → σ → Prop
  | done {parties : List (List α)} {s : σ} (empty : ∀ p ∈ parties, p = []) :
      Turns perform parties s s
  | act {front back : List (List α)} {call : α} {rest : List α} {s mid s' : σ}
      {result : Except BackendError Unit} (acts : outcome (perform call) s = (result, mid))
      (more : Turns perform (front ++ remaining result rest :: back) mid s') :
      Turns perform (front ++ (call :: rest) :: back) s s'

namespace Turns

variable {perform : α → Action σ Unit} {s mid s' : σ}

theorem actAll {front back : List (List α)} {calls rest : List α} {result : Except BackendError Unit}
    (acts : outcome (calls.forM perform) s = (result, mid))
    (more : Turns perform (front ++ remaining result rest :: back) mid s') :
    Turns perform (front ++ (calls ++ rest) :: back) s s' := by
  induction calls generalizing s with
  | nil =>
      cases acts
      exact more
  | cons call calls ih =>
      cases hfirst : outcome (perform call) s with
      | mk first next =>
          refine .act hfirst ?_
          cases first with
          | ok _ =>
              have hrest : outcome (calls.forM perform) next = (result, mid) :=
                (outcome_bind_ok hfirst _).symm.trans acts
              exact ih hrest
          | error e =>
              have hlast : (Except.error e, next) = (result, mid) :=
                (outcome_bind_error hfirst _).symm.trans acts
              cases hlast
              exact more

theorem idle {parties : List (List α)} (h : Turns perform parties s s') :
    Turns perform ([] :: parties) s s' := by
  induction h with
  | done empty => exact .done (by simpa using empty)
  | @act front back call rest s mid s' result acts more ih =>
      change Turns perform (([] :: front) ++ (call :: rest) :: back) s s'
      exact .act acts ih

-- A party may do all it has to do before the others begin.
theorem cons {calls : List α} {parties : List (List α)} {result : Except BackendError Unit}
    (acts : outcome (calls.forM perform) s = (result, mid)) (more : Turns perform parties mid s') :
    Turns perform (calls :: parties) s s' := by
  have hnone : remaining result ([] : List α) = [] := by cases result <;> rfl
  have hidle : Turns perform ([] ++ remaining result [] :: parties) mid s' := by
    rw [hnone]
    exact more.idle
  simpa using actAll acts hidle

-- One of two parties may do all it has to do between two parts of what the other does.
theorem between {before after calls : List α} {next last : σ} {first second : Except BackendError Unit}
    (hbefore : outcome (before.forM perform) s = (.ok (), mid))
    (hcalls : outcome (calls.forM perform) mid = (first, next))
    (hafter : outcome (after.forM perform) next = (second, last)) :
    Turns perform [before ++ after, calls] s last := by
  have hnone : ∀ result, remaining result ([] : List α) = [] := fun result => by cases result <;> rfl
  have hrest : Turns perform ([] ++ (after ++ []) :: [[]]) next last :=
    actAll hafter (.done (by simp [hnone]))
  have hmiddle : Turns perform ([after] ++ (calls ++ []) :: []) mid last := by
    refine actAll hcalls ?_
    rw [hnone]
    simpa using hrest
  have hall : Turns perform ([] ++ (before ++ after) :: [calls]) s last := by
    refine actAll hbefore ?_
    simpa [remaining] using hmiddle
  exact hall

theorem exists_turns (perform : α → Action σ Unit) (parties : List (List α)) (s : σ) :
    ∃ s', Turns perform parties s s' := by
  induction parties generalizing s with
  | nil => exact ⟨s, .done (by simp)⟩
  | cons calls parties ih =>
      obtain ⟨s', hs'⟩ := ih (outcome (calls.forM perform) s).2
      exact ⟨s', cons rfl hs'⟩

-- Actions that are sequences of smaller ones are turns in which the smaller ones are not interrupted.
theorem refine {small : β → Action σ Unit} {parts : α → List β}
    (hparts : ∀ call s, outcome (perform call) s = outcome ((parts call).forM small) s)
    {parties : List (List α)} (h : Turns perform parties s s') :
    Turns small (parties.map (List.flatMap parts)) s s' := by
  induction h with
  | done empty =>
      refine .done ?_
      simpa using fun p hp => by simp [empty p hp]
  | @act front back call rest s mid s' result acts more ih =>
      have hrest : (remaining result rest).flatMap parts = remaining result (rest.flatMap parts) := by
        cases result <;> rfl
      rw [List.map_append, List.map_cons, hrest] at ih
      rw [List.map_append, List.map_cons, List.flatMap_cons]
      exact actAll (hparts call s ▸ acts) ih

end Turns

end Cadence
