import Cadence.Proofs.Store.Writers

namespace Cadence

open Keyed Cadence.Metric

variable {σ α : Type}

-- Which calls fail and do not reach the storage, by their numbers.
abbrev Faults := Nat → Option BackendError

namespace Faults

-- An action whose fault is that of the next call. The state counts the calls.
def guarded (faults : Faults) (act : Action σ α) : Action (σ × Nat) α := ExceptT.mk fun (s, call) =>
  match faults call with
  | some e => (.error e, s, call + 1)
  | none => ((outcome act s).1, (outcome act s).2, call + 1)

-- The elements before the first fault, where a number belongs to the first element.
def reaching (faults : Faults) (call : Nat) : List α → List α
  | [] => []
  | x :: xs =>
    match faults call with
    | some _ => []
    | none => x :: reaching faults (call + 1) xs

end Faults

def Backend.faulty (b : Backend σ) (faults : Faults) : Backend (σ × Nat) where
  ping := faults.guarded b.ping
  createTable table := faults.guarded (b.createTable table)
  batchGet table item names := faults.guarded (b.batchGet table item names)
  put table item name samples := faults.guarded (b.put table item name samples)

namespace Faults

variable {faults : Faults} {call : Nat}

theorem perform_faulty (b : Backend σ) (faults : Faults) (name : String) (call : WriteCall) :
    (b.faulty faults).perform name call = faults.guarded (b.perform name call) := by
  cases call <;> rfl

theorem outcome_guarded_error {e : BackendError} (h : faults call = some e) (act : Action σ α)
    (s : σ) : outcome (faults.guarded act) (s, call) = (.error e, s, call + 1) := by
  change faults.guarded act (s, call) = _
  simp only [guarded, ExceptT.mk, h]

theorem outcome_guarded (h : faults call = none) (act : Action σ α) (s : σ) :
    outcome (faults.guarded act) (s, call)
      = ((outcome act s).1, (outcome act s).2, call + 1) := by
  change faults.guarded act (s, call) = _
  simp only [guarded, ExceptT.mk, h]

theorem reaching_cons_error {e : BackendError} (h : faults call = some e) (x : α) (xs : List α) :
    faults.reaching call (x :: xs) = [] := by
  simp only [reaching, h]

theorem reaching_cons (h : faults call = none) (x : α) (xs : List α) :
    faults.reaching call (x :: xs) = x :: faults.reaching (call + 1) xs := by
  simp only [reaching, h]

theorem reaching_isPrefix (faults : Faults) (call : Nat) (xs : List α) :
    faults.reaching call xs <+: xs := by
  induction xs generalizing call with
  | nil => exact List.prefix_rfl
  | cons x xs ih =>
      cases hfault : faults call with
      | some e =>
          rw [reaching_cons_error hfault]
          exact List.nil_prefix
      | none =>
          rw [reaching_cons hfault]
          exact List.prefix_cons_inj x |>.mpr (ih (call + 1))

theorem reaching_map {β : Type} (faults : Faults) (call : Nat) (f : α → β) (xs : List α) :
    faults.reaching call (xs.map f) = (faults.reaching call xs).map f := by
  induction xs generalizing call with
  | nil => rfl
  | cons x xs ih =>
      rw [List.map_cons]
      cases hfault : faults call with
      | some e => rw [reaching_cons_error hfault, reaching_cons_error hfault, List.map_nil]
      | none => rw [reaching_cons hfault, reaching_cons hfault, ih, List.map_cons]

theorem state_performAll (b : Backend σ) (faults : Faults) (name : String) (calls : List WriteCall)
    (s : σ) (call : Nat) :
    (outcome ((b.faulty faults).performAll name calls) (s, call)).2.1
      = (outcome (b.performAll name (faults.reaching call calls)) s).2 := by
  induction calls generalizing s call with
  | nil => rfl
  | cons first calls ih =>
      rw [Backend.performAll, perform_faulty]
      cases hfault : faults call with
      | some e =>
          rw [outcome_bind_error (outcome_guarded_error hfault _ s), reaching_cons_error hfault]
          rfl
      | none =>
          have hguarded := outcome_guarded hfault (b.perform name first) s
          rw [reaching_cons hfault, Backend.performAll]
          cases hfirst : outcome (b.perform name first) s with
          | mk result mid =>
              rw [hfirst] at hguarded
              cases result with
              | ok _ => rw [outcome_bind_ok hguarded, outcome_bind_ok hfirst, ih]
              | error e => rw [outcome_bind_error hguarded, outcome_bind_error hfirst]

end Faults

namespace Insertion

def leavesUnder (i : Insertion) (faults : Faults) (db : Database) : Database :=
  (outcome ((backend.faulty faults).write i.settings i.metric) (db, 0)).2.1

theorem leavesUnder_eq (i : Insertion) (faults : Faults) (db : Database) :
    i.leavesUnder faults db = (outcome ((faults.reaching 0 i.calls).forM perform) db).2 := by
  unfold leavesUnder calls Backend.write
  split
  · rfl
  · rw [outcome_liftAction, Faults.state_performAll, Backend.performAll_eq_forM, Faults.reaching_map]
    rfl

def accessesUnder (i : Insertion) (faults : Faults) : List Access :=
  (faults.reaching 0 i.calls).flatMap fun call => Access.ofCall call.1 call.2

theorem leavesUnder_eq_accesses (i : Insertion) (faults : Faults) (db : Database) :
    i.leavesUnder faults db = (outcome ((i.accessesUnder faults).forM Access.perform) db).2 := by
  rw [leavesUnder_eq]
  exact congrArg Prod.snd
    (outcome_forM_flatMap (fun call db => Access.outcome_ofCall call.1 call.2 db) _ db)

theorem accessesUnder_isPrefix (i : Insertion) (faults : Faults) :
    i.accessesUnder faults <+: i.accesses := by
  obtain ⟨rest, hcalls⟩ := faults.reaching_isPrefix 0 i.calls
  refine ⟨rest.flatMap fun call => Access.ofCall call.1 call.2, ?_⟩
  rw [accessesUnder, ← List.flatMap_append, hcalls, accesses]

end Insertion

end Cadence
