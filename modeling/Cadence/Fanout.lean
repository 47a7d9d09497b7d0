namespace Cadence.Fanout

variable {ε α σ : Type}

-- What has been collected so far: a slot for each task, and the first failure.
structure Collected (ε α : Type) where
  slots : Array (Option α)
  failure : Option ε

def Collected.take (c : Collected ε α) (task : Nat) (outcome : Except ε α) : Collected ε α :=
  match outcome with
  | .ok value => { c with slots := c.slots.setIfInBounds task (some value) }
  | .error e => { c with failure := c.failure.or (some e) }

def Collected.none (count : Nat) : Collected ε α := ⟨Array.replicate count .none, .none⟩

def Collected.result (c : Collected ε α) : Except ε (List α) :=
  match c.failure with
  | some e => .error e
  | .none => .ok (c.slots.toList.filterMap id)

-- The values of `count` tasks from their outcomes in order of completion.
def collect (count : Nat) (completions : List (Nat × Except ε α)) : Except ε (List α) :=
  (completions.foldl (fun c outcome => c.take outcome.1 outcome.2) (Collected.none count)).result

-- The numbers of the tasks in the order in which they complete.
abbrev Order := List Nat

def runTasks (order : Order) (tasks : List (ExceptT ε (StateM σ) α)) :
    ExceptT ε (StateM σ) (List α) := ExceptT.mk do
  let completions ← (order.filterMap fun task => tasks[task]?.map (task, ·)).mapM
    fun (task, run) => return (task, ← run.run)
  return collect tasks.length completions

end Cadence.Fanout
