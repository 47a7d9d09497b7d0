import Cadence.Store.Basic
import Cadence.Target.Parser
import Cadence.Text.Quoted
import Cadence.Transform.Builtin

namespace Cadence

open Target

variable {σ : Type}

-- The order in which the tasks below a node complete, by the slots on the way down to the node and
-- the number of tasks.
abbrev Schedule := List Nat → Nat → Fanout.Order

def Schedule.inOrder : Schedule := fun _ => List.range

-- What remains of a schedule below a slot.
def Schedule.below (s : Schedule) (slot : Nat) : Schedule := fun path => s (slot :: path)

structure Evaluator (σ : Type) where
  fetch (pattern : String) (w : Window) : Query σ (List (Series Float))
  registry : Registry
  schedule : Schedule

def Evaluator.below (ev : Evaluator σ) (slot : Nat) : Evaluator σ :=
  { ev with schedule := ev.schedule.below slot }

-- Literals in messages have as few digits as read back, a point and an exponent where it is large.
def literalStyle : Decimal.Style where
  tie := .up
  positional := some (-4, 16)
  pointed := true
  signed := false
  nan := "NaN"
  infinity := "inf"

def Argument.describe : Argument → String
  | series _ => "SeriesList"
  | number x => "Number(" ++ literalStyle.write x ++ ")"
  | text s => "String(" ++ Text.quote s ++ ")"
  | flag b => "Bool(" ++ toString b ++ ")"

namespace Evaluator

-- The pattern that a leaf hands to the store: its names, joined into one group.
def leafPattern (pattern : String) : String := ",".intercalate (Names.expand pattern)

def applyCall (ev : Evaluator σ) (function : String) (args : List Argument) : Query σ Argument :=
  match ev.registry.find? function with
  | none => throw (.unsupportedFunction function)
  | some transform => liftExcept id ((transform args).map .series)

def literal? : Expr → Option Argument
  | .number x => some (.number x)
  | .text s => some (.text s)
  | .flag b => some (.flag b)
  | _ => none

-- The slots of arguments before anything is evaluated.
def literalSlots (args : List Expr) : List (Option Argument) := args.map literal?

-- The arguments that are no literals, with their slots.
def pending (slot : Nat) : List Expr → List (Nat × Expr)
  | [] => []
  | arg :: args =>
    match literal? arg with
    | some _ => pending (slot + 1) args
    | none => (slot, arg) :: pending (slot + 1) args

def fill (slots : List (Option Argument)) (values : List (Nat × Argument)) :
    List (Option Argument) :=
  values.foldl (fun slots filled => slots.set filled.1 (some filled.2)) slots

def argValues (args : List Expr) (values : List Argument) : List Argument :=
  (fill (literalSlots args) (((pending 0 args).map (·.1)).zip values)).filterMap id

mutual

def node (ev : Evaluator σ) (w : Window) : Expr → Query σ Argument
  | .series pattern => return .series (← ev.fetch (leafPattern pattern) w)
  | .number x => return .number x
  | .text s => return .text s
  | .flag b => return .flag b
  | .call function args => do
    let tasks := argTasks ev w 0 args
    let values ← Fanout.runTasks (ev.schedule [] tasks.length) tasks
    ev.applyCall function (argValues args values)

def argTasks (ev : Evaluator σ) (w : Window) (slot : Nat) : List Expr → List (Query σ Argument)
  | [] => []
  | arg :: args =>
    match literal? arg with
    | some _ => argTasks ev w (slot + 1) args
    | none => node (ev.below slot) w arg :: argTasks ev w (slot + 1) args

end

def rootSeries : Argument → Except QueryError (List (Series Float))
  | .series s => .ok s
  | literal => .error (.argument ("target evaluated to a literal: " ++ literal.describe))

def evaluate (ev : Evaluator σ) (w : Window) (e : Expr) : Query σ (List (Series Float)) := do
  liftExcept id (rootSeries (← ev.node w e))

def evaluateTarget (ev : Evaluator σ) (w : Window) (target : String) :
    Query σ (List (Series Float)) := do
  ev.evaluate w (← liftExcept QueryError.ofParse (parse target))

-- All targets are read before anything is fetched; the series come in the order of the targets.
def evaluateTargets (ev : Evaluator σ) (w : Window) (targets : List String) :
    Query σ (List (Series Float)) := do
  let exprs ← liftExcept QueryError.ofParse (targets.mapM parse)
  let tasks := exprs.zipIdx.map fun (e, slot) => (ev.below slot).evaluate w e
  return (← Fanout.runTasks (ev.schedule [] tasks.length) tasks).flatten

end Evaluator

def Store.evaluator (s : Store σ) : Evaluator σ := ⟨s.fetch, .builtin, .inOrder⟩

end Cadence
