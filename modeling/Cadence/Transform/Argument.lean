import Cadence.Series
import Cadence.QueryError

namespace Cadence

inductive Argument where
  | series (s : List (Series Float))
  | number (x : Float)
  | text (s : String)
  | flag (b : Bool)

inductive ArgumentKind where
  | series
  | number
  | text
  | flag
  deriving DecidableEq

def Argument.kind : Argument → ArgumentKind
  | series _ => .series
  | number _ => .number
  | text _ => .text
  | flag _ => .flag

def ArgumentKind.name : ArgumentKind → String
  | series => "series list"
  | number => "number"
  | text => "string"
  | flag => "bool"

inductive Arity where
  | exactly (n : Nat)
  | atLeast (n : Nat)
  deriving DecidableEq

def Arity.admits : Arity → Nat → Bool
  | exactly n, given => given = n
  | atLeast n, given => n ≤ given

def Arity.describe : Arity → String
  | exactly n => toString n
  | atLeast n => "at least " ++ toString n

-- Why a function refuses its arguments. Positions count from zero.
inductive ArgumentError where
  | arity (function : String) (expected : Arity) (given : Nat)
  | kind (function : String) (position : Nat) (expected given : ArgumentKind)
  | nodeOutOfRange (node : Int) (name : String)
  deriving DecidableEq

def ArgumentError.message : ArgumentError → String
  | arity function expected given =>
    function ++ " expects " ++ expected.describe ++ " arguments, got " ++ toString given
  | kind function position expected given =>
    function ++ " argument " ++ toString (position + 1) ++ " must be a " ++ expected.name
      ++ ", got " ++ given.name
  | nodeOutOfRange node name =>
    "aliasByNode: node " ++ toString node ++ " out of range for '" ++ name ++ "'"

abbrev Checked := Except ArgumentError

abbrev Transform := List Argument → Except QueryError (List (Series Float))

def Transform.ofChecked (f : List Argument → Checked (List (Series Float))) : Transform :=
  fun args => (f args).mapError fun e => .argument e.message

def checkArity (function : String) (expected : Arity) (args : List Argument) : Checked Unit :=
  if expected.admits args.length then .ok () else .error (.arity function expected args.length)

namespace Argument

def asSeries (function : String) (position : Nat) : Argument → Checked (List (Series Float))
  | series s => .ok s
  | arg => .error (.kind function position .series arg.kind)

def asNumber (function : String) (position : Nat) : Argument → Checked Float
  | number x => .ok x
  | arg => .error (.kind function position .number arg.kind)

def asText (function : String) (position : Nat) : Argument → Checked String
  | text s => .ok s
  | arg => .error (.kind function position .text arg.kind)

end Argument

-- The series of all arguments in order, of which there has to be one.
def allSeries (function : String) (args : List Argument) : Checked (List (Series Float)) := do
  checkArity function (.atLeast 1) args
  let lists ← args.zipIdx.mapM fun (arg, position) => arg.asSeries function position
  return lists.flatten

end Cadence
