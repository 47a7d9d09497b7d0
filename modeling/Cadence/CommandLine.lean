import Cadence.Text.Numeral

namespace Cadence

structure CommandLine where
  config : Option String
  port : Nat
  deriving DecidableEq

-- Why there is no command line to go by. Asking for help is one of the reasons.
inductive CommandLineError where
  | unknownArgument
  | missingValue
  | invalidValue
  | unneededValue
  | repeatedArgument
  | help
  deriving DecidableEq

def CommandLineError.message : CommandLineError → String
  | unknownArgument => "unexpected argument"
  | missingValue => "a value is required"
  | invalidValue => "invalid port"
  | unneededValue => "unexpected value"
  | repeatedArgument => "an argument cannot be used more than once"
  | help => "Usage: cadence [-c, --config FILE] [-p, --port PORT]"

structure Environment where
  config : Option String
  port : Option String

namespace CommandLine

inductive Setting where
  | config
  | port
  deriving DecidableEq

inductive Name where
  | setting (s : Setting)
  | help

def longName? (name : List Char) : Option Name :=
  if name = "config".toList then some (.setting .config)
  else if name = "port".toList then some (.setting .port)
  else if name = "help".toList then some .help
  else none

def shortName? (c : Char) : Option Name :=
  if c = 'c' then some (.setting .config)
  else if c = 'p' then some (.setting .port)
  else if c = 'h' then some .help
  else none

def defaultPort : Nat := 8000

def maxPort : Int := 65535

def port? (value : String) : Option Nat :=
  match Text.integer? value.toList with
  | some n => if 0 ≤ n ∧ n ≤ maxPort then some n.toNat else none
  | none => none

-- What has been read: the settings, one that is still to be taken with its value as far as that
-- has come, and whether names are at an end.
structure Reader where
  config : Option String
  port : Option Nat
  pending : Option (Setting × Option String)
  ended : Bool

namespace Reader

def start : Reader := ⟨none, none, none, false⟩

-- Takes a setting, which may come only once.
def accept (r : Reader) (s : Setting) (value : String) : Except CommandLineError Reader :=
  match s with
  | .config => if r.config.isSome then .error .repeatedArgument else .ok { r with config := some value }
  | .port =>
    if r.port.isSome then .error .repeatedArgument
    else
      match port? value with
      | some n => .ok { r with port := some n }
      | none => .error .invalidValue

def settle (r : Reader) : Except CommandLineError Reader :=
  match r.pending with
  | none => .ok r
  | some (_, none) => .error .missingValue
  | some (s, some value) => accept { r with pending := none } s value

-- Takes a name, with the value that is attached to it.
def takeName (r : Reader) (name : Name) (attached : Option String) :
    Except CommandLineError Reader := do
  let r ← r.settle
  match name, attached with
  | .help, _ => throw .help
  | .setting s, some value => r.accept s value
  | .setting s, none => return { r with pending := some (s, none) }

-- A long name ends at an equals sign, behind which its value is attached.
def takeLong (r : Reader) (cs : List Char) : Except CommandLineError Reader :=
  let value := (cs.dropWhile (· ≠ '=')).head?.map fun _ =>
    String.ofList ((cs.dropWhile (· ≠ '=')).drop 1)
  match longName? (cs.takeWhile (· ≠ '=')), value with
  | none, _ => .error .unknownArgument
  | some .help, some _ => .error .unneededValue
  | some name, value => r.takeName name value

-- A short name has its value attached with an equals sign or without.
def takeShort (r : Reader) (c : Char) (cs : List Char) : Except CommandLineError Reader :=
  match shortName? c, cs with
  | none, _ => .error .unknownArgument
  | some name, [] => r.takeName name none
  | some name, '=' :: value => r.takeName name (some (String.ofList value))
  | some name, value => r.takeName name (some (String.ofList value))

def takeValue (r : Reader) (arg : String) : Except CommandLineError Reader :=
  match r.pending with
  | some (s, none) => .ok { r with pending := some (s, some arg) }
  | _ => .error .unknownArgument

def take (r : Reader) (arg : String) : Except CommandLineError Reader :=
  if r.ended then .error .unknownArgument
  else
    match arg.toList with
    | ['-', '-'] => .ok { r with ended := true }
    | '-' :: '-' :: cs => r.takeLong cs
    | '-' :: c :: cs => r.takeShort c cs
    | _ => r.takeValue arg

-- Takes the environment for what has not been given.
def finish (r : Reader) (env : Environment) : Except CommandLineError CommandLine := do
  let r ← r.settle
  let config := r.config.or env.config
  match r.port, env.port with
  | some n, _ => return ⟨config, n⟩
  | none, none => return ⟨config, defaultPort⟩
  | none, some value =>
    match port? value with
    | some n => return ⟨config, n⟩
    | none => throw .invalidValue

end Reader

def parse (args : List String) (env : Environment) : Except CommandLineError CommandLine := do
  (← args.foldlM Reader.take .start).finish env

end CommandLine

end Cadence
