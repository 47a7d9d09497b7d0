import Cadence.Backend.Basic
import Cadence.Target.Token

namespace Cadence

inductive QueryError where
  | parse (reason fragment : String)
  | unsupportedFunction (name : String)
  | argument (text : String)
  | fetch (text : String)
  | config (text : String)
  | internal (text : String)
  -- Arithmetic that leaves its word, where the step that does it breaks off.
  | overflow
  deriving DecidableEq

namespace QueryError

def message : QueryError → String
  | parse reason fragment => "Parse error: " ++ reason ++ " at '" ++ fragment ++ "'"
  | unsupportedFunction name => "Unsupported function: " ++ name
  | argument text => "Argument error: " ++ text
  | fetch text => "Fetch error: " ++ text
  | config text => "Config error: " ++ text
  | internal text => "Internal error: " ++ text
  | overflow => "Internal error: evaluation task failed: arithmetic overflow"

def isClientError : QueryError → Bool
  | parse _ _ => true
  | unsupportedFunction _ => true
  | argument _ => true
  | _ => false

-- A word that is not there is the reader's own fault.
def ofParse (e : Target.ParseError) : QueryError :=
  if e.reason = .notAWord then internal e.reason.message else parse e.reason.message e.fragment

-- A window that the storage cannot serve is a fault of the request.
def ofBackend : BackendError → QueryError
  | .invalidRange text => argument text
  | e => fetch e.message

def ofWindow (e : WindowError) : QueryError := argument e.message

def inWords {α : Type} (result : Option α) : Except QueryError α := result.elim (.error overflow) .ok

end QueryError

end Cadence
