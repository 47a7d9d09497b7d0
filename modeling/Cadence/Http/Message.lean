namespace Cadence.Http

inductive Method where
  | get
  | head
  | post
  | other (name : String)
  deriving DecidableEq

def Method.ofName (name : String) : Method :=
  if name = "GET" then get
  else if name = "HEAD" then head
  else if name = "POST" then post
  else other name

structure Request where
  method : Method
  path : String
  -- What follows the question mark, nothing without one.
  query : String
  headers : List (String × String)
  body : String

-- Splits an address into path and query; a fragment is dropped.
def splitTarget (target : String) : String × String :=
  let cs := target.toList.takeWhile (· ≠ '#')
  (String.ofList (cs.takeWhile (· ≠ '?')), String.ofList ((cs.dropWhile (· ≠ '?')).drop 1))

def Request.header? (r : Request) (name : String) : Option String :=
  (r.headers.find? fun h => h.1.toLower = name).map (·.2)

structure Response where
  status : Nat
  contentType : Option String
  body : String
  deriving DecidableEq

namespace Response

def empty (status : Nat) : Response := ⟨status, none, ""⟩

def text (status : Nat) (body : String) : Response :=
  ⟨status, some "text/plain; charset=utf-8", body⟩

def json (status : Nat) (body : String) : Response := ⟨status, some "application/json", body⟩

-- What a request for the head alone is answered with.
def withoutBody (r : Response) : Response := { r with body := "" }

end Response

end Cadence.Http
