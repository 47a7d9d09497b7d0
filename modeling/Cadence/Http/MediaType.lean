namespace Cadence.Http

structure MediaType where
  type : String
  subtype : String
  suffix : Option String
  deriving DecidableEq

namespace MediaType

def isTokenChar (c : Char) : Bool := c.isAlphanum || "!#$%&'*+-.^_|~\x60".toList.contains c

def isQuotable (c : Char) : Bool := 31 < c.toNat && c.toNat ≠ 127

-- Where a reader of parameters stands.
inductive ParameterState where
  | start
  | name
  | valueStart
  | value
  | quotedStart
  | quoted
  | afterQuoted

open ParameterState in
-- Whether some text behind the first semicolon is a list of parameters.
def areParameters : ParameterState → List Char → Bool
  | start, [] => true
  | start, c :: cs =>
    if c = ' ' then areParameters start cs else isTokenChar c && areParameters name cs
  | name, [] => false
  | name, c :: cs =>
    if c = '=' then areParameters valueStart cs else isTokenChar c && areParameters name cs
  | valueStart, [] => true
  | valueStart, c :: cs =>
    if c = '"' then areParameters quotedStart cs else isTokenChar c && areParameters value cs
  | value, [] => true
  | value, c :: cs =>
    if c = ';' then areParameters start cs else isTokenChar c && areParameters value cs
  | quotedStart, [] => false
  | quotedStart, c :: cs => isQuotable c && areParameters quoted cs
  | quoted, [] => false
  | quoted, c :: cs =>
    if c = '"' then areParameters afterQuoted cs else isQuotable c && areParameters quoted cs
  | afterQuoted, [] => true
  | afterQuoted, c :: cs =>
    if c = ';' then areParameters start cs else c = ' ' && areParameters afterQuoted cs

-- A subtype and what follows the last plus sign in it; a plus sign in front is part of the name.
def splitSuffix (subtype : List Char) : List Char × Option (List Char) :=
  match subtype with
  | [] => ([], none)
  | c :: cs =>
    let suffix := (cs.reverse.takeWhile (· ≠ '+')).reverse
    if cs.contains '+' then
      (c :: cs.take (cs.length - suffix.length - 1), some suffix)
    else (c :: cs, none)

def parse? (text : String) : Option MediaType :=
  let cs := text.toList
  let type := cs.takeWhile (· ≠ '/')
  let rest := cs.dropWhile (· ≠ '/')
  if type = [] ∨ rest = [] ∨ !type.all isTokenChar then none
  else
    let subtype := (rest.drop 1).takeWhile (· ≠ ';')
    let parameters := (rest.drop 1).dropWhile (· ≠ ';')
    if !subtype.all isTokenChar ∨ (subtype = [] ∧ parameters ≠ []) then none
    else if !areParameters .start (parameters.drop 1) then none
    else
      let (name, suffix) := splitSuffix subtype
      some ⟨(String.ofList type).toLower, (String.ofList name).toLower,
        suffix.map fun s => (String.ofList s).toLower⟩

def isJson (m : MediaType) : Bool :=
  m.type = "application" && (m.subtype = "json" || m.suffix = some "json")

end MediaType

-- A header's value, if it is made of visible characters.
def visible? (value : String) : Option String :=
  if value.toList.all fun c => (32 ≤ c.toNat && c.toNat < 127) || c = '\t' then some value else none

end Cadence.Http
