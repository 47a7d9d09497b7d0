import Cadence.Target.Expr

namespace Cadence.Target

-- The most calls that may be open at once.
def maxNesting : Nat := 512

-- A call with the arguments read so far, the last one first.
structure OpenCall where
  function : String
  args : List Expr

-- Where the reader stands: before the target, before an argument, behind a word that may still
-- turn out to name a function, or behind a whole expression.
inductive ReaderState where
  | start
  | argument (call : OpenCall) (outer : List OpenCall)
  | word (w : String) (calls : List OpenCall)
  | value (e : Expr) (calls : List OpenCall)

def isNameStart (c : Char) : Bool := c.isAlpha || c = '_'

def isNameRest (c : Char) : Bool := c.isAlphanum || c = '_'

-- Function names are made of basic letters, digits and underscores, and begin with no digit.
def isFunctionName (w : String) : Bool :=
  match w.toList with
  | [] => false
  | c :: cs => isNameStart c && cs.all isNameRest

namespace ReaderState

def callText (function : String) : String := function ++ "("

def openCall (function : String) (calls : List OpenCall) : Except ParseError ReaderState :=
  if !isFunctionName function then .error ⟨.invalidFunctionName, function⟩
  else if calls.length = maxNesting then .error ⟨.nestedTooDeeply, callText function⟩
  else .ok (argument ⟨function, []⟩ calls)

-- Reads a word, which may turn out to name a function. It is called where a word has been seen.
def takeWord (calls : List OpenCall) (l : Lexeme) : Except ParseError ReaderState :=
  match l.token with
  | .word w => .ok (word w calls)
  | _ => .error ⟨.notAWord, l.text⟩

def afterValue (e : Expr) (l : Lexeme) : List OpenCall → Except ParseError ReaderState
  | [] => .error ⟨.trailingInput, l.text⟩
  | call :: outer =>
    match l.token with
    | .comma => .ok (argument { call with args := e :: call.args } outer)
    | .closing => .ok (value (.call call.function (e :: call.args).reverse) outer)
    | _ => .error ⟨.expectedCommaOrClosing, l.text⟩

def step (state : ReaderState) (l : Lexeme) : Except ParseError ReaderState :=
  match state with
  | start =>
    match l.token with
    | .word _ => takeWord [] l
    | _ => .error ⟨.notATarget, l.text⟩
  | argument call outer =>
    match l.token with
    | .word _ => takeWord (call :: outer) l
    | .number x => .ok (value (.number x) (call :: outer))
    | .text s => .ok (value (.text s) (call :: outer))
    | .flag b => .ok (value (.flag b) (call :: outer))
    | _ => .error ⟨.expectedArgument, l.text⟩
  | word w calls =>
    match l.token with
    | .opening => openCall w calls
    | _ => afterValue (.series w) l calls
  | value e calls => afterValue e l calls

def finishValue (e : Expr) : List OpenCall → Except ParseError Expr
  | [] => .ok e
  | call :: _ => .error ⟨.unclosedCall, callText call.function⟩

def finish : ReaderState → Except ParseError Expr
  | start => .error ⟨.emptyTarget, ""⟩
  | argument _ _ => .error ⟨.expectedArgument, "end of input"⟩
  | word w calls => finishValue (.series w) calls
  | value e calls => finishValue e calls

def read (state : ReaderState) : List Lexeme → Except ParseError Expr
  | [] => state.finish
  | l :: ls =>
    match state.step l with
    | .error e => .error e
    | .ok next => next.read ls

end ReaderState

def parseLexemes (ls : List Lexeme) : Except ParseError Expr := ReaderState.start.read ls

def parse (target : String) : Except ParseError Expr :=
  match tokenize target.toList with
  | .error e => .error e
  | .ok ls => parseLexemes ls

end Cadence.Target
