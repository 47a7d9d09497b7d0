import Cadence.Yaml.Scalar
import Cadence.Yaml.Tag

namespace Cadence.Yaml

inductive Token where
  | directive (d : Directive)
  | documentStart
  | documentEnd
  | blockSequence
  | blockMapping
  | blockEnd
  | flowSequence
  | flowSequenceEnd
  | flowMapping
  | flowMappingEnd
  | blockEntry
  | flowEntry
  | key
  | value
  | reference (name : String)
  | anchor (name : String)
  | tag (t : TagText)
  | scalar (s : Scalar)
  deriving DecidableEq

-- A node that may turn out to be a key: the number of tokens in front of it, and its place. It has
-- to be a key where it begins a line of the block that it lies in.
structure KeyCandidate where
  tokensBefore : Nat
  line : Nat
  column : Nat
  required : Bool

structure Lexer where
  cursor : Cursor
  -- The tokens so far, the other way round, and their number.
  tokens : List Token
  count : Nat
  -- The columns of the open blocks.
  indents : List Nat
  -- The candidates for keys, one for each open flow collection and one outside them.
  candidates : List (Option KeyCandidate)
  -- Whether a key may begin here.
  keyAllowed : Bool

namespace Lexer

def start (text : List Char) : Lexer := ⟨.start text, [], 0, [], [none], true⟩

def inFlow (l : Lexer) : Bool := 1 < l.candidates.length

-- The column of the innermost block, one less than the first column outside of all.
def indent (l : Lexer) : Int := l.indents.head?.elim (-1) fun (n : Nat) => n

def emit (l : Lexer) (t : Token) : Lexer := { l with tokens := t :: l.tokens, count := l.count + 1 }

def insertAt (l : Lexer) (n : Nat) (t : Token) : Lexer :=
  { l with
    tokens := l.tokens.take (l.count - n) ++ t :: l.tokens.drop (l.count - n)
    count := l.count + 1 }

def skip (l : Lexer) (n : Nat) : Lexer := { l with cursor := l.cursor.skip n }

def allowKey (l : Lexer) (allowed : Bool) : Lexer := { l with keyAllowed := allowed }

-- Passes white space, comments and line breaks. A tab is no white space where a key may begin in
-- a block. Behind a line break a key may begin.
def blanksFrom (inFlow keyAllowed inComment : Bool) (line column : Nat) : List Char → Bool × Cursor
  | [] => (keyAllowed, ⟨[], line, column⟩)
  | c :: cs =>
    if isBreak c then blanksFrom inFlow (keyAllowed || !inFlow) false (line + 1) 0 cs
    else if inComment then blanksFrom inFlow keyAllowed true line (column + 1) cs
    else if c = '#' then blanksFrom inFlow keyAllowed true line (column + 1) cs
    else if c = ' ' || (c = '\t' && (inFlow || !keyAllowed)) then
      blanksFrom inFlow keyAllowed false line (column + 1) cs
    else (keyAllowed, ⟨c :: cs, line, column⟩)

def skipBlanks (l : Lexer) : Lexer :=
  let (keyAllowed, cursor) :=
    blanksFrom l.inFlow l.keyAllowed false l.cursor.line l.cursor.column l.cursor.rest
  { l with keyAllowed, cursor }

-- The most columns from the start of a key to its colon.
def maxKeyLength : Nat := 1024

-- Whether a candidate can still become a key: its colon has to come soon and on its line.
def inReach (l : Lexer) (k : KeyCandidate) : Bool :=
  k.line = l.cursor.line && l.cursor.column ≤ k.column + maxKeyLength

-- Drops the candidates out of reach. One that had to become a key is a fault.
def dropStale (l : Lexer) : Option Lexer :=
  let isStale : Option KeyCandidate → Bool := fun k => k.any fun k => !l.inReach k
  if l.candidates.any fun k => isStale k && k.any (·.required) then none
  else some { l with candidates := l.candidates.map fun k => if isStale k then none else k }

def closeBlocks (l : Lexer) (column : Int) : Lexer :=
  let closed := l.indents.takeWhile fun (n : Nat) => decide (column < n)
  { l with
    tokens := closed.map (fun _ => Token.blockEnd) ++ l.tokens
    count := l.count + closed.length
    indents := l.indents.drop closed.length }

def leaveBlocks (l : Lexer) (column : Int) : Lexer := if l.inFlow then l else l.closeBlocks column

-- Opens a block at a column right of the innermost one. Its token comes after the first `n`.
def openBlock (l : Lexer) (column n : Nat) (t : Token) : Lexer :=
  if !l.inFlow && l.indent < (column : Int) then
    { l with indents := column :: l.indents }.insertAt n t
  else l

def dropCandidate (l : Lexer) : Option Lexer :=
  match l.candidates with
  | some k :: outer => if k.required then none else some { l with candidates := none :: outer }
  | _ => some l

-- The next node becomes the innermost candidate.
def proposeKey (l : Lexer) : Option Lexer :=
  if !l.keyAllowed then some l
  else do
    let l ← l.dropCandidate
    let required := !l.inFlow && l.indent = (l.cursor.column : Int)
    let k : KeyCandidate := ⟨l.count, l.cursor.line, l.cursor.column, required⟩
    return { l with candidates := some k :: l.candidates.drop 1 }

def node (l : Lexer) (read : Cursor → Option (Token × Cursor)) : Option Lexer := do
  let l ← l.proposeKey
  let (t, cursor) ← read l.cursor
  return { l with cursor, keyAllowed := false }.emit t

def flowStart (l : Lexer) (t : Token) : Option Lexer := do
  let l ← l.proposeKey
  return ({ l with candidates := none :: l.candidates, keyAllowed := true }.skip 1).emit t

def flowEnd (l : Lexer) (t : Token) : Option Lexer := do
  let l ← l.dropCandidate
  let outer := if l.inFlow then l.candidates.drop 1 else l.candidates
  return ({ l with candidates := outer, keyAllowed := false }.skip 1).emit t

def flowEntry (l : Lexer) : Option Lexer := do
  return (((← l.dropCandidate).allowKey true).skip 1).emit .flowEntry

-- Opens a block with an indicator, unless one is open here. That is only right where a key may
-- begin.
def openHere (l : Lexer) (t : Token) : Option Lexer :=
  if l.inFlow then some l
  else if l.keyAllowed then some (l.openBlock l.cursor.column l.count t)
  else none

def blockEntry (l : Lexer) : Option Lexer := do
  let l ← (← l.openHere .blockSequence).dropCandidate
  return ((l.allowKey true).skip 1).emit .blockEntry

def explicitKey (l : Lexer) : Option Lexer := do
  let l ← (← l.openHere .blockMapping).dropCandidate
  return ((l.allowKey !l.inFlow).skip 1).emit .key

-- At a colon the candidate is a key; without one the key is empty or was explicit.
def value (l : Lexer) : Option Lexer := do
  let l ←
    match l.candidates with
    | some k :: outer =>
      let l := { l with candidates := none :: outer }.insertAt k.tokensBefore .key
      pure ((l.openBlock k.column k.tokensBefore .blockMapping).allowKey false)
    | _ => do
      let l ← l.openHere .blockMapping
      pure (l.allowKey !l.inFlow)
  return (l.skip 1).emit .value

-- A directive or a mark, which lies outside of all blocks.
def outermost (l : Lexer) (read : Cursor → Option (Token × Cursor)) : Option Lexer := do
  let l ← (l.leaveBlocks (-1)).dropCandidate
  let (t, cursor) ← read l.cursor
  return { l with cursor, keyAllowed := false }.emit t

def readAnchor (make : String → Token) (c : Cursor) : Option (Token × Cursor) :=
  let (name, c) := (c.skip 1).span isNameChar
  if name ≠ [] && (endsWord c.rest || c.rest.head?.any (· ∈ "?:,]\x7d%@\x60".toList)) then
    some (make (String.ofList name), c)
  else none

def readTag (inFlow : Bool) (c : Cursor) : Option (Token × Cursor) := do
  let (t, c) ← TagText.read c
  if endsWord c.rest || (inFlow && c.rest.head? = some ',') then return (.tag t, c) else none

def quoted (text : Option (String × Cursor)) : Option (Token × Cursor) :=
  text.map fun (text, after) => (.scalar ⟨.quoted, text⟩, after)

def block (l : Lexer) (folds : Bool) : Option Lexer := do
  let l ← l.dropCandidate
  let (s, cursor) ← readBlock folds l.indent (l.cursor.skip 1)
  return { l with cursor, keyAllowed := true }.emit (.scalar s)

def plain (l : Lexer) : Option Lexer := do
  let l ← l.proposeKey
  let c := l.cursor
  let (text, broken, cursor) ← readPlain l.inFlow (l.indent + 1) [] .none c.line c.column c.rest
  return { l with cursor, keyAllowed := broken }.emit (.scalar ⟨.plain, text⟩)

-- Whether a plain scalar may begin with a character in front of others.
def startsPlain (inFlow : Bool) (c : Char) (cs : List Char) : Bool :=
  !(isBlank c || isBreak c || c ∈ "-?:,[]\x7b\x7d#&*!|>'\"%@\x60".toList)
    || (c = '-' && !cs.head?.any isBlank)
    || (!inFlow && (c = '?' || c = ':') && !endsWord cs)

def token (l : Lexer) (c : Char) (cs : List Char) : Option Lexer :=
  let at_ := l.cursor
  if c = '%' && at_.column = 0 then
    l.outermost fun k => (Directive.read (k.skip 1)).map fun (d, k) => (.directive d, k)
  else if isMark documentStart at_.column (c :: cs) then
    l.outermost fun k => some (.documentStart, k.skip 3)
  else if isMark documentEnd at_.column (c :: cs) then
    l.outermost fun k => some (.documentEnd, k.skip 3)
  else if c = '[' then l.flowStart .flowSequence
  else if c = '\x7b' then l.flowStart .flowMapping
  else if c = ']' then l.flowEnd .flowSequenceEnd
  else if c = '\x7d' then l.flowEnd .flowMappingEnd
  else if c = ',' then l.flowEntry
  else if c = '-' && endsWord cs then l.blockEntry
  else if c = '?' && (l.inFlow || endsWord cs) then l.explicitKey
  else if c = ':' && (l.inFlow || endsWord cs) then l.value
  else if c = '*' then l.node (readAnchor .reference)
  else if c = '&' then l.node (readAnchor .anchor)
  else if c = '!' then l.node (readTag l.inFlow)
  else if c = '|' && !l.inFlow then l.block false
  else if c = '>' && !l.inFlow then l.block true
  else if c = '\'' then
    l.node fun k => quoted (readSingle [] .none k.line (k.column + 1) cs)
  else if c = '"' then
    l.node fun k => quoted (readDouble .text [] .none k.line (k.column + 1) cs)
  else if startsPlain l.inFlow c cs then l.plain
  else none

def finish (l : Lexer) : Option (List Token) := do
  return (← (l.leaveBlocks (-1)).dropCandidate).tokens.reverse

-- Reads on to the end, in at most so many steps.
def run : Nat → Lexer → Option (List Token)
  | 0, _ => none
  | steps + 1, l => do
    let l ← l.skipBlanks.dropStale
    match l.cursor.rest with
    | [] => l.finish
    | c :: cs => run steps (← (l.leaveBlocks l.cursor.column).token c cs)

end Lexer

-- The tokens of a text, unless it breaks a rule. Every step takes a character at least, and the
-- last one finds none.
def tokens? (text : String) : Option (List Token) :=
  if text.toList.all isAllowed then (Lexer.start text.toList).run (text.length + 1) else none

end Cadence.Yaml
