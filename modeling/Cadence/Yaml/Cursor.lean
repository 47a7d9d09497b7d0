namespace Cadence.Yaml

def isBreak (c : Char) : Bool := c = '\n' || c = '\u2028' || c = '\u2029'

def isBlank (c : Char) : Bool := c = ' ' || c = '\t'

def isNameChar (c : Char) : Bool :=
  c.isAlphanum || c = '_' || c = '-'

def isAllowed (c : Char) : Bool :=
  let n := c.toNat
  n = 0x9 || n = 0xa || n = 0xd || n = 0x85 || (0x20 ≤ n && n ≤ 0x7e) || (0xa0 ≤ n && n ≤ 0xfffd)
    || 0x10000 ≤ n

-- One line feed for each way to end a line, except for the two separators, which are kept.
def unifyBreaks : List Char → List Char
  | '\r' :: '\n' :: cs => '\n' :: unifyBreaks cs
  | c :: cs => (if c = '\r' ∨ c = '\u0085' then '\n' else c) :: unifyBreaks cs
  | [] => []

-- Whether a word ends here: at a blank, a line break or the end of the text.
def endsWord : List Char → Bool
  | [] => true
  | c :: _ => isBlank c || isBreak c

structure Cursor where
  rest : List Char
  line : Nat
  column : Nat

namespace Cursor

-- A byte order mark at the front takes up a column.
def start (text : List Char) : Cursor :=
  match unifyBreaks text with
  | '\ufeff' :: cs => ⟨cs, 0, 1⟩
  | cs => ⟨cs, 0, 0⟩

def skip (c : Cursor) (n : Nat) : Cursor := { c with rest := c.rest.drop n, column := c.column + n }

-- The characters up to the first that fails a test, and the place of that one.
def span (c : Cursor) (p : Char → Bool) : List Char × Cursor :=
  let taken := c.rest.takeWhile p
  (taken, c.skip taken.length)

def skipBlanks (c : Cursor) : Cursor := (c.span isBlank).2

def skipBreak (c : Cursor) : Cursor :=
  match c.rest with
  | b :: cs => if isBreak b then ⟨cs, c.line + 1, 0⟩ else c
  | [] => c

-- Passes what is left of a line: blanks and a comment. Anything else is a fault.
def skipLine? (c : Cursor) : Option Cursor :=
  let c := c.skipBlanks
  let c := if c.rest.head? = some '#' then (c.span fun b => !isBreak b).2 else c
  if c.rest.head?.all isBreak then some c.skipBreak else none

end Cursor

def documentStart : List Char := ['-', '-', '-']

def documentEnd : List Char := ['.', '.', '.']

def isMark (mark : List Char) (column : Nat) (cs : List Char) : Bool :=
  column = 0 && cs.take 3 = mark && endsWord (cs.drop 3)

def isAnyMark (column : Nat) (cs : List Char) : Bool :=
  isMark documentStart column cs || isMark documentEnd column cs

end Cadence.Yaml
