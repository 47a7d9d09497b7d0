import Cadence.Text.Numeral
import Cadence.Yaml.Cursor

namespace Cadence.Yaml

inductive Style where
  | plain
  | quoted
  | literal
  | folded
  deriving DecidableEq

structure Scalar where
  style : Style
  text : String
  deriving DecidableEq

-- What lies between two words of a scalar: blanks within a line, or line breaks. The first break
-- is missing where it was escaped.
inductive Gap where
  | blanks (cs : List Char)
  | breaks (first : Option Char) (more : List Char)

namespace Gap

def none : Gap := blanks []

def isNone : Gap → Bool
  | blanks cs => cs.isEmpty
  | breaks _ _ => false

def isBroken : Gap → Bool
  | blanks _ => false
  | breaks _ _ => true

-- Blanks around line breaks do not count.
def addBlank (c : Char) : Gap → Gap
  | blanks cs => blanks (cs ++ [c])
  | breaks first more => breaks first more

def addBreak (c : Char) : Gap → Gap
  | blanks _ => breaks (some c) []
  | breaks first more => breaks first (more ++ [c])

def text : Gap → List Char
  | blanks cs => cs
  | breaks (some '\n') [] => [' ']
  | breaks (some '\n') more => more
  | breaks first more => first.toList ++ more

end Gap

def escaped? (c : Char) : Option Char :=
  match c with
  | '0' => some '\x00'
  | 'a' => some '\x07'
  | 'b' => some '\x08'
  | 't' => some '\t'
  | '\t' => some '\t'
  | 'n' => some '\n'
  | 'v' => some '\x0b'
  | 'f' => some '\x0c'
  | 'r' => some '\r'
  | 'e' => some '\x1b'
  | ' ' => some ' '
  | '"' => some '"'
  | '/' => some '/'
  | '\\' => some '\\'
  | 'N' => some '\u0085'
  | '_' => some '\u00a0'
  | 'L' => some '\u2028'
  | 'P' => some '\u2029'
  | _ => none

def escapeWidth? (c : Char) : Option Nat :=
  match c with
  | 'x' => some 2
  | 'u' => some 4
  | 'U' => some 8
  | _ => none

def char? (n : Nat) : Option Char := if n.isValidChar then some (Char.ofNat n) else none

-- Where a double quoted scalar stands: in its text, behind a backslash, or before the digits of a
-- character's number.
inductive QuoteState where
  | text
  | escape
  | digits (left number : Nat)

-- Reads behind a double quote up to the next. `done` is what was read, the other way round.
def readDouble (state : QuoteState) (done : List Char) (gap : Gap) (line column : Nat) :
    List Char → Option (String × Cursor)
  | [] => none
  | c :: cs =>
    match state with
    | .digits left number => do
      let number := number * 16 + (← Text.hexValue? c)
      if left ≤ 1 then readDouble .text ((← char? number) :: done) gap line (column + 1) cs
      else readDouble (.digits (left - 1) number) done gap line (column + 1) cs
    | .escape =>
      if isBreak c then readDouble .text done (.breaks none []) (line + 1) 0 cs
      else
        match escapeWidth? c with
        | some width => readDouble (.digits width 0) done gap line (column + 1) cs
        | none => do readDouble .text ((← escaped? c) :: done) gap line (column + 1) cs
    | .text =>
      if isAnyMark column (c :: cs) then none
      else if isBlank c then readDouble .text done (gap.addBlank c) line (column + 1) cs
      else if isBreak c then readDouble .text done (gap.addBreak c) (line + 1) 0 cs
      else
        let done := gap.text.reverse ++ done
        if c = '"' then some (String.ofList done.reverse, ⟨cs, line, column + 1⟩)
        else if c = '\\' then readDouble .escape done .none line (column + 1) cs
        else readDouble .text (c :: done) .none line (column + 1) cs

-- Reads behind a single quote up to the next that is not doubled.
def readSingle (done : List Char) (gap : Gap) (line column : Nat) :
    List Char → Option (String × Cursor)
  | [] => none
  | c :: cs =>
    if isAnyMark column (c :: cs) then none
    else if isBlank c then readSingle done (gap.addBlank c) line (column + 1) cs
    else if isBreak c then readSingle done (gap.addBreak c) (line + 1) 0 cs
    else
      let done := gap.text.reverse ++ done
      if c = '\'' then
        match cs with
        | '\'' :: cs => readSingle ('\'' :: done) .none line (column + 2) cs
        | cs => some (String.ofList done.reverse, ⟨cs, line, column + 1⟩)
      else readSingle (c :: done) .none line (column + 1) cs

def isFlowIndicator (c : Char) : Bool := c ∈ [',', '[', ']', '\x7b', '\x7d']

-- How a plain scalar goes on: with its next character, not at all, or in a way it must not.
inductive PlainStep where
  | more
  | stop
  | fault
  deriving DecidableEq

-- Where a plain scalar goes on with a character that is no white space. A number sign behind white
-- space begins a comment.
def plainStep (inFlow : Bool) (indent : Int) (gap : Gap) (column : Nat) (c : Char) (cs : List Char) :
    PlainStep :=
  if gap.isBroken && ((!inFlow && (column : Int) < indent) || isAnyMark column (c :: cs)) then .stop
  else if c = '#' && !gap.isNone then .stop
  else if c = ':' && inFlow && cs.head?.any (fun d => isFlowIndicator d || d = '?') then .fault
  else if c = ':' && endsWord cs then .stop
  else if inFlow && isFlowIndicator c then .stop
  else .more

-- Reads a plain scalar: its text, whether a line ended behind it, and where the next token may
-- begin. `indent` is the least column of its further lines.
def readPlain (inFlow : Bool) (indent : Int) (done : List Char) (gap : Gap) (line column : Nat) :
    List Char → Option (String × Bool × Cursor)
  | [] => some (String.ofList done.reverse, gap.isBroken, ⟨[], line, column⟩)
  | c :: cs =>
    if isBlank c then
      if gap.isBroken && (column : Int) < indent && c = '\t' then none
      else readPlain inFlow indent done (gap.addBlank c) line (column + 1) cs
    else if isBreak c then readPlain inFlow indent done (gap.addBreak c) (line + 1) 0 cs
    else
      match plainStep inFlow indent gap column c cs with
      | .fault => none
      | .stop => some (String.ofList done.reverse, gap.isBroken, ⟨c :: cs, line, column⟩)
      | .more =>
        readPlain inFlow indent (c :: (gap.text.reverse ++ done)) .none line (column + 1) cs

inductive Chomping where
  | strip
  | clip
  | keep

-- The header of a block: what becomes of its end, and its indentation beyond that of its parent.
structure BlockHeader where
  chomping : Chomping
  indent : Option Nat

def chomping? : Option Char → Option Chomping
  | some '-' => some .strip
  | some '+' => some .keep
  | _ => none

def indentDigit? : Option Char → Option Nat
  | some c => if Text.isDigit c then some (c.toNat - '0'.toNat) else none
  | none => none

-- The characters of a header. Its parts may stand in any order.
def BlockHeader.readParts (c : Cursor) : BlockHeader × Cursor :=
  let first := c.rest.head?
  let second := (c.skip 1).rest.head?
  match chomping? first, indentDigit? first, chomping? second, indentDigit? second with
  | some chomping, _, _, some n => (⟨chomping, some n⟩, c.skip 2)
  | some chomping, _, _, none => (⟨chomping, none⟩, c.skip 1)
  | none, some n, some chomping, _ => (⟨chomping, some n⟩, c.skip 2)
  | none, some n, none, _ => (⟨.clip, some n⟩, c.skip 1)
  | none, none, _, _ => (⟨.clip, none⟩, c)

-- Reads a header with its line. An indentation is not zero.
def BlockHeader.read (c : Cursor) : Option (BlockHeader × Cursor) := do
  let (header, c) := readParts c
  if header.indent = some 0 then none
  return (header, ← c.skipLine?)

-- A block as far as it has been read. The line break of its last line and those of the empty
-- lines behind that are held back.
structure Block where
  folds : Bool
  -- The column of its lines, once that is known, and the least one until then.
  indent : Option Nat
  least : Nat
  done : List Char
  lineBreak : Option Char
  empties : List Char
  -- Whether the last line began with a blank.
  indented : Bool

namespace Block

-- Begins a line. Between two lines of a folded block that begin with no blank a line break is a
-- space.
def beginLine (b : Block) (first : Char) : Block :=
  let between :=
    if b.folds && b.lineBreak = some '\n' && !b.indented && !isBlank first then
      if b.empties.isEmpty then [' '] else b.empties
    else b.lineBreak.toList ++ b.empties
  { b with
    done := between.reverse ++ b.done
    lineBreak := none
    empties := []
    indented := isBlank first }

-- The column of the lines: that of the first line that is not empty, but not left of an empty one
-- or of the least column.
def settle (b : Block) (column : Nat) : Block :=
  { b with indent := some (b.indent.getD (max b.least column)) }

def text (b : Block) (chomping : Chomping) : String :=
  let tail :=
    match chomping with
    | .strip => []
    | .clip => b.lineBreak.toList
    | .keep => b.lineBreak.toList ++ b.empties
  String.ofList (b.done.reverse ++ tail)

-- Reads lines, from inside a line or from its indentation on.
def read (b : Block) (inLine : Bool) (line column : Nat) :
    List Char → Option (Block × Cursor)
  | [] => some (b, ⟨[], line, column⟩)
  | c :: cs =>
    if inLine then
      if isBreak c then read { b with lineBreak := some c } false (line + 1) 0 cs
      else read { b with done := c :: b.done } true line (column + 1) cs
    else
      let outside := b.indent.all (column < ·)
      if outside && c = ' ' then read b false line (column + 1) cs
      else if outside && c = '\t' then none
      else if isBreak c then
        read { b with empties := b.empties ++ [c], least := max b.least column } false (line + 1) 0 cs
      else
        let b := b.settle column
        if b.indent = some column then
          let b := b.beginLine c
          read { b with done := c :: b.done } true line (column + 1) cs
        else some (b, ⟨c :: cs, line, column⟩)

end Block

-- Reads a block behind its indicator. `parent` is the indentation around it.
def readBlock (folds : Bool) (parent : Int) (c : Cursor) : Option (Scalar × Cursor) := do
  let (header, c) ← BlockHeader.read c
  let indent := header.indent.map fun n => (max parent 0).toNat + n
  let least := (max (parent + 1) 1).toNat
  let (b, c) ← Block.read ⟨folds, indent, least, [], none, [], false⟩ false c.line c.column c.rest
  return (⟨if folds then .folded else .literal, b.text header.chomping⟩, c)

end Cadence.Yaml
