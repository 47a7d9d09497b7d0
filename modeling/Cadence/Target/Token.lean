import Cadence.Text.Case
import Cadence.Text.Numeral
import Cadence.Decimal.Binary

namespace Cadence.Target

open Text

inductive Token where
  | opening
  | closing
  | comma
  | word (w : String)
  | text (s : String)
  | number (x : Float)
  | flag (b : Bool)

structure Lexeme where
  token : Token
  text : String

inductive ParseReason where
  | unterminatedText
  | unbalancedBrace
  | unterminatedBrace
  | invalidNumber
  | notATarget
  | emptyTarget
  | expectedArgument
  | invalidFunctionName
  | nestedTooDeeply
  | expectedCommaOrClosing
  | unclosedCall
  | trailingInput
  -- A word was to be read where there is none.
  | notAWord
  deriving DecidableEq

-- The fragment is the text at which reading stopped.
structure ParseError where
  reason : ParseReason
  fragment : String
  deriving DecidableEq

def ParseReason.message : ParseReason → String
  | unterminatedText => "unterminated string literal"
  | unbalancedBrace => "unbalanced '\x7d'"
  | unterminatedBrace => "unterminated '\x7b'"
  | invalidNumber => "invalid number"
  | notATarget => "target must be a series list or function call"
  | emptyTarget => "empty target"
  | expectedArgument => "expected argument"
  | invalidFunctionName => "invalid function name"
  | nestedTooDeeply => "expression nested too deeply"
  | expectedCommaOrClosing => "expected ',' or ')'"
  | unclosedCall => "unclosed call"
  | trailingInput => "unexpected trailing input"
  | notAWord => "parse_word called on non-word"

def isQuote (c : Char) : Bool := c = '"' || c = '\''

def punctuation? (c : Char) : Option Token :=
  if c = '(' then some .opening
  else if c = ')' then some .closing
  else if c = ',' then some .comma
  else none

def endsWord (c : Char) : Bool := (punctuation? c).isSome || isQuote c || isBlank c

-- Reads up to a closing quote: the content, the text with its escapes and the closing quote, and
-- the rest. A backslash makes any character part of the content.
def readQuoted (quote : Char) : List Char → Option (List Char × List Char × List Char)
  | [] => none
  | c :: cs =>
    if c = '\\' then
      match cs with
      | [] => none
      | e :: cs => (readQuoted quote cs).map fun (content, raw, rest) =>
          (e :: content, c :: e :: raw, rest)
    else if c = quote then some ([], [c], cs)
    else (readQuoted quote cs).map fun (content, raw, rest) => (c :: content, c :: raw, rest)

-- How a word ends: before what is left, at a brace that closes nothing, or inside a brace.
inductive WordEnd where
  | stop (rest : List Char)
  | unbalanced
  | unterminated

-- The characters of a word, and how it ends.
def readWord (depth : Nat) : List Char → List Char × WordEnd
  | [] => ([], if depth = 0 then .stop [] else .unterminated)
  | c :: cs =>
    if c = '\x7b' then
      let (word, ending) := readWord (depth + 1) cs
      (c :: word, ending)
    else if c = '\x7d' then
      if depth = 0 then ([c], .unbalanced)
      else
        let (word, ending) := readWord (depth - 1) cs
        (c :: word, ending)
    else if depth = 0 ∧ endsWord c then ([], .stop (c :: cs))
    else
      let (word, ending) := readWord depth cs
      (c :: word, ending)

-- A number without its sign: digits, and at most one point among them.
def isUnsignedNumber (cs : List Char) : Bool :=
  cs.any isDigit && cs.all (fun c => isDigit c || c = '.') && cs.count '.' ≤ 1

def unsigned : List Char → List Char
  | c :: cs => if c = '+' ∨ c = '-' then cs else c :: cs
  | [] => []

def isNumber (word : List Char) : Bool := isUnsignedNumber (unsigned word)

-- The double nearest to a number: digits around a point or without one, behind a sign or none.
def number? (word : List Char) : Option Float :=
  let digits := unsigned word
  let whole := digits.takeWhile (· ≠ '.')
  let decimals := (digits.dropWhile (· ≠ '.')).drop 1
  if (whole ++ decimals).all isDigit ∧ whole ++ decimals ≠ [] then
    some (Decimal.nearest (word.head? = some '-') (digitsValue (whole ++ decimals))
      (-(decimals.length : Int)))
  else none

-- The token that a word stands for, unless it looks like a number and is none.
def wordToken? (word : List Char) : Option Token :=
  if word = "true".toList then some (.flag true)
  else if word = "false".toList then some (.flag false)
  else if isNumber word then (number? word).map .number
  else some (.word (String.ofList word))

-- What is at the front of a text: a lexeme, a blank, or a fault.
inductive Front where
  | lexeme (l : Lexeme) (rest : List Char)
  | blank (rest : List Char)
  | fault (e : ParseError)

def front (c : Char) (cs : List Char) : Front :=
  match punctuation? c with
  | some token => .lexeme ⟨token, c.toString⟩ cs
  | none =>
    if isBlank c then .blank cs
    else if isQuote c then
      match readQuoted c cs with
      | none => .fault ⟨.unterminatedText, String.ofList (c :: cs)⟩
      | some (content, raw, rest) =>
        .lexeme ⟨.text (String.ofList content), String.ofList (c :: raw)⟩ rest
    else
      match readWord 0 (c :: cs) with
      | (word, .stop rest) =>
        match wordToken? word with
        | some token => .lexeme ⟨token, String.ofList word⟩ rest
        | none => .fault ⟨.invalidNumber, String.ofList word⟩
      | (word, .unbalanced) => .fault ⟨.unbalancedBrace, String.ofList word⟩
      | (_, .unterminated) => .fault ⟨.unterminatedBrace, String.ofList (c :: cs)⟩

def Front.rest? : Front → Option (List Char)
  | lexeme _ rest => some rest
  | blank rest => some rest
  | fault _ => none

-- Nothing is lost: content and rest make up what was read.
theorem append_of_readQuoted {quote : Char} {cs content raw rest : List Char}
    (h : readQuoted quote cs = some (content, raw, rest)) : raw ++ rest = cs := by
  fun_induction readQuoted quote cs generalizing content raw rest with
  | case1 => cases h
  | case2 => cases h
  | case3 e cs ih =>
    simp only [Option.map_eq_some_iff, Prod.exists, Prod.mk.injEq] at h
    obtain ⟨t, r, u, hr, rfl, rfl, rfl⟩ := h
    simp [ih hr]
  | case4 cs hc =>
    simp only [Option.some.injEq, Prod.mk.injEq] at h
    obtain ⟨rfl, rfl, rfl⟩ := h
    rfl
  | case5 c cs hc hq ih =>
    simp only [Option.map_eq_some_iff, Prod.exists, Prod.mk.injEq] at h
    obtain ⟨t, r, u, hr, rfl, rfl, rfl⟩ := h
    simp [ih hr]

theorem append_of_readWord {depth : Nat} {cs word rest : List Char}
    (h : readWord depth cs = (word, .stop rest)) : word ++ rest = cs := by
  fun_induction readWord depth cs generalizing word <;> grind

-- A word that begins with no delimiter takes at least its first character.
theorem length_of_readWord {c : Char} {cs word rest : List Char} (hc : endsWord c = false)
    (h : readWord 0 (c :: cs) = (word, .stop rest)) : rest.length ≤ cs.length := by
  have hl := congrArg List.length (append_of_readWord h)
  cases word with
  | nil =>
    rw [readWord] at h
    grind
  | cons d word =>
    simp only [List.cons_append, List.length_cons, List.length_append] at hl
    omega

-- A lexeme or a blank takes at least its first character.
theorem length_of_front {c : Char} {cs rest : List Char} (h : (front c cs).rest? = some rest) :
    rest.length ≤ cs.length := by
  unfold front at h
  split at h
  · cases h
    exact Nat.le_refl _
  · rename_i hp
    split at h
    · cases h
      exact Nat.le_refl _
    · rename_i hb
      split at h
      · split at h
        · cases h
        · rename_i hr
          cases h
          have := congrArg List.length (append_of_readQuoted hr)
          simp only [List.length_append] at this
          omega
      · rename_i hq
        split at h
        · rename_i hw
          split at h
          · cases h
            exact length_of_readWord (by simp [endsWord, hp, hb, hq]) hw
          · cases h
        · cases h
        · cases h

def tokenize (cs : List Char) : Except ParseError (List Lexeme) :=
  match cs with
  | [] => .ok []
  | c :: cs =>
    match _h : front c cs with
    | .fault e => .error e
    | .blank rest => tokenize rest
    | .lexeme l rest =>
      match tokenize rest with
      | .error e => .error e
      | .ok ls => .ok (l :: ls)
termination_by cs.length
decreasing_by
  all_goals
    have := length_of_front (congrArg Front.rest? _h)
    simp only [List.length_cons]
    omega

end Cadence.Target
