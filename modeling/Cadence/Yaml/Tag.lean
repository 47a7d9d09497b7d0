import Cadence.Text.Numeral
import Cadence.Text.Utf8
import Cadence.Yaml.Cursor

namespace Cadence.Yaml

inductive TagText where
  -- In full, between angle brackets.
  | verbatim (uri : String)
  -- An exclamation mark alone.
  | plain
  -- A handle, from one exclamation mark to another or that mark alone, and what follows it.
  | shorthand (handle suffix : String)
  deriving DecidableEq

def isUriChar (c : Char) : Bool := isNameChar c || c ∈ ";/?:@&=+$.%!~*'()".toList

def isVerbatimChar (c : Char) : Bool := isUriChar c || c ∈ [',', '[', ']']

-- The bytes of a tag; a percent sign and two digits stand for one.
def unescape : List Char → Option Bytes
  | [] => some []
  | '%' :: high :: low :: cs => do
    let b := (← Text.hexValue? high) * 16 + (← Text.hexValue? low)
    return UInt8.ofNat b :: (← unescape cs)
  | c :: cs => if c = '%' then none else (unescape cs).map (Text.Utf8.encode c.toString ++ ·)

def uri? (cs : List Char) : Option String := do
  (Text.Utf8.decode (← unescape cs)).toOption

-- A handle at an exclamation mark, and whether a second one closes it.
def readHandle (c : Cursor) : Option (List Char × Bool × Cursor) :=
  match c.rest with
  | '!' :: _ =>
    let (name, c) := (c.skip 1).span isNameChar
    if c.rest.head? = some '!' then some (name, true, c.skip 1) else some (name, false, c)
  | _ => none

def TagText.read (c : Cursor) : Option (TagText × Cursor) := do
  if (c.skip 1).rest.head? = some '<' then
    let (uri, c) := (c.skip 2).span isVerbatimChar
    if uri = [] ∨ c.rest.head? ≠ some '>' then none
    return (.verbatim (← uri? uri), c.skip 1)
  else
    let (name, closed, c) ← readHandle c
    let (more, c) := c.span isUriChar
    if closed then
      if more = [] then none
      return (.shorthand (String.ofList ('!' :: name ++ ['!'])) (← uri? more), c)
    else if name = [] ∧ more = [] then return (.plain, c)
    else return (.shorthand "!" (← uri? (name ++ more)), c)

inductive Directive where
  | version (major minor : Nat)
  | handle (name meaning : String)
  deriving DecidableEq

-- A version's numbers have at most nine digits.
def readVersionNumber (c : Cursor) : Option (Nat × Cursor) :=
  let (digits, c) := c.span Text.isDigit
  if digits = [] ∨ 9 < digits.length then none else some (Text.digitsValue digits, c)

def Directive.readVersion (c : Cursor) : Option (Directive × Cursor) := do
  let (major, c) ← readVersionNumber c.skipBlanks
  if c.rest.head? ≠ some '.' then none
  let (minor, c) ← readVersionNumber (c.skip 1)
  return (.version major minor, c)

def Directive.readHandle (c : Cursor) : Option (Directive × Cursor) := do
  let (name, closed, c) ← Yaml.readHandle c.skipBlanks
  if name ≠ [] ∧ !closed then none
  if !c.rest.head?.any isBlank then none
  let (meaning, c) := c.skipBlanks.span isVerbatimChar
  if meaning = [] ∨ !endsWord c.rest then none
  let name := String.ofList ('!' :: name ++ if closed then ['!'] else [])
  return (.handle name (← uri? meaning), c)

def Directive.read (c : Cursor) : Option (Directive × Cursor) := do
  let (name, c) := c.span isNameChar
  if !endsWord c.rest then none
  let (directive, c) ←
    if name = "YAML".toList then readVersion c
    else if name = "TAG".toList then readHandle c
    else none
  return (directive, ← c.skipLine?)

abbrev Handles := List (String × String)

def standardTags : String := "tag:yaml.org,2002:"

def Handles.standard : Handles := [("!", "!"), ("!!", standardTags)]

-- The directives of a document: at most one version, which has to be known, and each handle once.
def Handles.ofDirectives (directives : List Directive) : Option Handles :=
  let versions := directives.filterMap fun
    | .version major minor => some (major, minor)
    | .handle _ _ => none
  let handles := directives.filterMap fun
    | .version _ _ => none
    | .handle name meaning => some (name, meaning)
  if versions.length ≤ 1 ∧ versions.all (· ∈ [(1, 1), (1, 2)]) ∧ (handles.map (·.1)).Nodup then
    some (handles ++ standard)
  else none

def TagText.resolve (handles : Handles) : TagText → Option String
  | verbatim uri => some uri
  | plain => some "!"
  | shorthand handle suffix => (handles.lookup handle).map (· ++ suffix)

end Cadence.Yaml
