import Cadence.Json.Token

namespace Cadence.Json

inductive Value where
  | null
  | bool (b : Bool)
  | number (n : NumberText)
  | string (s : Option String)
  | array (items : List Value)
  -- A member whose name is broken has no name and a broken value.
  | object (members : List (Option String × Value))
  | broken

-- An array or an object that is still open, what it holds so far the other way round. An object
-- may be at the value of a member.
inductive OpenValue where
  | array (items : List Value)
  | object (members : List (Option String × Value))
  | member (members : List (Option String × Value)) (name : Option String)

-- A value that stands where it was expected, inside what is open.
def OpenValue.add (v : Value) : OpenValue → OpenValue
  | array items => array (v :: items)
  | object members => object ((none, v) :: members)
  | member members name => object ((name, v) :: members)

def OpenValue.close : OpenValue → Value
  | array items => .array items.reverse
  | object members => .object members.reverse
  | member members name => .object ((name, .broken) :: members).reverse

-- Closes all that is open around a value that breaks off.
def breakOff (v : Value) : List OpenValue → Value
  | [] => v
  | innermost :: outer => breakOff (innermost.add v).close outer

-- A text's value, and whether nothing follows it.
structure Document where
  value : Value
  complete : Bool

mutual

def readAfter (v : Value) (opened : List OpenValue) (ts : List Token) : Document :=
  match opened with
  | [] => ⟨v, ts.isEmpty⟩
  | inner :: outer =>
    match inner.add v, ts with
    | inner, .comma :: ts => readNext inner outer ts
    | .array items, .closeArray :: ts => readAfter (OpenValue.array items).close outer ts
    | .object members, .closeObject :: ts => readAfter (OpenValue.object members).close outer ts
    | inner, _ => ⟨breakOff (inner.add .broken).close outer, false⟩
termination_by (ts.length, 0)

def readNext (inner : OpenValue) (outer : List OpenValue) (ts : List Token) : Document :=
  match inner with
  | .array items => readValue (.array items :: outer) ts
  | .object members => readMember members outer ts
  | .member members _ => readMember members outer ts
termination_by (ts.length, 2)

def readMember (members : List (Option String × Value)) (outer : List OpenValue)
    (ts : List Token) : Document :=
  match ts with
  | .string name :: .colon :: ts => readValue (.member members name :: outer) ts
  | .string name :: _ => ⟨breakOff (OpenValue.member members name).close outer, false⟩
  | _ => ⟨breakOff ((OpenValue.object members).add .broken).close outer, false⟩
termination_by (ts.length, 1)

def readValue (opened : List OpenValue) (ts : List Token) : Document :=
  match ts with
  | .null :: ts => readAfter .null opened ts
  | .bool b :: ts => readAfter (.bool b) opened ts
  | .number n :: ts => readAfter (.number n) opened ts
  | .string s :: ts => readAfter (.string s) opened ts
  | .openArray :: .closeArray :: ts => readAfter (.array []) opened ts
  | .openArray :: ts => readValue (.array [] :: opened) ts
  | .openObject :: .closeObject :: ts => readAfter (.object []) opened ts
  | .openObject :: ts => readMember [] opened ts
  | _ => ⟨breakOff .broken opened, false⟩
termination_by (ts.length, 1)

end

def parse (text : String) : Document := readValue [] (tokens text)

end Cadence.Json
