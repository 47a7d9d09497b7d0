import Cadence.Yaml.Token

namespace Cadence.Yaml

inductive Node where
  | scalar (tag : Option String) (s : Scalar)
  | sequence (tag : Option String) (items : List Node)
  | mapping (tag : Option String) (entries : List (Node × Node))
  -- A reference from inside the node that it refers to.
  | loop

def Node.empty : Node := .scalar none ⟨.plain, ""⟩

structure Properties where
  anchor : Option String
  tag : Option String

def Properties.none : Properties := ⟨.none, .none⟩

def Properties.isNone (p : Properties) : Bool := p.anchor.isNone && p.tag.isNone

-- Nodes by their anchors, the latest first. A node has a number; it is missing until it is whole.
structure Anchors where
  nodes : List (String × Nat × Option Node)
  handles : Handles

namespace Anchors

def find? (a : Anchors) (name : String) : Option Node :=
  (a.nodes.lookup name).map fun entry => entry.2.getD .loop

-- Sets an anchor to a node that is still to come: its number and the anchors with it.
def begin (a : Anchors) (p : Properties) : Option Nat × Anchors :=
  match p.anchor with
  | none => (none, a)
  | some name => (some a.nodes.length, { a with nodes := (name, a.nodes.length, none) :: a.nodes })

def complete (a : Anchors) (number : Option Nat) (n : Node) : Anchors :=
  match number with
  | none => a
  | some k =>
    { a with nodes := a.nodes.map fun (name, number, node) =>
        (name, number, if number = k then some n else node) }

end Anchors

-- A collection as far as it has been read: the number of its anchor, its tag, and what it holds,
-- the other way round.
structure Started (α : Type) where
  number : Option Nat
  tag : Option String
  held : List α

abbrev Entry := Node × Node

-- What is open around a node.
inductive Frame where
  -- An item of a sequence. A sequence that is the value of a mapping needs no indentation.
  | blockItem (c : Started Node)
  | looseItem (c : Started Node)
  | flowItem (c : Started Node)
  -- The key or the value of a mapping.
  | blockKey (c : Started Entry)
  | blockValue (c : Started Entry) (key : Node)
  | flowKey (c : Started Entry)
  | flowValue (c : Started Entry) (key : Node)
  -- A key in braces that no key indicator announced has no value.
  | bareKey (c : Started Entry)
  -- The key or the value of a single pair among the items of a sequence.
  | pairKey (c : Started Node)
  | pairValue (c : Started Node) (key : Node)

namespace Frame

-- Whether the node in a frame may be a block.
def admitsBlock : Frame → Bool
  | blockItem _ => true
  | looseItem _ => true
  | blockKey _ => true
  | blockValue _ _ => true
  | _ => false

-- Whether the node in a frame may be a sequence without indentation.
def admitsLoose : Frame → Bool
  | blockKey _ => true
  | blockValue _ _ => true
  | _ => false

-- The tokens before which the node in a frame is left out.
def emptyBefore : Frame → List Token
  | blockItem _ => [.blockEntry, .blockEnd]
  | looseItem _ => [.blockEntry, .key, .value, .blockEnd]
  | blockKey _ => [.key, .value, .blockEnd]
  | blockValue _ _ => [.key, .value, .blockEnd]
  | flowKey _ => [.value, .flowEntry, .flowMappingEnd]
  | flowValue _ _ => [.flowEntry, .flowMappingEnd]
  | pairKey _ => [.value, .flowEntry, .flowSequenceEnd]
  | pairValue _ _ => [.flowEntry, .flowSequenceEnd]
  | flowItem _ => []
  | bareKey _ => []

def isEmptyBefore (f : Frame) (ts : List Token) : Bool := ts.head?.any (· ∈ f.emptyBefore)

end Frame

-- Outside of all frames a node may be a block.
def admitsBlock (fs : List Frame) : Bool := fs.head?.all Frame.admitsBlock

def admitsLoose (fs : List Frame) : Bool := fs.head?.any Frame.admitsLoose

def Started.add {α : Type} (c : Started α) (a : α) : Started α := { c with held := a :: c.held }

def pair (key value : Node) : Node := .mapping none [(key, value)]

abbrev Result := Option (Node × List Token)

mutual

def readContent (a : Anchors) (f : Frame) (fs : List Frame) (ts : List Token) : Result :=
  if f.isEmptyBefore ts then afterNode a .empty (f :: fs) ts
  else readNode a .none (f :: fs) ts
termination_by (ts.length, fs.length + 1, 4)

def readNode (a : Anchors) (p : Properties) (fs : List Frame) (ts : List Token) : Result :=
  let (number, opened) := a.begin p
  match ts with
  | .reference name :: ts =>
    match p.isNone, a.find? name with
    | true, some n => afterNode a n fs ts
    | _, _ => none
  | .anchor name :: ts =>
    if p.anchor.isSome then none else readNode a { p with anchor := some name } fs ts
  | .tag t :: ts =>
    match p.tag, t.resolve a.handles with
    | none, some tag => readNode a { p with tag := some tag } fs ts
    | _, _ => none
  | .scalar s :: ts =>
    let n := Node.scalar (if p.tag = some "!" then none else p.tag) s
    afterNode (opened.complete number n) n fs ts
  | .flowSequence :: ts => readFlowItem opened ⟨number, p.tag, []⟩ fs ts
  | .flowMapping :: ts => readFlowKey opened ⟨number, p.tag, []⟩ fs ts
  | .blockSequence :: ts =>
    if admitsBlock fs then readBlockItem opened ⟨number, p.tag, []⟩ fs ts else none
  | .blockMapping :: ts =>
    if admitsBlock fs then readBlockKey opened ⟨number, p.tag, []⟩ fs ts else none
  | .blockEntry :: ts =>
    if admitsLoose fs then readContent opened (.looseItem ⟨number, p.tag, []⟩) fs ts
    else leaveOut opened number p fs (.blockEntry :: ts)
  | ts => leaveOut opened number p fs ts
termination_by (ts.length, fs.length, 3)

-- A node of which there are only properties is left out otherwise.
def leaveOut (a : Anchors) (number : Option Nat) (p : Properties) (fs : List Frame)
    (ts : List Token) : Result :=
  if p.isNone then none
  else
    let n := Node.scalar p.tag ⟨.plain, ""⟩
    afterNode (a.complete number n) n fs ts
termination_by (ts.length, fs.length, 2)

def afterNode (a : Anchors) (n : Node) (fs : List Frame) (ts : List Token) : Result :=
  match fs with
  | [] => some (n, ts)
  | .blockItem c :: fs => readBlockItem a (c.add n) fs ts
  | .looseItem c :: fs => readLooseItem a (c.add n) fs ts
  | .flowItem c :: fs => afterFlowItem a (c.add n) fs ts
  | .blockKey c :: fs =>
    match ts with
    | .value :: ts => readContent a (.blockValue c n) fs ts
    | ts => readBlockKey a (c.add (n, .empty)) fs ts
  | .blockValue c key :: fs => readBlockKey a (c.add (key, n)) fs ts
  | .flowKey c :: fs =>
    match ts with
    | .value :: ts => readContent a (.flowValue c n) fs ts
    | ts => afterFlowEntry a (c.add (n, .empty)) fs ts
  | .flowValue c key :: fs => afterFlowEntry a (c.add (key, n)) fs ts
  | .bareKey c :: fs => afterFlowEntry a (c.add (n, .empty)) fs ts
  | .pairKey c :: fs =>
    match ts with
    | .value :: ts => readContent a (.pairValue c n) fs ts
    | ts => afterFlowItem a (c.add (pair n .empty)) fs ts
  | .pairValue c key :: fs => afterFlowItem a (c.add (pair key n)) fs ts
termination_by (ts.length, fs.length, 1)

def readBlockItem (a : Anchors) (c : Started Node) (fs : List Frame) (ts : List Token) : Result :=
  match ts with
  | .blockEntry :: ts => readContent a (.blockItem c) fs ts
  | .blockEnd :: ts => closeSequence a c fs ts
  | _ => none
termination_by (ts.length, fs.length + 1, 0)

-- Reads the next item of a sequence without indentation, which needs no end.
def readLooseItem (a : Anchors) (c : Started Node) (fs : List Frame) (ts : List Token) : Result :=
  match ts with
  | .blockEntry :: ts => readContent a (.looseItem c) fs ts
  | ts => closeSequence a c fs ts
termination_by (ts.length, fs.length + 1, 0)

def readBlockKey (a : Anchors) (c : Started Entry) (fs : List Frame) (ts : List Token) : Result :=
  match ts with
  | .key :: ts => readContent a (.blockKey c) fs ts
  | .blockEnd :: ts => closeMapping a c fs ts
  | _ => none
termination_by (ts.length, fs.length + 1, 0)

def readFlowItem (a : Anchors) (c : Started Node) (fs : List Frame) (ts : List Token) : Result :=
  match ts with
  | .flowSequenceEnd :: ts => closeSequence a c fs ts
  | .key :: ts => readContent a (.pairKey c) fs ts
  | ts => readNode a .none (.flowItem c :: fs) ts
termination_by (ts.length, fs.length + 1, 4)

def afterFlowItem (a : Anchors) (c : Started Node) (fs : List Frame) (ts : List Token) : Result :=
  match ts with
  | .flowSequenceEnd :: ts => closeSequence a c fs ts
  | .flowEntry :: ts => readFlowItem a c fs ts
  | _ => none
termination_by (ts.length, fs.length + 1, 0)

def readFlowKey (a : Anchors) (c : Started Entry) (fs : List Frame) (ts : List Token) : Result :=
  match ts with
  | .flowMappingEnd :: ts => closeMapping a c fs ts
  | .key :: ts => readContent a (.flowKey c) fs ts
  | ts => readNode a .none (.bareKey c :: fs) ts
termination_by (ts.length, fs.length + 1, 4)

def afterFlowEntry (a : Anchors) (c : Started Entry) (fs : List Frame) (ts : List Token) : Result :=
  match ts with
  | .flowMappingEnd :: ts => closeMapping a c fs ts
  | .flowEntry :: ts => readFlowKey a c fs ts
  | _ => none
termination_by (ts.length, fs.length + 1, 0)

def closeSequence (a : Anchors) (c : Started Node) (fs : List Frame) (ts : List Token) : Result :=
  let n := Node.sequence c.tag c.held.reverse
  afterNode (a.complete c.number n) n fs ts
termination_by (ts.length, fs.length, 2)

def closeMapping (a : Anchors) (c : Started Entry) (fs : List Frame) (ts : List Token) : Result :=
  let n := Node.mapping c.tag c.held.reverse
  afterNode (a.complete c.number n) n fs ts
termination_by (ts.length, fs.length, 2)

end

def directives : List Token → List Directive × List Token
  | .directive d :: ts =>
    let (ds, ts) := directives ts
    (d :: ds, ts)
  | ts => ([], ts)

-- What is at the front of some tokens: a document, which may be empty behind its mark.
def readDocument (ts : List Token) : Result :=
  match directives ts with
  | ([], .documentStart :: ts) => content .standard ts
  | ([], ts) => readNode ⟨[], .standard⟩ .none [] ts
  | (ds, .documentStart :: ts) => do content (← Handles.ofDirectives ds) ts
  | _ => none
where
  content (handles : Handles) (ts : List Token) : Result :=
    match ts with
    | [] => some (.empty, [])
    | .documentEnd :: _ => some (.empty, ts)
    | ts => readNode ⟨[], handles⟩ .none [] ts

-- What a text of at most one document holds. There is none if the text breaks a rule.
def document? (text : String) : Option (Option Node) := do
  match ← tokens? text with
  | [] => return none
  | ts =>
    let (n, after) ← readDocument ts
    if after.all (· = .documentEnd) then return some n else none

end Cadence.Yaml
