import Cadence.Config.Basic
import Cadence.Yaml.Schema

namespace Cadence.Config

open Yaml

-- The text of any scalar, whatever it stands for.
def text? : Node → Option String
  | .scalar _ s => some s.text
  | _ => none

def unsigned? : Node → Option Nat
  | .scalar tag s =>
    if s.style = .plain ∨ (s.style = .literal ∧ tag = some (standardTags ++ "int")) then
      Yaml.unsigned? s.text
    else none
  | _ => none

def string? (n : Node) : Option String :=
  match n.resolve with
  | some (.text s) => some s
  | _ => none

-- One of several names, or its number among them.
def choice? (names : List String) (n : Node) : Option (Option Nat) :=
  match n.resolve with
  | some (.text s) => some (names.idxOf? s)
  | some (.natural k) => some (if k < names.length then some k else none)
  | _ => none

-- The values of some fields by their names or in their order; each may stand only once.
def fields? (names : List String) : Node → Option (List (Option Node))
  | .mapping _ entries =>
    entries.foldlM (fun found (key, value) => do
      match ← choice? names key with
      | none => return found
      | some k => if (found[k]?.join).isSome then none else return found.set k (some value))
      (names.map fun _ => none)
  | .sequence _ items =>
    if items.length ≤ names.length then
      some (items.map some ++ List.replicate (names.length - items.length) none)
    else none
  | _ => none

-- A variant that holds nothing. As a sequence it has nothing behind its name.
def nothing? : Node → Option Unit
  | .sequence _ [] => some ()
  | .mapping _ _ => some ()
  | _ => none

def typeField : String := "type"

-- The name of a variant, and what else it holds.
def variant? : Node → Option (Node × Node)
  | .mapping tag entries =>
    match isLocal tag, entries.partition fun e => e.1.resolve = some (.text typeField) with
    | false, ([(_, name)], rest) => some (name, .mapping tag rest)
    | _, _ => none
  | .sequence tag (name :: items) => if isLocal tag then none else some (name, .sequence tag items)
  | _ => none

def objectStores : List String := ["InMemory", "Aws", "Local"]

def objectStore? (n : Node) : Option ObjectStore := do
  let (name, content) ← variant? n
  match ← choice? objectStores name with
  | some 0 => do
    nothing? content
    return .inMemory
  | some 1 =>
    match ← fields? ["region", "bucket"] content with
    | [some region, some bucket] => return .bucket (← string? region) (← string? bucket)
    | _ => none
  | some 2 =>
    match ← fields? ["path"] content with
    | [some path] => return .directory (← string? path)
    | _ => none
  | _ => none

-- A text that may be null or left out.
def optionalString? : Option Node → Option (Option String)
  | none => some none
  | some n => if n.resolve = some .null then some none else (string? n).map some

def durable? (content : Node) : Option StorageConfig := do
  match ← fields? ["path", "object_store", "settings_path"] content with
  | [some path, some objects, settings] =>
    return .durable (← string? path) (← objectStore? objects) (← optionalString? settings)
  | _ => none

-- How deep collections may be nested in a storage, itself included.
def maxDepth : Nat := 127

def storage? (n : Node) : Option StorageConfig := do
  let (name, content) ← variant? n
  if !content.isData maxDepth then none
  match ← text? name with
  | "InMemory" => do
    nothing? content
    return .inMemory
  | "SlateDb" => durable? content
  | _ => none

-- A setting by its name, which may stand only once; the standard value without it.
def setting? {α : Type} (entries : List (String × Node)) (name : String) (read : Node → Option α)
    (standard : α) : Option α :=
  match entries.filter (·.1 = name) with
  | [] => some standard
  | [(_, n)] => read n
  | _ => none

def ofEntries? (entries : List (String × Node)) : Option Config := do
  return {
    storage := ← setting? entries "storage" storage? standard.storage
    tablePrefix := ← setting? entries "table_prefix" text? standard.tablePrefix
    batchLimit := ← setting? entries "batch_limit" unsigned? standard.batchLimit }

def ofNode? : Node → Option Config
  | .mapping _ entries => do
    ofEntries? (← entries.mapM fun (key, value) => return (← text? key, value))
  | .scalar _ s => if s = ⟨.plain, ""⟩ then some standard else none
  | _ => none

-- A text without a document is the standard configuration.
def read? (text : String) : Option Config := do
  match ← document? text with
  | none => return standard
  | some n => ofNode? n

def ofYaml (text : String) : Except QueryError Config :=
  match read? text with
  | some c => c.validate
  | none => .error (.config "failed to parse config")

def unreadable (path fault : String) : QueryError :=
  .config ("failed to read " ++ path ++ ": " ++ fault)

end Cadence.Config
