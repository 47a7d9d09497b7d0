import Cadence.Text.Utf8
import Std.Data.ExtTreeMap

namespace Cadence

-- How a new value is combined with the stored one, if there is one.
abbrev MergeRule := Option Bytes → Bytes → Bytes

inductive EngineError where
  | storage (text : String)
  | internal (text : String)
  deriving DecidableEq

def EngineError.message : EngineError → String
  | storage text => "Storage error: " ++ text
  | internal text => "Internal error: " ++ text

-- A merge on a database that was opened without a rule.
def EngineError.noMergeRule : EngineError :=
  .storage "Merge operator not configured for this database"

abbrev Record := Bytes × Bytes

inductive Bound where
  | unbounded
  | included (key : Bytes)
  | excluded (key : Bytes)

def Bound.isBelow (b : Bound) (key : Bytes) : Bool :=
  match b with
  | unbounded => true
  | included low => (compare low key).isLE
  | excluded low => (compare low key).isLT

def Bound.isAbove (b : Bound) (key : Bytes) : Bool :=
  match b with
  | unbounded => true
  | included high => (compare key high).isLE
  | excluded high => (compare key high).isLT

structure Database where
  records : Std.ExtTreeMap Bytes Bytes
  rule : Option MergeRule

namespace Database

def empty (rule : Option MergeRule) : Database := ⟨∅, rule⟩

def get? (db : Database) (key : Bytes) : Option Bytes := db.records[key]?

def scan (db : Database) (low high : Bound) : List Record :=
  db.records.toList.filter fun r => low.isBelow r.1 && high.isAbove r.1

def put (db : Database) (r : Record) : Database :=
  { db with records := db.records.insert r.1 r.2 }

def putAll (db : Database) (rs : List Record) : Database := rs.foldl put db

def mergeWith (rule : MergeRule) (db : Database) (r : Record) : Database :=
  db.put (r.1, rule (db.get? r.1) r.2)

def mergeAll (db : Database) (rs : List Record) : Except EngineError Database :=
  match db.rule with
  | none => .error .noMergeRule
  | some rule => .ok (rs.foldl (mergeWith rule) db)

end Database

end Cadence
