/-
  The report of a run: how many entities of each kind there are, and what was passed over,
  carried over, missing or doubtful.
-/
import DocTypes.Data.Basic
import DocTypes.Reading

namespace DocTypes

/-- Where a page came from. -/
inductive Origin where
  | cache
  | network
  deriving DecidableEq, Repr

/-- A loaded page: its path, where it came from, and its length in bytes of UTF-8. -/
structure Provenance where
  path : String
  origin : Origin
  bytes : Nat
  deriving DecidableEq, Repr

/-- The summary of one run. -/
structure Report where
  source : Option Provenance := none
  blocks : Nat
  unions : Nat
  records : Nat
  noInput : Nat
  operations : Nat
  registryEntries : Nat
  carriedOver : List String
  missing : List String
  /-- Each passed-over line with the name of its entity. -/
  skipped : List (String × String)
  warnings : List String
  deriving DecidableEq, Repr

namespace Report

/-- How many entities are of the kind with the given label. -/
def countKind (label : String) (es : List Entity) : Nat :=
  es.countP fun e => e.kind.label == label

/-- The report on a reading that gave the entities. -/
def ofReading (r : Reading) (es : List Entity) : Report :=
  let registry := Registry.ofEntities es
  { blocks := r.blocks
    unions := countKind "union" es
    records := countKind "record" es
    noInput := countKind "no_input" es
    operations := countKind "operation" es
    registryEntries := registry.size
    carriedOver := r.notes.carriedOver.map String.ofList
    missing := r.notes.missing.map String.ofList
    skipped := r.notes.skipped.map fun s => (String.ofList s.1, String.ofList s.2)
    warnings := r.warnings ++ (registry.findings es).map Finding.message }

end Report

namespace Origin

def label : Origin → String
  | cache => "cache"
  | network => "network"

end Origin

/-- The report as data. -/
def Report.toData (r : Report) : Data :=
  let source := match r.source with
    | none => .null
    | some s => .record [("path", .text s.path), ("origin", .text s.origin.label),
        ("bytes", .nat s.bytes)]
  let skipped := r.skipped.map fun s => Data.record [("entity", .text s.1), ("row", .text s.2)]
  .record [("source", source), ("blocks", .nat r.blocks), ("unions", .nat r.unions),
    ("records", .nat r.records), ("no_input", .nat r.noInput),
    ("operations", .nat r.operations), ("registry_entries", .nat r.registryEntries),
    ("carried_over_returns", .texts r.carriedOver), ("missing_returns", .texts r.missing),
    ("skipped_rows", .list skipped), ("warnings", .texts r.warnings)]

end DocTypes
