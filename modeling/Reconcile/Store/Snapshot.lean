import Reconcile.Schema.Check
import Reconcile.Store.Row

/-!
# Snapshots

A snapshot holds the committed rows of a store, the version of its schema and the next key it
would hand out.  `Snapshot.check` says which snapshots a store with a given schema takes in.
-/

namespace Reconcile

structure Snapshot where
  formatVersion : UInt32
  schemaVersion : UInt32
  nextKey : UInt64
  entities : Rows

namespace Snapshot

/-- The newest format that is understood, and the one that is written. -/
def currentFormat : UInt32 := 1

def empty (schemaVersion : UInt32) : Snapshot := ⟨currentFormat, schemaVersion, 1, .empty⟩

/-- Files a row under its own id and keeps the next key above it. -/
def add (s : Snapshot) (row : Row) : Snapshot :=
  { s with
    nextKey := max s.nextKey (row.id.key + 1)
    entities := s.entities.file row.id.entity row.id.key row }

def count (s : Snapshot) : Nat := s.entities.count

/-- A row stands where its id says, below the next key, and its payload fits. -/
def checkRow (s : Snapshot) (d : Description) (entity : String) (key : UInt64) (row : Row) :
    Except Fault Unit :=
  if row.id ≠ ⟨entity, key⟩ then .error (.invalidSnapshot (.misfiled row.id entity key))
  else if s.nextKey ≤ key then .error (.invalidSnapshot (.notBelowNextKey row.id s.nextKey))
  else d.check row.payload

def checkRows (s : Snapshot) (d : Description) (entity : String) :
    List (UInt64 × Row) → Except Fault Unit
  | [] => .ok ()
  | (key, row) :: rest => do
    s.checkRow d entity key row
    s.checkRows d entity rest

def checkTables (s : Snapshot) (schema : Schema) :
    List (String × SortedMap UInt64 Row) → Except Fault Unit
  | [] => .ok ()
  | (entity, rows) :: rest => do
    let d ← schema.require entity
    s.checkRows d entity rows.toList
    s.checkTables schema rest

/-- The snapshot is one of a store with this schema; otherwise the first fault, entity by entity
and row by row. -/
def check (s : Snapshot) (schema : Schema) : Except Fault Unit :=
  if s.schemaVersion ≠ schema.version then
    .error (.schemaVersionMismatch schema.version s.schemaVersion)
  else s.checkTables schema s.entities.toList

def same (a b : Snapshot) : Bool :=
  a.formatVersion = b.formatVersion && a.schemaVersion = b.schemaVersion && a.nextKey = b.nextKey
    && a.entities.same b.entities

end Snapshot

end Reconcile
