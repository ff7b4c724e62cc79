import Reconcile.EntityId

/-!
# Rows

A row is what a store keeps of an entity: its id, its payload, and a version that counts the
changes of the payload.  Versions are words, so the version after the last one is zero.
-/

namespace Reconcile

structure Row where
  id : EntityId
  version : UInt64
  payload : Json

namespace Row

/-- A row that is written for the first time. -/
def new (id : EntityId) (payload : Json) : Row := ⟨id, 1, payload⟩

/-- The row with a new payload.  The same payload leaves the row as it is. -/
def update (row : Row) (payload : Json) : Row :=
  if row.payload.same payload then row
  else { row with payload, version := row.version + 1 }

/-- Whether `update` changes the row. -/
def changedBy (row : Row) (payload : Json) : Bool := !row.payload.same payload

def same (a b : Row) : Bool :=
  a.id = b.id && a.version = b.version && a.payload.same b.payload

def toJson (row : Row) : Json :=
  .ofFields [("id", row.id.toJson), ("version", .ofUInt64 row.version), ("payload", row.payload)]

def ofJson? (j : Json) : Option Row := do
  let [some id, some version, some payload] ← j.members? ["id", "version", "payload"] | none
  return ⟨← EntityId.ofJson? id, ← version.uint64?, payload⟩

end Row

/-- Rows by entity name, then by key. -/
abbrev Rows := SortedMap String (SortedMap UInt64 Row)

namespace Rows

def row? (rows : Rows) (id : EntityId) : Option Row :=
  (rows.get? id.entity).bind (·.get? id.key)

/-- The rows of one entity, in key order. -/
def ofEntity (rows : Rows) (entity : String) : SortedMap UInt64 Row :=
  (rows.get? entity).getD .empty

def count (rows : Rows) : Nat := rows.values.foldl (fun n held => n + held.size) 0

/-- Files a row under an entity and a key, in place of one already there. -/
def file (rows : Rows) (entity : String) (key : UInt64) (row : Row) : Rows :=
  rows.insert entity ((rows.ofEntity entity).insert key row)

/-- Takes a row out; the entity keeps its place even without rows. -/
def remove (rows : Rows) (id : EntityId) : Rows :=
  match rows.get? id.entity with
  | some held => rows.insert id.entity (held.erase id.key)
  | none => rows

/-- The same rows in the same places. -/
def same (a b : Rows) : Bool :=
  sameTables a.toList b.toList
where
  sameTables : List (String × SortedMap UInt64 Row) → List (String × SortedMap UInt64 Row) → Bool
    | [], [] => true
    | (e, as) :: rest, (f, bs) :: rest' =>
      e == f && sameRows as.toList bs.toList && sameTables rest rest'
    | _, _ => false
  sameRows : List (UInt64 × Row) → List (UInt64 × Row) → Bool
    | [], [] => true
    | (k, a) :: rest, (l, b) :: rest' => k == l && a.same b && sameRows rest rest'
    | _, _ => false

end Rows

end Reconcile
