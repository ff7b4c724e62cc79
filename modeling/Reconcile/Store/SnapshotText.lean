import Reconcile.Json.Printer
import Reconcile.Json.Reader
import Reconcile.Store.Snapshot

/-!
# Text form of snapshots

The text lists fields in the order of their declaration and rows in the order of their keys.
Reading goes through `Source`, because a structure whose field is written twice is refused,
a key of a row is plain decimal digits, and what a structure does not know is skipped unread.
-/

namespace Reconcile

/-! ## Writing -/

namespace EntityId

def chars (id : EntityId) : List Char :=
  '{' :: "\"entity\":".toList ++ Json.quoted id.entity ++ ",\"key\":".toList
    ++ Decimal.digitChars id.key.toNat ++ ['}']

end EntityId

namespace Row

def chars (row : Row) : List Char :=
  '{' :: "\"id\":".toList ++ row.id.chars ++ ",\"version\":".toList
    ++ Decimal.digitChars row.version.toNat ++ ",\"payload\":".toList ++ row.payload.chars ++ ['}']

end Row

namespace Snapshot

/-- Members of an object, with a comma between two. -/
def memberChars {α : Type} (key : α → List Char) {β : Type} (value : β → List Char) :
    List (α × β) → List Char
  | [] => []
  | [(k, v)] => key k ++ ':' :: value v
  | (k, v) :: rest => key k ++ ':' :: (value v ++ ',' :: memberChars key value rest)

/-- A row key stands between quotes, in decimal. -/
def rowKeyChars (key : UInt64) : List Char := '"' :: (Decimal.digitChars key.toNat ++ ['"'])

def tableChars (rows : SortedMap UInt64 Row) : List Char :=
  '{' :: (memberChars rowKeyChars Row.chars rows.toList ++ ['}'])

def chars (s : Snapshot) : List Char :=
  '{' :: "\"formatVersion\":".toList ++ Decimal.digitChars s.formatVersion.toNat
    ++ ",\"schemaVersion\":".toList ++ Decimal.digitChars s.schemaVersion.toNat
    ++ ",\"nextKey\":".toList ++ Decimal.digitChars s.nextKey.toNat
    ++ ",\"entities\":".toList ++ '{' :: memberChars Json.quoted tableChars s.entities.toList
    ++ ['}', '}']

def text (s : Snapshot) : String := String.ofList s.chars

end Snapshot

/-! ## Reading -/

namespace Source

def uint64? : Source → Option UInt64
  | .number n => (n.toNumber?.map Json.number).bind Json.uint64?
  | _ => none

def uint32? : Source → Option UInt32
  | .number n => (n.toNumber?.map Json.number).bind Json.uint32?
  | _ => none

def string? : Source → Option String
  | .string units => TextUnit.decodeString units
  | _ => none

/-- The members of an object under their decoded names. -/
def namedFields? (fields : List (List TextUnit × Source)) : Option (List (String × Source)) :=
  fields.mapM fun (key, value) => (TextUnit.decodeString key).map (·, value)

/-- The values of a field; a structure has one at most. -/
def valuesOf (name : String) (fields : List (String × Source)) : List Source :=
  (fields.filter (·.1 == name)).map (·.2)

/-- The values of exactly these fields of a structure, each written once.  An array gives them in
order; an object may have further members. -/
def fields? (names : List String) : Source → Option (List Source)
  | .object fields => do
    let fields ← namedFields? fields
    names.mapM fun name =>
      match valuesOf name fields with
      | [value] => some value
      | _ => none
  | .array items => if items.length = names.length then some items else none
  | _ => none

end Source

def EntityId.ofSource? (s : Source) : Option EntityId := do
  let [entity, key] ← s.fields? ["entity", "key"] | none
  return ⟨← entity.string?, ← key.uint64?⟩

/-- Reads a row whose payload nests at most `budget` deep. -/
def Row.ofSource? (budget : Nat) (s : Source) : Option Row := do
  let [id, version, payload] ← s.fields? ["id", "version", "payload"] | none
  return ⟨← EntityId.ofSource? id, ← version.uint64?, ← payload.toJson? budget⟩

namespace Snapshot

/-- The deepest nesting of a payload: a text nests 127 deep, and four levels lie around it. -/
def payloadBudget : Nat := 123

/-- The number that plain digits spell, without superfluous zeros and in the range of a word. -/
def rowKey? (units : List TextUnit) : Option UInt64 := do
  let digits ← units.mapM fun
    | .plain c => if c.isDigit then some c else none
    | .escape _ => none
  let n := Source.digitsValue (digits.map Source.digitValue)
  if Decimal.digitChars n = digits ∧ n < UInt64.size then some (UInt64.ofNat n) else none

/-- Rows by key; of two with one key the later one counts. -/
def tableOfSource? : Source → Option (SortedMap UInt64 Row)
  | .object fields => do
    let rows ← fields.mapM fun (key, row) => do
      return (← rowKey? key, ← Row.ofSource? payloadBudget row)
    return .ofList rows
  | _ => none

def rowsOfSource? : Source → Option Rows
  | .object fields => do
    let tables ← fields.mapM fun (entity, table) => do
      return (← TextUnit.decodeString entity, ← tableOfSource? table)
    return .ofList tables
  | _ => none

def ofSource? (s : Source) : Option Snapshot := do
  let [format, schema, next, entities] ←
    s.fields? ["formatVersion", "schemaVersion", "nextKey", "entities"] | none
  return ⟨← format.uint32?, ← schema.uint32?, ← next.uint64?, ← rowsOfSource? entities⟩

/-- The snapshot of a text, in a format that is understood. -/
def ofText (text : String) : Except Fault Snapshot :=
  match (Source.read? text).bind ofSource? with
  | none => .error (.invalidSnapshot (.malformed "not the text of a snapshot"))
  | some s =>
    if currentFormat < s.formatVersion then
      .error (.invalidSnapshot (.unsupportedFormat s.formatVersion currentFormat))
    else .ok s

end Snapshot

end Reconcile
