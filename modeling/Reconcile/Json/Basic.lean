import Reconcile.Data.SortedMap
import Reconcile.Number.Double

/-!
# JSON values

The value type of attribute payloads.  An integer of a 64-bit word is kept exactly and is never
the same value as a double.  The members of an object are kept in key order, one per key
(`Json.ofFields` builds that form).

`Json.same` is the equality that decides whether a payload has changed and whether a filter
holds: it is structural, except that the two zeros of a double are one number.
-/

namespace Reconcile

inductive Number where
  | int (n : WordInt)
  | double (x : Double)
  deriving DecidableEq

namespace Number

/-- The same number; an integer is never the same as a double. -/
def same : Number → Number → Bool
  | .int m, .int n => m = n
  | .double x, .double y => x.same y
  | _, _ => false

/-- The nearest double. -/
def toDouble : Number → Double
  | .int n => .ofWordInt n
  | .double x => x

end Number

inductive Json where
  | null
  | bool (b : Bool)
  | number (n : Number)
  | string (s : String)
  | array (items : List Json)
  | object (fields : List (String × Json))

namespace Json

instance : Inhabited Json := ⟨.null⟩

/-! ## Sameness -/

mutual

def same : Json → Json → Bool
  | .null, .null => true
  | .bool a, .bool b => a == b
  | .number m, .number n => m.same n
  | .string s, .string t => s == t
  | .array as, .array bs => sameItems as bs
  | .object as, .object bs => sameFields as bs
  | _, _ => false

def sameItems : List Json → List Json → Bool
  | [], [] => true
  | a :: as, b :: bs => same a b && sameItems as bs
  | _, _ => false

def sameFields : List (String × Json) → List (String × Json) → Bool
  | [], [] => true
  | (k, a) :: as, (l, b) :: bs => k == l && same a b && sameFields as bs
  | _, _ => false

end

instance : BEq Json := ⟨same⟩

/-! ## Building -/

def int (n : WordInt) : Json := .number (.int n)

def ofUInt64 (n : UInt64) : Json := .int (.ofUInt64 n)

def ofUInt32 (n : UInt32) : Json := .int (.ofUInt32 n)

def ofInt64 (n : Int64) : Json := .int (.ofInt64 n)

/-- The object with these members; of two members with one key the later one stays. -/
def ofFields (fields : List (String × Json)) : Json := .object (Entries.ofList fields)

/-- `null` for an absent value. -/
def ofOption {α : Type} (encode : α → Json) : Option α → Json
  | none => .null
  | some a => encode a

/-! ## Reading -/

def isNull : Json → Bool
  | .null => true
  | _ => false

/-- The member of an object, if the value is an object that has it. -/
def field? (key : String) : Json → Option Json
  | .object fields => Entries.find? key fields
  | _ => none

/-- The member of an object; a missing member counts as `null`, and so does every member of a
value that is no object. -/
def valueAt (key : String) (payload : Json) : Json := (payload.field? key).getD .null

/-- The object with one member put in; a value that is no object stays as it is. -/
def withField (payload : Json) (key : String) (value : Json) : Json :=
  match payload with
  | .object fields => .object (Entries.insert key value fields)
  | _ => payload

/-- Puts every member of `changes` into `payload`, if both are objects. -/
def overlay (payload changes : Json) : Json :=
  match changes with
  | .object fields => fields.foldl (fun acc f => acc.withField f.1 f.2) payload
  | _ => payload

end Json

end Reconcile
