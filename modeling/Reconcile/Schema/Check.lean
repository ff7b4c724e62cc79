import Reconcile.Schema.Basic

/-!
# Checking payloads

A payload fits a description when it is an object, each of its fields is a declared attribute or
relationship with a value of the declared shape, and every required attribute has a value.
`Description.check` answers with the first fault: fields in key order, then missing attributes in
declaration order.
-/

namespace Reconcile

/-- The word for a value's kind in faults. -/
def Json.kindName : Json → String
  | .null => "null"
  | .bool _ => "boolean"
  | .number (.int _) => "integer"
  | .number (.double _) => "float"
  | .string _ => "string"
  | .array _ => "array"
  | .object _ => "object"

namespace Scalar

/-- The value is a scalar of this kind. -/
def admits : Scalar → Json → Bool
  | .text, .string _ => true
  | .integer, .number (.int _) => true
  | _, _ => false

def label : Scalar → String
  | .text => "string"
  | .integer => "integer"

end Scalar

/-- An attribute may always be `null`. -/
def Attribute.check (a : Attribute) (value : Json) : Except Fault Unit :=
  if value.isNull || a.scalar.admits value then .ok ()
  else .error (.typeMismatch a.name a.scalar.label value.kindName)

namespace Relationship

/-- What the relationship holds, as faults put it. -/
def shape (r : Relationship) : String :=
  (if r.many then "array of " else "one ") ++ r.target ++ " reference"

def mismatch (r : Relationship) (got : String) : Fault := .typeMismatch r.name r.shape got

/-- The value is the id of an entity of the target type. -/
def checkReference (r : Relationship) (value : Json) : Except Fault Unit :=
  match EntityId.ofJson? value with
  | some id =>
    if id.entity = r.target then .ok () else .error (r.mismatch (id.entity ++ " reference"))
  | none => .error (r.mismatch value.kindName)

/-- All the values are ids of the target type; otherwise the fault of the first that is not. -/
def checkReferences (r : Relationship) : List Json → Except Fault Unit
  | [] => .ok ()
  | value :: rest => do
    r.checkReference value
    r.checkReferences rest

/-- A relationship may be `null`; else it holds one id, or an array of ids. -/
def check (r : Relationship) (value : Json) : Except Fault Unit :=
  if value.isNull then .ok ()
  else if r.many then
    match value with
    | .array ids => r.checkReferences ids
    | other => .error (r.mismatch other.kindName)
  else r.checkReference value

end Relationship

namespace Description

/-- A field is an attribute, or else a relationship, of its name. -/
def checkField (d : Description) (name : String) (value : Json) : Except Fault Unit :=
  match d.attribute? name with
  | some a => a.check value
  | none =>
    match d.relationship? name with
    | some r => r.check value
    | none => .error (.unknownAttribute d.name name)

def checkFields (d : Description) : List (String × Json) → Except Fault Unit
  | [] => .ok ()
  | (name, value) :: rest => do
    d.checkField name value
    d.checkFields rest

/-- The first required attribute without a value. -/
def missing? (d : Description) (payload : Json) : Option Attribute :=
  d.attributes.find? fun a => a.required && (payload.valueAt a.name).isNull

/-- The payload fits the description. -/
def check (d : Description) (payload : Json) : Except Fault Unit :=
  match payload with
  | .object fields => do
    d.checkFields fields
    match d.missing? payload with
    | some a => .error (.missingRequiredField a.name)
    | none => .ok ()
  | _ => .error (.invalidPayload (.notAnObject d.name))

end Description

end Reconcile
