import Reconcile.EntityId

/-!
# Faults

Everything that an operation can fail with, by cause, and the wording of each cause
(`Fault.message`).
-/

namespace Reconcile

/-- Why a query could not be answered. -/
inductive QueryProblem where
  /-- The query names another entity than the type it was made for. -/
  | wrongTarget (entity : String)
  /-- A committed row does not decode. -/
  | undecodable (id : EntityId) (detail : String)
  /-- A match is held under another type. -/
  | otherType (id : EntityId)
  | reported (text : String)
  deriving DecidableEq

/-- Why a snapshot is refused. -/
inductive SnapshotProblem where
  /-- The text is not the JSON of a snapshot. -/
  | malformed (detail : String)
  | unsupportedFormat (version supported : UInt32)
  /-- A row stands under another entity or key than its id says. -/
  | misfiled (id : EntityId) (entity : String) (key : UInt64)
  | notBelowNextKey (id : EntityId) (next : UInt64)
  | reported (text : String)
  deriving DecidableEq

/-- Why a payload is no payload at all. -/
inductive PayloadProblem where
  | notAnObject (entity : String)
  | reported (text : String)
  deriving DecidableEq

inductive Fault where
  | entityNotFound (entity : String)
  | query (entity : String) (problem : QueryProblem)
  | unknownAttribute (entity key : String)
  | objectNotFound (id : EntityId) (context : ContextId)
  | foreignObject (id : EntityId) (context : ContextId)
  | objectLocked (id : EntityId)
  | invalidPayload (problem : PayloadProblem)
  | missingRequiredField (field : String)
  | typeMismatch (field expected got : String)
  | serialization (detail : String)
  | invalidSnapshot (problem : SnapshotProblem)
  | schemaVersionMismatch (expected actual : UInt32)
  deriving DecidableEq

/-! ## Wording -/

def QueryProblem.message : QueryProblem → String
  | .wrongTarget entity => "request targets entity " ++ entity
  | .undecodable id detail => "cannot decode " ++ id.text ++ ": serialization failed: " ++ detail
  | .otherType id => id.text ++ " is registered with another type"
  | .reported text => text

def SnapshotProblem.message : SnapshotProblem → String
  | .malformed detail => detail
  | .unsupportedFormat version supported =>
    "unsupported snapshot format version: " ++ toString version.toNat ++ " (max supported: "
      ++ toString supported.toNat ++ ")"
  | .misfiled id entity key =>
    "record " ++ id.text ++ " filed under " ++ EntityId.text ⟨entity, key⟩
  | .notBelowNextKey id next =>
    "record " ++ id.text ++ " is not below next key " ++ toString next.toNat
  | .reported text => text

def PayloadProblem.message : PayloadProblem → String
  | .notAnObject entity => entity ++ " payload must be an object"
  | .reported text => text

namespace Fault

def message : Fault → String
  | .entityNotFound entity => "entity description not found: " ++ entity
  | .query entity problem => "query on " ++ entity ++ " failed: " ++ problem.message
  | .unknownAttribute entity key => "unknown attribute '" ++ key ++ "' on entity " ++ entity
  | .objectNotFound id context =>
    "object " ++ id.text ++ " cannot be resolved in context " ++ context.text
  | .foreignObject id context =>
    "object " ++ id.text ++ " is not registered in context " ++ context.text
  | .objectLocked id => "object " ++ id.text ++ " is locked by an in-progress mutation"
  | .invalidPayload problem => "invalid payload: " ++ problem.message
  | .missingRequiredField field => "missing required field: " ++ field
  | .typeMismatch field expected got =>
    "type mismatch for field '" ++ field ++ "': expected " ++ expected ++ ", got " ++ got
  | .serialization detail => "serialization failed: " ++ detail
  | .invalidSnapshot problem => "invalid snapshot: " ++ problem.message
  | .schemaVersionMismatch expected actual =>
    "schema version mismatch: expected " ++ toString expected.toNat ++ ", got "
      ++ toString actual.toNat

/-- The fault comes from answering a query rather than from naming a type or an object. -/
def isQueryFault : Fault → Bool
  | .query _ _ => true
  | .unknownAttribute _ _ => true
  | _ => false

end Fault

end Reconcile
