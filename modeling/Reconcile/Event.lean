import Reconcile.Fault
import Reconcile.Store.Commit

/-!
# Events

What a session reports while it works: one constructor for each kind of event, with its level,
its message and its fields.
-/

namespace Reconcile

inductive Level where
  | trace
  | debug
  | warn
  | error
  deriving DecidableEq

/-- The two shapes of a to-many relationship. -/
inductive Shape where
  | set
  | list
  deriving DecidableEq

def Shape.word : Shape → String
  | .set => "set"
  | .list => "list"

inductive Event where
  /-- An entity was inserted into a context. -/
  | inserted (id : EntityId) (context : ContextId)
  | fetched (entity : String) (context : ContextId) (count : Nat)
  /-- A fetch passed over an entity that has no payload to match on. -/
  | payloadMissing (id : EntityId)
  | saved (context : ContextId) (summary : Summary)
  | imported (rows : Nat)
  | fetchFailed (entity : String) (fault : Fault)
  | insertFailed (entity : String) (fault : Fault)
  | deleteFailed (id : EntityId) (context : ContextId) (fault : Fault)
  | permanentFailed (id : EntityId) (context : ContextId) (fault : Fault)
  /-- An entity of another context could not be found in this one. -/
  | rehostFailed (id : EntityId) (context : ContextId) (fault : Fault)
  /-- The members of a relationship were deleted with it. -/
  | cascaded (entity : String) (context : ContextId) (deleted : Nat)
  /-- A relationship member has no context to be found in. -/
  | memberAdrift (id : EntityId)
  | bindFailed (id : EntityId) (fault : Fault)
  | alreadyFilling (id : EntityId)
  | previewFailed (id : EntityId) (fault : Fault)
  /-- A relationship was built from `requested` plain values and has `resolved` members. -/
  | reconciled (shape : Shape) (entity : String) (requested resolved : Nat)
  deriving DecidableEq

/-- The value of a field of an event. -/
inductive FieldValue where
  | count (n : Nat)
  | text (s : String)
  | fault (f : Fault)
  deriving DecidableEq

namespace Event

/-- A type without a description is a mistake in the set-up; any other fault can come from data. -/
def levelOfFault : Fault → Level
  | .entityNotFound _ => .error
  | _ => .warn

def level : Event → Level
  | inserted _ _ => .debug
  | fetched _ _ _ => .trace
  | payloadMissing _ => .trace
  | saved _ _ => .debug
  | imported _ => .debug
  | fetchFailed _ fault => levelOfFault fault
  | insertFailed _ fault => levelOfFault fault
  | deleteFailed _ _ _ => .warn
  | permanentFailed _ _ _ => .warn
  | rehostFailed _ _ _ => .warn
  | cascaded _ _ _ => .debug
  | memberAdrift _ => .warn
  | bindFailed _ _ => .warn
  | alreadyFilling _ => .debug
  | previewFailed _ _ => .warn
  | reconciled _ _ requested resolved => if resolved < requested then .warn else .debug

def message : Event → String
  | inserted _ _ => "entity inserted"
  | fetched _ _ _ => "fetch executed"
  | payloadMissing _ => "skipping object without payload"
  | saved _ _ => "context saved"
  | imported _ => "snapshot imported"
  | fetchFailed _ _ => "fetch failed"
  | insertFailed _ _ => "cannot create entity"
  | deleteFailed _ _ _ => "cannot delete object"
  | permanentFailed _ _ _ => "cannot obtain permanent id"
  | rehostFailed _ _ _ => "cannot resolve object in target context"
  | cascaded _ _ _ => "cascade delete"
  | memberAdrift _ => "relationship member has no context to bind in"
  | bindFailed _ _ => "cannot bind relationship member"
  | alreadyFilling _ => "entity is already being filled"
  | previewFailed _ _ => "cannot preview entity being filled"
  | reconciled shape _ requested resolved =>
    shape.word ++ " synchronized"
      ++ (if resolved < requested then " with unresolved entries" else "")

def fields : Event → List (String × FieldValue)
  | inserted id context => [("context", .text context.text), ("id", .text id.text)]
  | fetched entity context count =>
    [("context", .text context.text), ("entity", .text entity), ("count", .count count)]
  | payloadMissing id => [("id", .text id.text)]
  | saved context summary =>
    [("context", .text context.text), ("inserted", .count summary.inserted),
      ("updated", .count summary.updated), ("deleted", .count summary.deleted)]
  | imported rows => [("rows", .count rows)]
  | fetchFailed entity fault => [("entity", .text entity), ("error", .fault fault)]
  | insertFailed entity fault => [("entity", .text entity), ("error", .fault fault)]
  | deleteFailed id context fault => located id context fault
  | permanentFailed id context fault => located id context fault
  | rehostFailed id context fault => located id context fault
  | cascaded entity context deleted =>
    [("entity", .text entity), ("context", .text context.text), ("deleted", .count deleted)]
  | memberAdrift id => [("id", .text id.text)]
  | bindFailed id fault => [("id", .text id.text), ("error", .fault fault)]
  | alreadyFilling id => [("id", .text id.text)]
  | previewFailed id fault => [("id", .text id.text), ("error", .fault fault)]
  | reconciled _ entity requested resolved =>
    [("entity", .text entity), ("requested", .count requested), ("resolved", .count resolved)]
where
  located (id : EntityId) (context : ContextId) (fault : Fault) : List (String × FieldValue) :=
    [("id", .text id.text), ("context", .text context.text), ("error", .fault fault)]

end Event

end Reconcile
