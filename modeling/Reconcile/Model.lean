import Reconcile.Fault

/-!
# Models

A model is the set of entity types that an application works with: what the entities of each type
hold, and how that is written to a payload and read back.  Sessions, relationships and mappings
are about an arbitrary model.

Values are read *in* a context or without one: the relationships inside a value remember the
context, and find their members there later.
-/

namespace Reconcile

structure Model where
  /-- The types of entity. -/
  Kind : Type
  decEqKind : DecidableEq Kind
  /-- What an entity of a type holds. -/
  Value : Kind → Type
  /-- What the application notes while entities are filled. -/
  Remark : Type
  /-- The name of a type in schemas and ids.  Two types may share one. -/
  entityName : Kind → String
  /-- What a new entity holds. -/
  blank : (k : Kind) → Value k
  encode : {k : Kind} → Value k → Except String Json
  decode : (k : Kind) → Option ContextId → Json → Option (Value k)

namespace Model

variable {T : Model}

instance : DecidableEq T.Kind := T.decEqKind

/-- The payload of a value. -/
def payload {k : T.Kind} (v : T.Value k) : Except Fault Json :=
  match T.encode v with
  | .ok j => .ok j
  | .error detail => .error (.serialization detail)

/-- The payload that others see of a value: none if it has none. -/
def published {k : T.Kind} (v : T.Value k) : Option Json := (T.encode v).toOption

/-- The value of a payload. -/
def ofPayload (k : T.Kind) (source : Option ContextId) (payload : Json) :
    Except Fault (T.Value k) :=
  match T.decode k source payload with
  | some v => .ok v
  | none => .error (.serialization "the payload is none of this type")

/-- Writes members over the payload of a value and reads the result back. -/
def patch {k : T.Kind} (source : Option ContextId) (changes : Json) (v : T.Value k) :
    Except Fault (T.Value k) := do
  let old ← payload v
  ofPayload k source (old.overlay changes)

end Model

/-- A reference to an entity in the memory of a session.  The id and the context of an entity never
change, so they are part of the reference. -/
structure Handle {K : Type} (kind : K) where
  /-- The place in the session's memory. -/
  slot : Nat
  id : EntityId
  context : ContextId
  deriving DecidableEq

/-- Both refer to one entity in memory. -/
def Handle.same {K : Type} {k : K} (a b : Handle k) : Bool := a.slot == b.slot

end Reconcile
