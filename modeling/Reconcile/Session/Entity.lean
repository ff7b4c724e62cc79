import Reconcile.Model

/-!
# Entities in memory

An entity in the memory of a session holds a value, the payload that was last published of it, and
flags.  Writing to an entity publishes the new payload.

Two things hide the value from others, who then see the published payload (`visible?`):

* somebody *holds* the entity, and publishes when letting go of it if it was written to;
* the entity is *filling*: its value was checked out, and a stand-in is in its place until the
  filled value is checked in.
-/

namespace Reconcile

/-- Whether an entity is held, and if so, whether it was written to since. -/
inductive Guard where
  | free
  | held (touched : Bool)
  deriving DecidableEq

structure Entity (T : Model) where
  kind : T.Kind
  state : T.Value kind
  published : Option Json
  /-- The id is not confirmed by a save yet. -/
  temporary : Bool
  deleted : Bool
  filling : Bool
  guard : Guard

namespace Entity

variable {T : Model}

def new (k : T.Kind) (v : T.Value k) (temporary : Bool) : Entity T :=
  ⟨k, v, Model.published v, temporary, false, false, .free⟩

def isHeld (e : Entity T) : Bool :=
  match e.guard with
  | .free => false
  | .held _ => true

/-! ## Payloads -/

/-- The value read as one of type `k`; an entity of another type reads as a blank one. -/
def value (e : Entity T) (k : T.Kind) : T.Value k :=
  if h : e.kind = k then h ▸ e.state else T.blank k

/-- The payload of the value, unless the value is hidden. -/
def live? (e : Entity T) : Option (Except Fault Json) :=
  if e.filling || e.isHeld then none else some (Model.payload e.state)

/-- What others see: the payload of the value or, if that is hidden, the published one. -/
def visible? (e : Entity T) : Option (Except Fault Json) :=
  match e.live? with
  | some payload => some payload
  | none => e.published.map .ok

/-! ## Writing -/

/-- The entity with another value, and the same published payload. -/
def withState (e : Entity T) {k : T.Kind} (v : T.Value k) : Entity T :=
  ⟨k, v, e.published, e.temporary, e.deleted, e.filling, e.guard⟩

def publish (e : Entity T) : Entity T := { e with published := Model.published e.state }

/-- Stores a value.  It is published now, or when a holder lets go. -/
def write (e : Entity T) {k : T.Kind} (v : T.Value k) : Entity T :=
  match e.guard with
  | .free => (e.withState v).publish
  -- others go on seeing what was published before
  | .held _ => { e.withState v with guard := .held true }

def hold (e : Entity T) : Entity T := { e with guard := .held false }

def release (e : Entity T) : Entity T :=
  match e.guard with
  | .held true => { e.publish with guard := .free }
  | _ => { e with guard := .free }

/-! ## Filling -/

/-- Takes the value out for a fill and leaves a blank one; none if it is out already. -/
def checkOut? (e : Entity T) (k : T.Kind) : Option (T.Value k × Entity T) :=
  if e.filling then none
  else some (e.value k, { e.withState (T.blank k) with filling := true })

/-- Shows a value and a payload while the entity fills. -/
def standIn (e : Entity T) {k : T.Kind} (v : T.Value k) (preview : Json) : Entity T :=
  { e.withState v with published := some preview }

/-- Puts the filled value back. -/
def checkIn (e : Entity T) {k : T.Kind} (v : T.Value k) : Entity T :=
  { (e.withState v).publish with filling := false }

end Entity

end Reconcile
