import Reconcile.Session.Entity
import Reconcile.Event
import Reconcile.Settings
import Reconcile.Schema.Basic

/-!
# Sessions

A session holds stores, the contexts that are open on them, and the entities in memory.  A store
keeps committed rows.  A context keeps a registry of the entities it has inserted or read, by key;
an entry is *pending* from its insertion to the next save.

A context that is not open has no store and no entities: `schemaOf` then describes nothing and
`registry` is empty.

Sessions do one thing after the other.  Threads, and waiting for an entity that somebody holds, are
left out.  Keys are words, so the key after the last one is zero.
-/

namespace Reconcile

/-- The number of a store, counted from zero in the order of opening. -/
structure StoreId where
  number : Nat
  deriving DecidableEq

/-- Committed rows, with the schema and the settings they are kept under. -/
structure Store where
  schema : Schema
  settings : Settings
  /-- The key of the next entity that is inserted. -/
  nextKey : UInt64
  rows : Rows

namespace Store

def new (schema : Schema) (settings : Settings) : Store := ⟨schema, settings, 1, .empty⟩

end Store

/-- An entity as a context has it in its registry. -/
structure Entry (T : Model) where
  kind : T.Kind
  handle : Handle kind
  /-- Inserted here and not yet saved. -/
  pending : Bool

namespace Entry

variable {T : Model}

/-- The handle, if the entity is of type `k`. -/
def handle? (e : Entry T) (k : T.Kind) : Option (Handle k) :=
  if e.kind = k then some ⟨e.handle.slot, e.handle.id, e.handle.context⟩ else none

def slot (e : Entry T) : Nat := e.handle.slot

def id (e : Entry T) : EntityId := e.handle.id

end Entry

abbrev Registry (T : Model) := SortedMap UInt64 (Entry T)

structure Context (T : Model) where
  store : StoreId
  registry : Registry T

structure Session (T : Model) where
  stores : Array Store
  /-- The contexts that are open. -/
  contexts : SortedMap ContextId (Context T)
  /-- How many contexts were ever opened. -/
  opened : Nat
  entities : Array (Entity T)
  journal : Array Event
  remarks : Array T.Remark

namespace Session

variable {T : Model}

def empty : Session T := ⟨#[], .empty, 0, #[], #[], #[]⟩

instance : Inhabited (Session T) := ⟨empty⟩

/-! ## Stores and contexts -/

def openStore (s : Session T) (schema : Schema) (settings : Settings) : StoreId × Session T :=
  (⟨s.stores.size⟩, { s with stores := s.stores.push (.new schema settings) })

def store? (s : Session T) (i : StoreId) : Option Store := s.stores[i.number]?

def modifyStore (s : Session T) (i : StoreId) (f : Store → Store) : Session T :=
  { s with stores := s.stores.modify i.number f }

def openContext (s : Session T) (store : StoreId) : ContextId × Session T :=
  let c : ContextId := ⟨s.opened + 1⟩
  (c, { s with contexts := s.contexts.insert c ⟨store, .empty⟩, opened := s.opened + 1 })

/-- The entities of a closed context stay in memory, but relationships that were read in it can
no longer find members there. -/
def closeContext (s : Session T) (c : ContextId) : Session T :=
  { s with contexts := s.contexts.erase c }

def context? (s : Session T) (c : ContextId) : Option (Context T) := s.contexts.get? c

def isOpen (s : Session T) (c : ContextId) : Bool := s.contexts.contains c

def storeOf? (s : Session T) (c : ContextId) : Option Store :=
  (s.context? c).bind fun context => s.store? context.store

def schemaOf (s : Session T) (c : ContextId) : Schema :=
  match s.storeOf? c with
  | some store => store.schema
  | none => default

def settingsOf (s : Session T) (c : ContextId) : Settings :=
  match s.storeOf? c with
  | some store => store.settings
  | none => default

/-- The committed rows that a context reads. -/
def rowsOf (s : Session T) (c : ContextId) : Rows :=
  match s.storeOf? c with
  | some store => store.rows
  | none => .empty

/-- Changes the store of a context. -/
def modifyStoreOf (s : Session T) (c : ContextId) (f : Store → Store) : Session T :=
  match s.context? c with
  | some context => s.modifyStore context.store f
  | none => s

/-- Both contexts are open on one store. -/
def shareStore (s : Session T) (a b : ContextId) : Bool :=
  match s.context? a, s.context? b with
  | some a, some b => a.store = b.store
  | _, _ => false

/-! ## Registries -/

def registry (s : Session T) (c : ContextId) : Registry T :=
  match s.context? c with
  | some context => context.registry
  | none => .empty

def withRegistry (s : Session T) (c : ContextId) (registry : Registry T) : Session T :=
  match s.context? c with
  | some context => { s with contexts := s.contexts.insert c { context with registry } }
  | none => s

/-- Enters an entity under its key. -/
def register (s : Session T) {k : T.Kind} (h : Handle k) (pending : Bool) : Session T :=
  s.withRegistry h.context ((s.registry h.context).insert h.id.key ⟨k, h, pending⟩)

/-! ## Entities -/

/-- Puts an entity into memory. -/
def allocate (s : Session T) {k : T.Kind} (id : EntityId) (c : ContextId) (v : T.Value k)
    (temporary : Bool) : Handle k × Session T :=
  (⟨s.entities.size, id, c⟩, { s with entities := s.entities.push (.new k v temporary) })

def entity? (s : Session T) (slot : Nat) : Option (Entity T) := s.entities[slot]?

def modifyEntity (s : Session T) (slot : Nat) (f : Entity T → Entity T) : Session T :=
  { s with entities := s.entities.modify slot f }

/-- What an entity holds. -/
def value (s : Session T) {k : T.Kind} (h : Handle k) : T.Value k :=
  match s.entity? h.slot with
  | some e => e.value k
  | none => T.blank k

def isTemporary (s : Session T) {k : T.Kind} (h : Handle k) : Bool :=
  (s.entity? h.slot).any Entity.temporary

def isDeleted (s : Session T) {k : T.Kind} (h : Handle k) : Bool :=
  (s.entity? h.slot).any Entity.deleted

def isFilling (s : Session T) {k : T.Kind} (h : Handle k) : Bool :=
  (s.entity? h.slot).any Entity.filling

def isHeld (s : Session T) {k : T.Kind} (h : Handle k) : Bool :=
  (s.entity? h.slot).any Entity.isHeld

/-- The payload of what an entity holds. -/
def payload (s : Session T) {k : T.Kind} (h : Handle k) : Except Fault Json :=
  Model.payload (s.value h)

/-- Marks an entity deleted. -/
def markDeleted (s : Session T) {k : T.Kind} (h : Handle k) : Session T :=
  s.modifyEntity h.slot fun e => { e with deleted := true }

/-- Confirms the id of an entity. -/
def markPermanent (s : Session T) {k : T.Kind} (h : Handle k) : Session T :=
  s.modifyEntity h.slot fun e => { e with temporary := false }

/-- Stores a value in an entity. -/
def write (s : Session T) {k : T.Kind} (h : Handle k) (v : T.Value k) : Session T :=
  s.modifyEntity h.slot (·.write v)

/-- Puts back a value that differs from the one it was read as only in what its relationships are
bound to.  Its payload is the same, so nothing is published. -/
def rebind (s : Session T) {k : T.Kind} (h : Handle k) (v : T.Value k) : Session T :=
  s.modifyEntity h.slot (·.withState v)

def hold (s : Session T) {k : T.Kind} (h : Handle k) : Session T :=
  s.modifyEntity h.slot Entity.hold

def release (s : Session T) {k : T.Kind} (h : Handle k) : Session T :=
  s.modifyEntity h.slot Entity.release

/-! ## Filling -/

/-- Takes a value out for a fill; none if it is out already. -/
def checkOut? (s : Session T) {k : T.Kind} (h : Handle k) : Option (T.Value k × Session T) :=
  match (s.entity? h.slot).bind (·.checkOut? k) with
  | some (v, e) => some (v, s.modifyEntity h.slot fun _ => e)
  | none => none

/-- Shows a value and a payload in place of an entity that fills. -/
def standIn (s : Session T) {k : T.Kind} (h : Handle k) (v : T.Value k) (preview : Json) :
    Session T :=
  s.modifyEntity h.slot (·.standIn v preview)

/-- Puts a filled value back. -/
def checkIn (s : Session T) {k : T.Kind} (h : Handle k) (v : T.Value k) : Session T :=
  s.modifyEntity h.slot (·.checkIn v)

/-! ## Reports -/

/-- Reports an event. -/
def report (s : Session T) (event : Event) : Session T :=
  { s with journal := s.journal.push event }

/-- Keeps a remark of the application. -/
def note (s : Session T) (remark : T.Remark) : Session T :=
  { s with remarks := s.remarks.push remark }

/-! ## Questions about a context -/

/-- Whether an entry's entity is deleted. -/
def entryDeleted (s : Session T) (e : Entry T) : Bool := s.isDeleted e.handle

def registeredCount (s : Session T) (c : ContextId) : Nat := (s.registry c).size

/-- Something is pending or deleted. -/
def hasChanges (s : Session T) (c : ContextId) : Bool :=
  (s.registry c).values.any fun e => e.pending || s.entryDeleted e

/-- The handle belongs to the context, and the context has an entity of its key. -/
def isRegistered (s : Session T) (c : ContextId) {k : T.Kind} (h : Handle k) : Bool :=
  h.context = c && (s.registry c).contains h.id.key

end Session

end Reconcile
