import Reconcile.Session.Work
import Reconcile.Query.Basic

/-!
# Inserting, finding and deleting entities

A context reads committed rows into its registry when it first needs them: all rows of a type
before a fetch (`adoptRows`), a single row when an id is looked up (`locate`).  From then on the
entity in the registry stands for the row.

A fetch goes through the registry in key order, so in creation order, and matches each entity of
the type on its visible payload (`selectMatches`).
-/

namespace Reconcile

namespace Scope

variable {T : Model}

/-! ## Inserting -/

/-- Inserts a blank entity under the next key of the store. -/
def insert (scope : Scope) (k : T.Kind) : Attempt T (Handle k) := do
  let entity := T.entityName k
  let _ ← Attempt.ofExcept (((← get).schemaOf scope.context).require entity)
  let key := match (← get).storeOf? scope.context with
    | some store => store.nextKey
    | none => 0
  modify (·.modifyStoreOf scope.context fun store => { store with nextKey := key + 1 })
  -- nothing is written to the store until a save
  let handle ← modifyGet (·.allocate ⟨entity, key⟩ scope.context (T.blank k) true)
  modify (·.register handle true)
  modify (·.report (.inserted handle.id scope.context))
  return handle

/-! ## Reading rows -/

/-- Puts the entity of a row into memory.  What the row holds is read in the context, whether the
scope binds or not. -/
def materialize (scope : Scope) (k : T.Kind) (row : Row) : Attempt T (Handle k) := do
  match T.decode k (some scope.context) row.payload with
  | some v =>
    let handle ← modifyGet (·.allocate row.id scope.context v false)
    modify (·.register handle false)
    return handle
  | none =>
    throw (.query (T.entityName k) (.undecodable row.id "the payload is none of this type"))

/-- Reads the rows whose keys the registry does not have.  Rows before one that cannot be read
stay in the registry. -/
def adoptRows (scope : Scope) (k : T.Kind) : List (UInt64 × Row) → Attempt T Unit
  | [] => return
  | (key, row) :: rest => do
    -- an entity that is registered stands for its row, whatever the row holds by now
    if !((← get).registry scope.context).contains key then
      let _ ← scope.materialize k row
    scope.adoptRows k rest

/-! ## Fetching -/

/-- The entities of type `k` among `entries` that are live, committed or else wanted as pending,
and accepted by the query, each with the payload it was accepted on. -/
def selectMatches (k : T.Kind) (q : Query) (includePending : Bool) :
    List (Entry T) → Attempt T (List (Handle k × Json))
  | [] => return []
  | e :: rest => do
    let s ← get
    if e.id.entity ≠ T.entityName k ∨ s.entryDeleted e ∨ (e.pending ∧ !includePending) then
      selectMatches k q includePending rest
    else
      match (s.entity? e.slot).bind Entity.visible? with
      | none =>
        -- hidden, and never published
        modify (·.report (.payloadMissing e.id))
        selectMatches k q includePending rest
      | some visible =>
        let payload ← Attempt.ofExcept visible
        if q.accepts payload then
          -- two types may share a name, so a match can be of the other type
          match e.handle? k with
          | none => throw (.query (T.entityName k) (.otherType e.id))
          | some handle => return (handle, payload) :: (← selectMatches k q includePending rest)
        else selectMatches k q includePending rest

/-- The entities that a query asks for, in creation order or sorted. -/
def fetch (scope : Scope) (k : T.Kind) (q : Query) : Attempt T (List (Handle k)) := do
  let entity := T.entityName k
  if q.entity ≠ entity then throw (.query entity (.wrongTarget q.entity))
  let description ← Attempt.ofExcept (((← get).schemaOf scope.context).require entity)
  Attempt.ofExcept (description.checkKeys q.keys)
  -- from here on every committed entity of the type is in the registry
  scope.adoptRows k (((← get).rowsOf scope.context).ofEntity entity).toList
  let s ← get
  let found ← selectMatches k q (s.settingsOf scope.context).includePending
    (s.registry scope.context).values
  let sorted :=
    if q.order.isEmpty then found
    else sortStable (fun a b => SortTerm.compareBy q.order a.2 b.2) found
  modify (·.report (.fetched entity scope.context sorted.length))
  return sorted.map (·.1)

/-- The entity of an id, read from its row if need be. -/
def locate (scope : Scope) (k : T.Kind) (id : EntityId) : Attempt T (Handle k) := do
  let notFound := Fault.objectNotFound id scope.context
  if id.entity ≠ T.entityName k then throw notFound
  let s ← get
  match (s.registry scope.context).get? id.key with
  | some e =>
    -- a deleted entity hides its row until the deletion is saved
    if s.entryDeleted e then throw notFound
    match e.handle? k with
    | some handle => return handle
    | none => throw notFound
  | none =>
    match (s.rowsOf scope.context).row? id with
    | some row => scope.materialize k row
    | none => throw notFound

/-! ## Changing flags -/

/-- Deletes an entity and says whether it was live. -/
def delete (scope : Scope) {k : T.Kind} (h : Handle k) : Attempt T Bool := do
  let s ← get
  if s.isRegistered scope.context h then
    set (s.markDeleted h)
    return !s.isDeleted h
  else throw (.foreignObject h.id scope.context)

/-- Confirms the id of an entity. -/
def makePermanent (scope : Scope) {k : T.Kind} (h : Handle k) : Attempt T Unit := do
  let s ← get
  if s.isRegistered scope.context h then set (s.markPermanent h)
  else throw (.foreignObject h.id scope.context)

end Scope

end Reconcile
