import Reconcile.Relation.Binding

/-!
# Everyday operations on a context

Forms of the context's operations that report a failure as an event and go on without a result,
and what is built on them: find or create, rehost, delete with all members.
-/

namespace Reconcile

namespace Scope

variable {T : Model}

/-! ## Finding -/

/-- A fetch whose failure counts as no answer. -/
def fetchOrReport (scope : Scope) (k : T.Kind) (q : Query) : Work T (Option (List (Handle k))) := do
  match ← (scope.fetch k q).outcome with
  | .ok found => return some found
  | .error fault =>
    modify (·.report (.fetchFailed (T.entityName k) fault))
    return none

/-- Every entity of a type, in creation order. -/
def findAll (scope : Scope) (k : T.Kind) : Work T (Option (List (Handle k))) :=
  scope.fetchOrReport k (.all (T.entityName k))

/-- The entities of a type that pass a filter, in creation order. -/
def findMatching (scope : Scope) (k : T.Kind) (filter : Filter) :
    Work T (Option (List (Handle k))) :=
  scope.fetchOrReport k (.matching (T.entityName k) filter)

/-- The entities of a type that pass a filter, sorted by attributes named in a list. -/
def findSorted (scope : Scope) (k : T.Kind) (terms : String) (ascending : Bool)
    (filter : Option Filter) : Work T (Option (List (Handle k))) :=
  scope.fetchOrReport k ⟨T.entityName k, filter, SortTerm.ofText terms ascending⟩

/-- The last entity with a natural key; without a key none is looked for. -/
def findByKey (scope : Scope) (k : T.Kind) (key : Option NaturalKey) :
    Work T (Option (Handle k)) :=
  match key with
  | none => return none
  | some key => do
    let found ← scope.findMatching k key.filter
    return found.bind List.getLast?

/-- The last entity with a natural key, or the fault of the fetch. -/
def tryFindByKey (scope : Scope) (k : T.Kind) (key : Option NaturalKey) :
    Attempt T (Option (Handle k)) :=
  match key with
  | none => return none
  | some key => do
    let found ← scope.fetch k (.matching (T.entityName k) key.filter)
    return found.getLast?

/-! ## Creating -/

def insertOrReport (scope : Scope) (k : T.Kind) : Work T (Option (Handle k)) := do
  match ← (scope.insert k).outcome with
  | .ok handle => return some handle
  | .error fault =>
    modify (·.report (.insertFailed (T.entityName k) fault))
    return none

/-- The last of the entities found, or a new one if there is none. -/
def lastOrInsert (scope : Scope) {k : T.Kind} (found : Option (List (Handle k))) :
    Work T (Option (Handle k)) :=
  match found.bind List.getLast? with
  | some handle => return some handle
  | none => scope.insertOrReport k

/-- The last entity that passes the filter, or the last of all if there is no filter; a new one
if nothing is found. -/
def findOrInsert (scope : Scope) (k : T.Kind) (filter : Option Filter) :
    Work T (Option (Handle k)) := do
  let found ← match filter with
    | some filter => scope.findMatching k filter
    | none => scope.findAll k
  scope.lastOrInsert found

/-! ## Rehosting -/

/-- The entity of `h` as another context has it.  A temporary id is confirmed in this context
first. -/
def rehost (scope : Scope) {k : T.Kind} (h : Handle k) (target : Scope) :
    Work T (Option (Handle k)) := do
  -- the other context can only know the entity by an id that stays
  if (← get).isTemporary h then
    if let .error fault ← (scope.makePermanent h).outcome then
      modify (·.report (.permanentFailed h.id scope.context fault))
      return none
  match ← (target.locate k h.id).outcome with
  | .ok found => return some found
  | .error fault =>
    modify (·.report (.rehostFailed h.id target.context fault))
    return none

/-! ## Deleting -/

/-- Deletes an entity and says whether that took it away. -/
def deleteOrReport (scope : Scope) {k : T.Kind} (h : Handle k) : Work T Bool := do
  match ← (scope.delete h).outcome with
  | .ok removed => return removed
  | .error fault =>
    modify (·.report (.deleteFailed h.id scope.context fault))
    return false

/-- Deletes entities in turn and counts those that this took away. -/
def deleteEach (scope : Scope) {k : T.Kind} : List (Handle k) → Work T Nat
  | [] => return 0
  | h :: rest => do
    let removed ← scope.deleteOrReport h
    let others ← scope.deleteEach rest
    return removed.toNat + others

section Relationships

variable {R : T.Kind → Type} [ToMany R] {k : T.Kind}

/-- Deletes the members of a relationship, and counts those that this took away. -/
def deleteAll (scope : Scope) (r : R k) : Work T (Nat × R k) := do
  -- all members are found before the first one is deleted
  let (found, r) ← ToMany.resolveIn scope r
  return (← scope.deleteEach found, r)

/-- Deletes the members of an owned relationship, which is absent afterwards. -/
def deleteCascade (scope : Scope) (field : Option (R k)) : Work T Unit := do
  match field with
  | none => return
  | some r =>
    let (deleted, _) ← scope.deleteAll r
    modify (·.report (.cascaded (T.entityName k) scope.context deleted))

end Relationships

end Scope

end Reconcile
