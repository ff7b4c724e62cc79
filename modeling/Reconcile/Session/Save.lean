import Reconcile.Session.Work
import Reconcile.Schema.Check

/-!
# Saving a context

A save first collects what the registry asks of the rows (`Session.collect`), and fails there
without having changed anything if an entity is hidden, has no payload, or has one that the schema
refuses.  Then it commits all at once and clears the marks of the entities that are left.
-/

namespace Reconcile

namespace Session

variable {T : Model}

/-! ## Saving -/

/-- What a save has to do. -/
structure Changes where
  removals : List EntityId
  writes : List (EntityId × Json)

/-- What a save has to write for one live entity. -/
def collectWrite (s : Session T) (c : ContextId) (e : Entry T) :
    Except Fault (EntityId × Json) := do
  match (s.entity? e.slot).bind Entity.live? with
  | none => throw (.objectLocked e.id)
  | some live =>
    let payload ← live
    if (s.settingsOf c).validateOnSave then
      let description ← (s.schemaOf c).require e.id.entity
      description.check payload
    return (e.id, payload)

/-- What a save has to do for these entries, or the fault of the first that cannot be saved. -/
def collect (s : Session T) (c : ContextId) : List (Entry T) → Except Fault Changes
  | [] => .ok ⟨[], []⟩
  | e :: rest =>
    if s.entryDeleted e then do
      let changes ← s.collect c rest
      -- what was inserted and deleted between two saves never had a row
      return if e.pending then changes else { changes with removals := e.id :: changes.removals }
    else do
      let write ← s.collectWrite c e
      let changes ← s.collect c rest
      return { changes with writes := write :: changes.writes }

/-- Takes deleted entities off the registry, and marks the others as committed. -/
def settle (s : Session T) (c : ContextId) : Session T :=
  let kept := (s.registry c).filter fun _ e => !s.entryDeleted e
  let s := kept.values.foldl (fun s e => s.markPermanent e.handle) s
  s.withRegistry c (kept.map fun e => { e with pending := false })

/-- Commits collected changes to the rows of a context. -/
def commit (s : Session T) (c : ContextId) (changes : Changes) : Summary × Session T :=
  let (rows, summary) := (s.rowsOf c).commit changes.removals changes.writes
  (summary, (s.modifyStoreOf c fun store => { store with rows }).settle c)

end Session

namespace Scope

variable {T : Model}

/-- Commits what was inserted, changed and deleted in the context. -/
def save (scope : Scope) : Attempt T Summary := do
  let s ← get
  let changes ← Attempt.ofExcept (s.collect scope.context (s.registry scope.context).values)
  let summary ← modifyGet (·.commit scope.context changes)
  modify (·.report (.saved scope.context summary))
  return summary

end Scope

end Reconcile
