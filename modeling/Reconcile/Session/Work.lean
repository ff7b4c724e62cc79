import Reconcile.Session.Basic

/-!
# Work on a session

`Work` reads and changes a session and cannot fail.  `Attempt` can fail, and what it did to the
session before it failed stays done.

A `Scope` is the context that work is done in.  A *binding* scope reads values in that context, so
that their relationships can find members there; one that does not bind reads them without a
context.
-/

namespace Reconcile

abbrev Work (T : Model) := StateM (Session T)

abbrev Attempt (T : Model) := ExceptT Fault (Work T)

namespace Attempt

variable {T : Model} {α : Type}

def ofExcept : Except Fault α → Attempt T α
  | .ok a => pure a
  | .error fault => throw fault

/-- The result or the fault, as a value. -/
def outcome (a : Attempt T α) : Work T (Except Fault α) := a.run

end Attempt

/-- Changes what an entity holds, and holds the entity meanwhile. -/
def Handle.update {T : Model} {k : T.Kind} (h : Handle k)
    (change : T.Value k → Work T (T.Value k)) : Work T Unit := do
  modify (·.hold h)
  let v ← change ((← get).value h)
  modify fun s => (s.write h v).release h

structure Scope where
  context : ContextId
  binding : Bool
  deriving DecidableEq

namespace Scope

/-- Work in a context that binds what it reads. -/
def within (c : ContextId) : Scope := ⟨c, true⟩

/-- The context that values are read in. -/
def source (scope : Scope) : Option ContextId := if scope.binding then some scope.context else none

end Scope

end Reconcile
