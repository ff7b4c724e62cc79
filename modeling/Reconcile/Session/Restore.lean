import Reconcile.Session.Work
import Reconcile.Store.Snapshot

/-!
# Snapshots of stores

Rows move between stores as snapshots.  A store takes in a snapshot that passes `Snapshot.check`
for its schema, and with it all the rows and none of its own.
-/

namespace Reconcile

namespace Store

def snapshot (store : Store) : Snapshot :=
  ⟨Snapshot.currentFormat, store.schema.version, store.nextKey, store.rows⟩

/-- The store with the rows of a snapshot.  Keys that were handed out stay handed out. -/
def restore (store : Store) (snapshot : Snapshot) : Except Fault Store := do
  snapshot.check store.schema
  return { store with nextKey := max store.nextKey snapshot.nextKey, rows := snapshot.entities }

end Store

/-- Replaces the rows of a store of the session by those of a snapshot.  Entities that open
contexts have in their registries stay as they are. -/
def StoreId.restore {T : Model} (i : StoreId) (snapshot : Snapshot) : Attempt T Unit := do
  match (← get).store? i with
  | some store =>
    -- a snapshot that is refused leaves the store as it was
    let store ← Attempt.ofExcept (store.restore snapshot)
    modify (·.modifyStore i fun _ => store)
    modify (·.report (.imported store.rows.count))
  | none => return

end Reconcile
