import Reconcile.Store.Row

/-!
# Committing to rows

A commit takes rows out and then writes payloads.  Writing makes a new row, or updates the row
that is there; a payload that the row already has changes nothing.  The summary counts the rows
that were added, changed and taken out.
-/

namespace Reconcile

structure Summary where
  inserted : Nat
  updated : Nat
  deleted : Nat
  deriving DecidableEq

namespace Summary

def zero : Summary := ⟨0, 0, 0⟩

def isEmpty (s : Summary) : Bool := s.inserted == 0 && s.updated == 0 && s.deleted == 0

end Summary

namespace Rows

/-- Takes out the row of an id, if there is one. -/
def commitRemoval (acc : Rows × Summary) (id : EntityId) : Rows × Summary :=
  match acc.1.row? id with
  | some _ => (acc.1.remove id, { acc.2 with deleted := acc.2.deleted + 1 })
  | none => acc

/-- Writes the payload of an id into its row, or into a new one. -/
def commitWrite (acc : Rows × Summary) (write : EntityId × Json) : Rows × Summary :=
  match acc.1.row? write.1 with
  | some row =>
    -- an equal payload keeps the version
    if row.changedBy write.2 then
      (acc.1.file write.1.entity write.1.key (row.update write.2),
        { acc.2 with updated := acc.2.updated + 1 })
    else acc
  | none =>
    (acc.1.file write.1.entity write.1.key (.new write.1 write.2),
      { acc.2 with inserted := acc.2.inserted + 1 })

/-- All removals in order, then all writes in order. -/
def commit (rows : Rows) (removals : List EntityId) (writes : List (EntityId × Json)) :
    Rows × Summary :=
  writes.foldl commitWrite (removals.foldl commitRemoval (rows, .zero))

end Rows

end Reconcile
