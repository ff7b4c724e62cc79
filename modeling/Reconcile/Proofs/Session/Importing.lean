import Reconcile.Proofs.Session.Exporting
import Reconcile.Proofs.Session.Isolation

/-!
# Importing accepts the well-formed snapshots

A snapshot is well-formed for a schema if it has the schema's version, every entity that it has a
table for is described, and every row stands under its own id, below the next key, with a payload
that fits.  An import succeeds exactly for these and then replaces the rows as a whole.  Otherwise
it changes nothing, and its fault is that of the first violation: tables in the order of their
names, rows in the order of their keys.
-/

namespace Reconcile

namespace Session

variable {T : Model} {s : Session T} {i : StoreId} {store : Store} {snapshot : Snapshot}

theorem outcome_restore_error {fault : Fault} (hstore : s.store? i = some store)
    (hcheck : snapshot.check store.schema = .error fault) :
    (i.restore (T := T) snapshot).outcome s = (.error fault, s) := by
  have hrestore : store.restore snapshot = .error fault :=
    Outcome.bind_eq_error.2 (Or.inl hcheck)
  unfold StoreId.restore
  rw [Attempt.outcome_bind_of_ok (Attempt.outcome_get s), hstore]
  dsimp only
  rw [hrestore]
  rfl

/-- An import succeeds exactly for well-formed snapshots, and then the store has the snapshot's rows
and no others.  Otherwise nothing changes, and the fault is that of the first violation. -/
theorem import_iff_wellFormed (hstore : s.store? i = some store) (snapshot : Snapshot) :
    (snapshot.WellFormed store.schema → ∃ s', (i.restore (T := T) snapshot).outcome s = (.ok (), s') ∧
      s'.store? i = some { store with
        nextKey := max store.nextKey snapshot.nextKey, rows := snapshot.entities } ∧
      (∀ j, j ≠ i → s'.store? j = s.store? j) ∧
      s'.contexts = s.contexts ∧ s'.entities = s.entities) ∧
    (¬ snapshot.WellFormed store.schema → ∃ fault, snapshot.FirstFault store.schema fault ∧
      (i.restore (T := T) snapshot).outcome s = (.error fault, s)) ∧
    ∀ fault fault', snapshot.FirstFault store.schema fault →
      snapshot.FirstFault store.schema fault' → fault' = fault := by
  refine ⟨?_, ?_, ?_⟩
  · intro hformed
    have hrestore := Store.restore_of_check (Snapshot.check_eq_ok_iff.2 hformed)
    refine ⟨_, outcome_restore hstore hrestore, ?_, ?_, rfl, rfl⟩
    · show (s.modifyStore i fun _ => _).store? i = _
      rw [store?_modifyStore, if_pos rfl, hstore]
      rfl
    · intro j hj
      show (s.modifyStore i fun _ => _).store? j = _
      rw [store?_modifyStore, if_neg (Ne.symm hj)]
  · intro hformed
    cases hcheck : snapshot.check store.schema with
    | ok _ => exact absurd (Snapshot.check_eq_ok_iff.1 hcheck) hformed
    | error fault =>
      exact ⟨fault, Snapshot.check_eq_error_iff.1 hcheck, outcome_restore_error hstore hcheck⟩
  · intro fault fault' hfault hfault'
    rw [← Snapshot.check_eq_error_iff] at hfault hfault'
    cases hfault.symm.trans hfault'
    rfl

section

open Sample

/-- The row of one tag, under its own key and again under the next one. -/
def filedTwice : Snapshot :=
  ⟨Snapshot.currentFormat, 1, 2, .ofList [("Tag", .ofList
    [(1, ⟨tagId, 1, tagPayload "red"⟩), (2, ⟨tagId, 1, tagPayload "red"⟩)])]⟩

/-- The second row is also above the next key, but its place is looked at first. -/
theorem import_filedTwice : bothOpen.store? ⟨0⟩ = some (.new blogSchema .default) ∧
    filedTwice.FirstFault blogSchema (.invalidSnapshot (.misfiled tagId "Tag" 2)) ∧
    ((⟨0⟩ : StoreId).restore (T := model) filedTwice).outcome bothOpen =
      (.error (.invalidSnapshot (.misfiled tagId "Tag" 2)), bothOpen) := by
  have hstore : bothOpen.store? ⟨0⟩ = some (.new blogSchema .default) := rfl
  have hcheck : filedTwice.check blogSchema =
      .error (.invalidSnapshot (.misfiled tagId "Tag" 2)) := by decide +kernel
  have hfault := Snapshot.check_eq_error_iff.1 hcheck
  rcases import_iff_wellFormed (T := model) hstore filedTwice with ⟨_, hrefused, hunique⟩
  have hformed : ¬ filedTwice.WellFormed blogSchema := by
    intro hformed
    cases hcheck.symm.trans (Snapshot.check_eq_ok_iff.2 hformed)
  rcases hrefused hformed with ⟨fault, hfirst, houtcome⟩
  cases hunique _ _ hfault hfirst
  exact ⟨hstore, hfault, houtcome⟩

end

end Session

end Reconcile
