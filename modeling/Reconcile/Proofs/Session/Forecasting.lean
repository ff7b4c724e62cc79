import Reconcile.Proofs.Session.Unwritten

/-!
# Whether a save will write anything

`hasChanges` looks at what is pending or deleted.  What a save does is decided by the rows: an entry
is `Due` if the save takes its row out, makes one for it, or gives its row another payload.  A save
is empty exactly if nothing is due.

The two disagree in two ways.  An entity that was loaded or saved before can be due, as it was changed
since or its row was overtaken, and `hasChanges` passes over it.  And what was inserted and deleted
again, or was deleted after its row had gone, counts as a change, although nothing is due.
-/

namespace Reconcile

theorem Summary.isEmpty_iff {summary : Summary} : summary.isEmpty = true ↔ summary = .zero := by
  cases summary
  simp [Summary.isEmpty, Summary.zero, and_assoc]

/-- A summary counts nothing exactly if every row stayed as it was. -/
theorem Rows.Accounts.zero_iff {old new : Rows} {summary : Summary}
    (h : Rows.Accounts old new summary) :
    summary = .zero ↔ ∀ id, new.row? id = old.row? id := by
  constructor
  · rintro rfl
    have hadded : Rows.addedIds old new = ∅ := Set.encard_eq_zero.1 h.inserted
    have hchanged : Rows.changedIds old new = ∅ := Set.encard_eq_zero.1 h.updated
    have hremoved : Rows.removedIds old new = ∅ := Set.encard_eq_zero.1 h.deleted
    -- a row that is new, gone or changed would be in a set
    intro id
    cases hold : old.row? id with
    | none =>
      by_contra hnew
      exact (Set.eq_empty_iff_forall_notMem.1 hadded id) ⟨hold, Option.isSome_iff_ne_none.2 hnew⟩
    | some row =>
      cases hnew : new.row? id with
      | none =>
        have hsome : (old.row? id).isSome := by simp [hold]
        exact absurd ⟨hsome, hnew⟩ (Set.eq_empty_iff_forall_notMem.1 hremoved id)
      | some row' =>
        cases hsame : row.payload.same row'.payload with
        | true => rw [h.kept id row row' hold hnew hsame]
        | false =>
          exact absurd ⟨row, row', hold, hnew, hsame⟩
            (Set.eq_empty_iff_forall_notMem.1 hchanged id)
  · intro hkept
    have hadded : Rows.addedIds old new = ∅ := by
      refine Set.eq_empty_iff_forall_notMem.2 ?_
      rintro id ⟨hnone, hsome⟩
      rw [hkept, hnone] at hsome
      cases hsome
    have hchanged : Rows.changedIds old new = ∅ := by
      refine Set.eq_empty_iff_forall_notMem.2 ?_
      rintro id ⟨row, row', hold, hnew, hsame⟩
      cases hold.symm.trans ((hkept id).symm.trans hnew)
      rw [Json.same_refl] at hsame
      cases hsame
    have hremoved : Rows.removedIds old new = ∅ := by
      refine Set.eq_empty_iff_forall_notMem.2 ?_
      rintro id ⟨hsome, hnone⟩
      rw [← hkept, hnone] at hsome
      cases hsome
    have hinserted := h.inserted
    have hupdated := h.updated
    have hdeleted := h.deleted
    rw [hadded, Set.encard_empty] at hinserted
    rw [hchanged, Set.encard_empty] at hupdated
    rw [hremoved, Set.encard_empty] at hdeleted
    rcases summary with ⟨inserted, updated, deleted⟩
    cases Nat.cast_eq_zero.1 hinserted.symm
    cases Nat.cast_eq_zero.1 hupdated.symm
    cases Nat.cast_eq_zero.1 hdeleted.symm
    rfl

namespace Session

variable {T : Model} {s s' : Session T} {scope : Scope} {c : ContextId} {L : Ledger}
  {e : Entry T} {changes : Changes} {summary : Summary}

/-! ## What is due -/

/-- A save of the context has something to do for the entry. -/
inductive Due (s : Session T) (c : ContextId) (e : Entry T) : Prop where
  /-- A committed entity was deleted, and its row is still there. -/
  | removal (hdeleted : s.entryDeleted e = true) (hcommitted : e.pending = false)
      (hrow : ((s.rowsOf c).row? e.id).isSome) : Due s c e
  /-- A live entity has no row, or one of another payload. -/
  | write (hlive : s.entryDeleted e = false)
      (hrow : ∀ payload row, s.Savable e payload → (s.rowsOf c).row? e.id = some row →
        row.payload.same payload = false) : Due s c e

/-- A live entity that is not due finds its payload in its row. -/
theorem exists_row_of_not_due (hlive : s.entryDeleted e = false) (hdue : ¬ s.Due c e) :
    ∃ payload row, s.Savable e payload ∧ (s.rowsOf c).row? e.id = some row ∧
      row.payload.same payload = true := by
  by_contra hnone
  refine hdue (.write hlive ?_)
  intro payload row hsavable hrow
  by_contra hsame
  exact hnone ⟨payload, row, hsavable, hrow, by simpa using hsame⟩

/-- A commit leaves the rows as they are exactly if nothing is due. -/
theorem row?_commit_iff (hs : Sound s)
    (hcollect : s.collect c (s.registry c).values = .ok changes) :
    (∀ id, ((s.commit c changes).2.rowsOf c).row? id = (s.rowsOf c).row? id) ↔
      ∀ e ∈ (s.registry c).values, ¬ s.Due c e := by
  have heffect := effect_commit hs hcollect
  constructor
  · rintro hkept e he (⟨hdeleted, hcommitted, hrow⟩ | ⟨hlive, hrow⟩)
    · have hremoved := heffect.removed e he hdeleted
      rw [hkept, hcommitted] at hremoved
      rw [hremoved] at hrow
      cases hrow
    · rcases heffect.written e he hlive with ⟨payload, row, hsavable, hnew, hsame⟩
      rw [hkept] at hnew
      rw [hrow payload row hsavable hnew] at hsame
      cases hsame
  · intro hdue id
    by_cases hentry : ∃ e ∈ (s.registry c).values, e.id = id
    · rcases hentry with ⟨e, he, rfl⟩
      cases hdeleted : s.entryDeleted e with
      | true =>
        rw [heffect.removed e he hdeleted]
        split
        · rfl
        · next hcommitted =>
          cases hrow : (s.rowsOf c).row? e.id with
          | none => rfl
          | some row =>
            exact absurd (.removal hdeleted (by simpa using hcommitted) (by simp [hrow]))
              (hdue e he)
      | false =>
        rcases exists_row_of_not_due hdeleted (hdue e he) with
          ⟨payload, row, hsavable, hrow, hsame⟩
        rcases storeOf?_of_registry hs (hs.entry_of_mem he) with ⟨store, hstore⟩
        rcases row?_commit_of_live hs hstore hcollect (hs.entry_of_mem he) rfl hdeleted with
          ⟨payload', hsavable', hwritten⟩
        cases hsavable.unique hsavable'
        rw [hwritten, hrow, Rows.written_of_same hsame]
    · refine heffect.others id ?_
      exact fun e he hid => hentry ⟨e, he, hid⟩

/-! ## What was changed -/

theorem hasChanges_iff : s.hasChanges c = true ↔
    ∃ e ∈ (s.registry c).values, e.pending = true ∨ s.entryDeleted e = true := by
  simp [hasChanges]

/-- What is due although it was loaded or saved before was changed or overtaken since, or is written
in another way than it was read. -/
theorem Due.reason {allow : Deed → Prop} (hdue : s.Due c e) (htracked : Tracked allow s L)
    (hcollect : s.collect c (s.registry c).values = .ok changes)
    (he : e ∈ (s.registry c).values) (hlive : s.entryDeleted e = false) :
    s.Owns L c e.id ∨ s.Behind L c e.id ∨ s.Reforms L c e.id := by
  have hentry := htracked.sound.entry_of_mem he
  cases hrow : L e.slot with
  | none => exact Or.inl ⟨e, hentry, rfl, hrow⟩
  | some row =>
    have hstands : s.Stands c e row := htracked.upholds _ _ _ _ hentry hrow
    by_contra hnone
    rw [not_or, not_or] at hnone
    have hcurrent : (s.rowsOf c).row? row.id = some row :=
      not_not.1 fun hover => hnone.2.1 ⟨e, row, hentry, rfl, hrow, hover⟩
    have hkept : ¬ Model.Rewrites e.kind c row.payload :=
      fun hrewrites => hnone.2.2 ⟨e, row, hentry, rfl, hrow, hrewrites⟩
    rcases exists_write_of_collect hcollect he hlive with ⟨payload, _, hsavable⟩
    have hsame := hstands.same_of_savable hsavable hkept
    rw [hstands.id] at hcurrent
    rcases hdue with ⟨hdeleted, _, _⟩ | ⟨_, hdiffers⟩
    · cases hlive.symm.trans hdeleted
    · rw [hdiffers payload row hsavable hcurrent] at hsame
      cases hsame

/-! ## What `hasChanges` says of a save -/

/-- A save that ends well is empty exactly if it leaves every row as it is, and that is if nothing is
due.  If there are changes but the save is empty, all that was inserted or deleted is deleted and
without a row.  If there are none but the save is not empty, some entity is due that was changed or
overtaken since it was loaded or saved, or is written in another way than it was read.  In all other
cases there are changes exactly if the save is not empty. -/
theorem hasChanges_of_save (h : Tracked Deed.Native s L) (hkeys : s.KeysLeft)
    (hsave : (scope.save (T := T)).outcome s = (.ok summary, s')) :
    (summary.isEmpty = true ↔
      ∀ id, (s'.rowsOf scope.context).row? id = (s.rowsOf scope.context).row? id) ∧
    (summary.isEmpty = true ↔
      ∀ e ∈ (s.registry scope.context).values, ¬ s.Due scope.context e) ∧
    (s.hasChanges scope.context = true → summary.isEmpty = true →
      ∀ e ∈ (s.registry scope.context).values, e.pending = true ∨ s.entryDeleted e = true →
        s.entryDeleted e = true ∧ (s.rowsOf scope.context).row? e.id = none) ∧
    (s.hasChanges scope.context = false → summary.isEmpty = false →
      ∃ e ∈ (s.registry scope.context).values, s.Due scope.context e ∧
        s.entryDeleted e = false ∧ e.pending = false ∧
        (s.Owns L scope.context e.id ∨ s.Behind L scope.context e.id ∨
          s.Reforms L scope.context e.id)) ∧
    ((∀ e ∈ (s.registry scope.context).values,
        s.entryDeleted e = true → ((s.rowsOf scope.context).row? e.id).isSome) →
      (∀ e ∈ (s.registry scope.context).values, s.entryDeleted e = false → e.pending = false →
        ¬ s.Due scope.context e) →
      (s.hasChanges scope.context = false ↔ summary.isEmpty = true)) := by
  have hs : Sound s := h.sound
  have hreserved : Reserved s := h.run.reserved sound_empty numbered_empty reserved_empty hkeys
  rcases save_ok hsave with ⟨changes, hcollect, rfl, rfl⟩
  have hrows : (s.commit scope.context changes).1.isEmpty = true ↔ ∀ id,
      ((s.commit scope.context changes).2.rowsOf scope.context).row? id =
        (s.rowsOf scope.context).row? id :=
    Summary.isEmpty_iff.trans (accounts_commit hs hcollect).zero_iff
  have hdue := hrows.trans (row?_commit_iff hs hcollect)
  have hrowless : s.hasChanges scope.context = true →
      (s.commit scope.context changes).1.isEmpty = true →
      ∀ e ∈ (s.registry scope.context).values, e.pending = true ∨ s.entryDeleted e = true →
        s.entryDeleted e = true ∧ (s.rowsOf scope.context).row? e.id = none := by
    intro _ hempty e he hchanged
    have hnot := hdue.1 hempty e he
    cases hpending : e.pending with
    | true =>
      have hnone := hreserved.row?_of_pending (hs.entry_of_mem he) hpending
      refine ⟨?_, hnone⟩
      by_contra hlive
      refine hnot (.write (by simpa using hlive) ?_)
      intro payload row _ hrow
      cases hnone.symm.trans hrow
    | false =>
      have hdeleted : s.entryDeleted e = true := hchanged.resolve_left (by simp [hpending])
      refine ⟨hdeleted, ?_⟩
      cases hrow : (s.rowsOf scope.context).row? e.id with
      | none => rfl
      | some row => exact absurd (.removal hdeleted hpending (by simp [hrow])) hnot
  have hcommitted : s.hasChanges scope.context = false →
      ∀ e ∈ (s.registry scope.context).values, s.entryDeleted e = false ∧ e.pending = false := by
    intro hnone e he
    have hunchanged : ¬ (e.pending = true ∨ s.entryDeleted e = true) := by
      intro hchanged
      rw [hasChanges_iff.2 ⟨e, he, hchanged⟩] at hnone
      cases hnone
    rw [not_or, Bool.not_eq_true, Bool.not_eq_true] at hunchanged
    exact ⟨hunchanged.2, hunchanged.1⟩
  refine ⟨hrows, hdue, hrowless, ?_, ?_⟩
  · intro hnone hwrites
    have hsome : ∃ e ∈ (s.registry scope.context).values, s.Due scope.context e := by
      by_contra hnothing
      rw [hdue.2 fun e he hdue => hnothing ⟨e, he, hdue⟩] at hwrites
      cases hwrites
    rcases hsome with ⟨e, he, hdue⟩
    rcases hcommitted hnone e he with ⟨hlive, hpending⟩
    exact ⟨e, he, hdue, hlive, hpending, hdue.reason h hcollect he hlive⟩
  · intro hdeleted hloaded
    constructor
    · intro hnone
      refine hdue.2 ?_
      intro e he
      rcases hcommitted hnone e he with ⟨hlive, hpending⟩
      exact hloaded e he hlive hpending
    · intro hempty
      by_contra hchanges
      have hchanges : s.hasChanges scope.context = true := by simpa using hchanges
      rcases hasChanges_iff.1 hchanges with ⟨e, he, hchanged⟩
      -- what was deleted has its row, which the save would take out
      rcases hrowless hchanges hempty e he hchanged with ⟨hgone, hnone⟩
      have hsome := hdeleted e he hgone
      rw [hnone] at hsome
      cases hsome

section Renamed

open Sample

/-- The second context has changed nothing, but the row that it loaded was overtaken. -/
theorem hasChanges_blueSaved : ∃ L s',
    Tracked Deed.Native blueSaved L ∧ blueSaved.hasChanges ⟨2⟩ = false ∧
      ((Scope.within ⟨2⟩).save (T := model)).outcome blueSaved = (.ok ⟨0, 1, 0⟩, s') ∧
      ∃ e ∈ (blueSaved.registry ⟨2⟩).values, blueSaved.Due ⟨2⟩ e := by
  rcases tracked_blueSaved with ⟨L, htracked, _⟩
  have hsave : ((Scope.within ⟨2⟩).save (T := model)).outcome blueSaved =
      (.ok ⟨0, 1, 0⟩, (((Scope.within ⟨2⟩).save (T := model)).outcome blueSaved).2) := rfl
  have hnone : blueSaved.hasChanges ⟨2⟩ = false := rfl
  rcases (hasChanges_of_save htracked (by decide +kernel) hsave).2.2.2.1 hnone rfl with
    ⟨e, he, hdue, _⟩
  exact ⟨L, _, htracked, hnone, hsave, e, he, hdue⟩

/-- A tag that was renamed since it was saved is no change, but the save writes it.  A tag that was
inserted and deleted is a change, but the save does nothing. -/
theorem hasChanges_of_renamed_tag :
    (∃ L s', Tracked Deed.Native blueWritten L ∧ blueWritten.hasChanges ⟨1⟩ = false ∧
      ((Scope.within ⟨1⟩).save (T := model)).outcome blueWritten = (.ok ⟨0, 1, 0⟩, s')) ∧
    ∃ L s', Tracked Deed.Native (redWritten.markDeleted redHandle) L ∧
      (redWritten.markDeleted redHandle).hasChanges ⟨1⟩ = true ∧
      ((Scope.within ⟨1⟩).save (T := model)).outcome (redWritten.markDeleted redHandle) =
        (.ok .zero, s') := by
  rcases tracked_blueWritten with ⟨L, hblue, _⟩
  rcases tracked_redWritten with ⟨L', hred⟩
  refine ⟨⟨L, _, hblue, rfl, rfl⟩, ?_⟩
  exact ⟨_, _, hred.step (Step.delete redWritten 0) trivial, rfl, rfl⟩

end Renamed

end Session

end Reconcile
