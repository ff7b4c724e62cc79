import Reconcile.Proofs.Session.Ledger

/-!
# What rows hold without imports

Every payload that a save commits was written by a type of the row's name (`Written`).  If types
read back what they write (`Model.Faithful`), an entity that stands for a row has a payload that is
the same as the row's.
-/

namespace Reconcile

namespace Model

variable {T : Model}

/-- A type of this name writes the payload. -/
def Written (T : Model) (entity : String) (payload : Json) : Prop :=
  ∃ (k : T.Kind) (v : T.Value k), T.entityName k = entity ∧ T.encode v = .ok payload

/-- What a type writes, every type of its name that can read it writes again. -/
def Faithful (T : Model) : Prop :=
  ∀ (k : T.Kind) (c : ContextId) (payload : Json) (v : T.Value k),
    T.Written (T.entityName k) payload → T.decode k (some c) payload = some v →
      ∃ j, T.encode v = .ok j ∧ payload.same j = true

theorem Faithful.same_of_reflects (hT : T.Faithful) {k : T.Kind} {c : ContextId} {payload : Json}
    {written : Except String Json} (hwritten : T.Written (T.entityName k) payload)
    (h : Model.Reflects k c payload written) :
    ∃ j, written = .ok j ∧ payload.same j = true := by
  rcases h with hsame | ⟨v, hdecode, hencode⟩
  · exact hsame
  · rcases hT k c payload v hwritten hdecode with ⟨j, hj, hsame⟩
    exact ⟨j, hencode.symm.trans hj, hsame⟩

end Model

namespace Session

variable {T : Model} {s s' : Session T} {c : ContextId} {deed : Deed} {L : Ledger}

/-- Every row of every store was written by a type of its name. -/
def RowsWritten (s : Session T) : Prop :=
  ∀ i store id row, s.store? i = some store → store.rows.row? id = some row →
    T.Written id.entity row.payload

theorem RowsWritten.rowsOf (h : s.RowsWritten) {id : EntityId} {row : Row}
    (hrow : (s.rowsOf c).row? id = some row) : T.Written id.entity row.payload := by
  rcases storeOf?_of_row? hrow with ⟨store, hstore, hget⟩
  rcases isOpen_of_storeOf? hstore with ⟨ctx, _, hi⟩
  exact h _ store id row hi hget

theorem written_of_savable (hs : Sound s) {key : UInt64} {e : Entry T}
    (he : (s.registry c).get? key = some e) {payload : Json} (hsavable : s.Savable e payload) :
    T.Written e.id.entity payload := by
  have hlodged := hs.lodged he
  rcases hlodged.entity with ⟨m, hm, hkind⟩
  rcases hsavable.entity with ⟨m', hm', _, _, hencode⟩
  cases Option.some.inj (hm.symm.trans hm')
  exact ⟨m.kind, m.state, by rw [hkind, hlodged.name], hencode⟩

/-- The payload of a row after a commit is the one that the row had, or that of a live entity. -/
theorem payload_commit (hs : Sound s) {changes : Changes}
    (hcollect : s.collect c (s.registry c).values = .ok changes) {id : EntityId} {row : Row}
    (hrow : ((s.commit c changes).2.rowsOf c).row? id = some row) :
    (∃ old, (s.rowsOf c).row? id = some old ∧ row.payload = old.payload) ∨
      ∃ e, (s.registry c).get? id.key = some e ∧ e.id = id ∧ s.entryDeleted e = false ∧
        s.Savable e row.payload := by
  by_cases hentry : ∃ e, (s.registry c).get? id.key = some e ∧ e.id = id
  · rcases hentry with ⟨e, he, hid⟩
    rcases storeOf?_of_registry hs he with ⟨store, hstore⟩
    cases hdeleted : s.entryDeleted e with
    | true =>
      rw [row?_commit_of_deleted hs hstore hcollect he hid hdeleted] at hrow
      split at hrow
      · exact Or.inl ⟨row, hrow, rfl⟩
      · cases hrow
    | false =>
      rcases row?_commit_of_live hs hstore hcollect he hid hdeleted with
        ⟨payload, hsavable, hwritten⟩
      rw [hwritten] at hrow
      cases Option.some.inj hrow
      cases hold : (s.rowsOf c).row? id with
      | none => exact Or.inr ⟨e, he, hid, hdeleted, hsavable⟩
      | some old =>
        -- a row that has the same payload already is left as it is
        unfold Row.written Row.update
        dsimp only
        split
        · exact Or.inl ⟨old, rfl, rfl⟩
        · exact Or.inr ⟨e, he, hid, hdeleted, hsavable⟩
  · rw [row?_commit_of_unregistered hs hcollect fun e he hid => hentry ⟨e, he, hid⟩] at hrow
    exact Or.inl ⟨row, hrow, rfl⟩

theorem RowsWritten.commit (h : s.RowsWritten) (hs : Sound s) {changes : Changes}
    (hcollect : s.collect c (s.registry c).values = .ok changes) {id : EntityId} {row : Row}
    (hrow : ((s.commit c changes).2.rowsOf c).row? id = some row) :
    T.Written id.entity row.payload := by
  rcases payload_commit hs hcollect hrow with ⟨old, hold, hpayload⟩ | ⟨e, he, rfl, _, hsavable⟩
  · rw [hpayload]
    exact h.rowsOf hold
  · exact written_of_savable hs he hsavable

theorem Step.rowsWritten (h : Step s deed s') (hs : Sound s) (hnative : deed.Native)
    (hrows : s.RowsWritten) : s'.RowsWritten := by
  intro i store' id row hstore' hrow
  cases hold : s.store? i with
  | none =>
    rcases h.opened hstore' hold with ⟨schema, settings, rfl⟩
    cases hrow
  | some store =>
    rcases h.storeFate hold with ⟨after, hafter, hfate⟩
    cases hstore'.symm.trans hafter
    cases hfate with
    | kept => exact hrows i _ id row hold hrow
    | numbered => exact hrows i _ id row hold hrow
    | committed hof hcollect =>
      refine hrows.commit hs hcollect ?_
      rw [rowsOf_commit_self hof, rowsOf_of_storeOf? hof]
      exact hrow
    | imported => cases hnative

/-- The rows that entities stand for, by the ledger, were written by types of their names. -/
def LedgerWritten (T : Model) (L : Ledger) : Prop :=
  ∀ n row, L n = some row → T.Written row.id.entity row.payload

theorem Step.ledgerWritten (h : Step s deed s') (hs : Sound s) (hrows : s.RowsWritten)
    (hL : LedgerWritten T L) : LedgerWritten T (L.after s' deed) := by
  have hforget : ∀ slot, LedgerWritten T fun n => if n = slot then none else L n := by
    intro slot n row hrow
    dsimp only at hrow
    split at hrow
    · cases hrow
    · exact hL n row hrow
  cases h with
  | insert => exact hforget _
  | edit => exact hforget _
  | delete => exact hforget _
  | @load c k row v hrow =>
    intro n row' hrow'
    simp only [Ledger.after] at hrow'
    split at hrow'
    · cases hrow'
      exact hrows.rowsOf hrow
    · exact hL n row' hrow'
  | @save c changes hcollect =>
    intro n row hrow
    simp only [Ledger.after] at hrow
    split at hrow
    · next e hfind =>
      rcases SortedMap.mem_values_iff.1 (List.mem_of_find?_eq_some hfind) with ⟨key, he⟩
      have hid : row.id = e.id := (hs.commit c changes).filed_rowsOf c e.id row hrow
      rw [hid]
      exact hrows.commit hs hcollect hrow
    · exact hL n row hrow
  | _ => exact hL

/-- Without imports, every row was written by a type of its name, and so was every row that an
entity stands for. -/
theorem Tracked.written (h : Tracked Deed.Native s L) : s.RowsWritten ∧ LedgerWritten T L := by
  induction h with
  | empty =>
    constructor
    · intro i store id row hstore
      cases hstore
    · intro n row hrow
      cases hrow
  | step hprev hstep hnative ih =>
    exact ⟨hstep.rowsWritten hprev.sound hnative ih.1,
      hstep.ledgerWritten hprev.sound ih.1 ih.2⟩

theorem Run.rowsWritten (h : Run Deed.Native .empty s) : s.RowsWritten := by
  rcases Tracked.empty.exists_of_run h with ⟨L, htracked⟩
  exact htracked.written.1

end Session

end Reconcile
