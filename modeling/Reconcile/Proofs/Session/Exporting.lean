import Reconcile.Proofs.Session.Upkeep
import Reconcile.Proofs.Store.SnapshotText

/-!
# Exporting a store and importing what was exported

A store that checks payloads describes every entity that it has a table for, whether the table holds
rows or not.  So what it exports passes the check of every store with its schema, and once imported
there it is all that the other store has.
-/

namespace Reconcile

/-! ## Tables -/

namespace Rows

theorem isSome_table_commitRemoval (acc : Rows × Summary) (id : EntityId) {entity : String} :
    ((commitRemoval acc id).1.get? entity).isSome = (acc.1.get? entity).isSome := by
  unfold commitRemoval
  split
  · unfold remove
    split
    · next held hheld =>
      by_cases hentity : entity = id.entity
      · rw [hentity, SortedMap.get?_insert_self, hheld]
        rfl
      · rw [SortedMap.get?_insert_of_ne _ _ hentity]
    · rfl
  · rfl

theorem isSome_table_commitWrite {acc : Rows × Summary} {write : EntityId × Json}
    {entity : String} (h : ((commitWrite acc write).1.get? entity).isSome) :
    (acc.1.get? entity).isSome ∨ write.1.entity = entity := by
  have hfile : ∀ row, ((acc.1.file write.1.entity write.1.key row).get? entity).isSome →
      (acc.1.get? entity).isSome ∨ write.1.entity = entity := by
    intro row hrow
    by_cases hentity : entity = write.1.entity
    · exact Or.inr hentity.symm
    · rw [file, SortedMap.get?_insert_of_ne _ _ hentity] at hrow
      exact Or.inl hrow
  unfold commitWrite at h
  split at h
  · split at h
    · exact hfile _ h
    · exact Or.inl h
  · exact hfile _ h

/-- A commit makes tables only for what it writes. -/
theorem isSome_table_commit {rows : Rows} {removals : List EntityId}
    {writes : List (EntityId × Json)} {entity : String}
    (h : ((rows.commit removals writes).1.get? entity).isSome) :
    (rows.get? entity).isSome ∨ ∃ write ∈ writes, write.1.entity = entity := by
  -- for all accumulators, as the fold moves on
  have hwrites : ∀ acc : Rows × Summary, ((writes.foldl commitWrite acc).1.get? entity).isSome →
      (acc.1.get? entity).isSome ∨ ∃ write ∈ writes, write.1.entity = entity := by
    clear h
    induction writes with
    | nil => exact fun _ h => Or.inl h
    | cons write rest ih =>
      intro acc h
      rcases ih (commitWrite acc write) h with hsome | ⟨later, hlater, hentity⟩
      · rcases isSome_table_commitWrite hsome with hbefore | hentity
        · exact Or.inl hbefore
        · exact Or.inr ⟨write, List.mem_cons_self, hentity⟩
      · exact Or.inr ⟨later, List.mem_cons_of_mem _ hlater, hentity⟩
  have hremovals : ∀ acc : Rows × Summary,
      ((removals.foldl commitRemoval acc).1.get? entity).isSome = (acc.1.get? entity).isSome := by
    clear h
    induction removals with
    | nil => exact fun _ => rfl
    | cons id rest ih => exact fun acc => (ih _).trans (isSome_table_commitRemoval acc id)
  rw [← hremovals (rows, .zero)]
  exact hwrites _ h

end Rows

/-- If the store checks payloads, it describes every entity that it has a table for. -/
def Store.Described (store : Store) : Prop :=
  store.settings.validateOnSave = true → ∀ entity, (store.rows.get? entity).isSome →
    ∃ d, store.schema.require entity = .ok d

namespace Session

variable {T : Model} {s s' : Session T} {c : ContextId} {i : StoreId} {store target : Store}

theorem described_commit (hs : Sound s) {changes : Changes}
    (hcollect : s.collect c (s.registry c).values = .ok changes)
    (hstore : s.storeOf? c = some store) (hdescribed : store.Described) :
    Store.Described { store with rows := changes.committed store.rows } := by
  intro hvalidate entity htable
  rcases Rows.isSome_table_commit htable with hbefore | ⟨write, hwrite, hentity⟩
  · exact hdescribed hvalidate entity hbefore
  · rcases savable_of_mem_writes hcollect hwrite with ⟨e, he, hid, hlive, hsavable⟩
    have hpasses := hs.passes_of_collect hcollect (hs.entry_of_mem he) hlive hsavable
    unfold Passes settingsOf schemaOf at hpasses
    rw [hstore, ← hid, hentity] at hpasses
    rcases hpasses hvalidate with ⟨d, hd, _⟩
    exact ⟨d, hd⟩

theorem described_restore {snapshot : Snapshot} (h : store.restore snapshot = .ok target) :
    target.Described := by
  rcases Store.restore_ok h with ⟨hcheck, rfl⟩
  intro _ entity htable
  rcases Option.isSome_iff_exists.1 htable with ⟨table, hget⟩
  rcases (Snapshot.check_eq_ok_iff.1 hcheck).tables entity table hget with ⟨d, hd, _⟩
  exact ⟨d, Snapshot.require_eq_ok_iff.2 hd⟩

theorem kept_described : KeptByStores T Store.Described where
  new _ _ _ entity htable := by cases htable
  key _ _ hdescribed := hdescribed
  commit _ _ _ _ hs hcollect hstore := described_commit hs hcollect hstore
  restore _ _ _ := described_restore

end Session

namespace Session

variable {T : Model} {s s' : Session T} {c : ContextId} {i j : StoreId} {store target : Store}

/-- A store that checks payloads exports what the check lets pass. -/
theorem check_snapshot (hrun : Run (fun _ => True) .empty s) (hkeys : s.KeysLeft)
    (hstore : s.store? i = some store) (hvalidate : store.settings.validateOnSave = true) :
    store.snapshot.check store.schema = .ok () := by
  have hs : Sound s := hrun.sound sound_empty
  have hnumbered : Numbered s := hrun.numbered sound_empty numbered_empty hkeys
  refine Snapshot.check_eq_ok_iff.2 ⟨rfl, ?_⟩
  intro entity table htable
  have htable : store.rows.get? entity = some table := htable
  rcases kept_described.run hrun hstore hvalidate entity (by rw [htable]; rfl) with ⟨d, hd⟩
  refine ⟨d, Snapshot.require_eq_ok_iff.1 hd, ?_⟩
  intro key row hget
  have hrow : store.rows.row? ⟨entity, key⟩ = some row := by
    rw [Rows.row?, htable]
    exact hget
  rcases hrun.checked hstore hvalidate _ row hrow with ⟨d', hd', hcheck⟩
  cases hd.symm.trans hd'
  exact ⟨hs.filed hstore _ row hrow,
    hnumbered i store _ hstore (Or.inl ⟨store, hstore, by rw [hrow]; rfl⟩), hcheck⟩

end Session

/-! ## Importing -/

namespace Store

/-- The store with the rows of another one, and no key below that one's next key left to hand out. -/
def taking (target store : Store) : Store :=
  { target with nextKey := max target.nextKey store.nextKey, rows := store.rows }

variable {store target : Store}

theorem taking_self (store : Store) : store.taking store = store := by
  have hmax : max store.nextKey store.nextKey = store.nextKey := by
    show (if store.nextKey ≤ store.nextKey then _ else _) = _
    rw [ite_self]
  rw [taking, hmax]

/-- A store of the same schema that has handed out no further key exports the same. -/
theorem snapshot_taking (hschema : target.schema = store.schema)
    (hkey : target.nextKey ≤ store.nextKey) : (target.taking store).snapshot = store.snapshot := by
  have hmax : max target.nextKey store.nextKey = store.nextKey := if_pos hkey
  rw [snapshot, snapshot, taking]
  dsimp only
  rw [hschema, hmax]

end Store

namespace Session

variable {T : Model} {s a : Session T} {i j : StoreId} {store target : Store}

theorem modifyStore_of_store? (hstore : s.store? i = some store) :
    (s.modifyStore i fun _ => store) = s := by
  have hstores : s.stores.modify i.number (fun _ => store) = s.stores := by
    refine Array.ext_getElem? ?_
    intro n
    rw [Array.getElem?_modify]
    split
    · next hn =>
      have hget : s.stores[n]? = some store := hn ▸ hstore
      rw [hget]
      rfl
    · rfl
  rw [modifyStore, hstores]

theorem outcome_restore {snapshot : Snapshot} (hstore : a.store? j = some target)
    (hrestore : target.restore snapshot = .ok store) :
    (j.restore (T := T) snapshot).outcome a =
      (.ok (), (a.modifyStore j fun _ => store).report (.imported store.rows.count)) := by
  unfold StoreId.restore
  rw [Attempt.outcome_bind_of_ok (Attempt.outcome_get a), hstore]
  dsimp only
  rw [hrestore]
  rfl

/-- What the store exports is read back from its text, and any store with the schema takes it in: it
then has these rows and no others, and exports the same text if it was not ahead with its keys.  The
store itself does not change when it imports what it exported. -/
structure Portable (s : Session T) (i : StoreId) (store : Store) : Prop where
  read : Snapshot.ofText store.snapshot.text = .ok store.snapshot
  taken : ∀ (a : Session T) (j : StoreId) (target : Store), a.store? j = some target →
    target.schema = store.schema → ∃ a', (j.restore (T := T) store.snapshot).outcome a =
        (.ok (), a') ∧
      a'.store? j = some (target.taking store) ∧ (∀ l, l ≠ j → a'.store? l = a.store? l) ∧
      (target.nextKey ≤ store.nextKey →
        (target.taking store).snapshot.text = store.snapshot.text)
  again : (i.restore (T := T) store.snapshot).outcome s =
    (.ok (), s.report (.imported store.rows.count))

theorem portable_of_exact (hrun : Run (fun _ => True) .empty s) (hkeys : s.KeysLeft)
    (hstore : s.store? i = some store) (hvalidate : store.settings.validateOnSave = true)
    (hexact : store.snapshot.Exact) : s.Portable i store := by
  have hcheck := check_snapshot hrun hkeys hstore hvalidate
  refine ⟨Snapshot.ofText_text hexact rfl, ?_, ?_⟩
  · intro a j target htarget hschema
    have hrestore : target.restore store.snapshot = .ok (target.taking store) :=
      Store.restore_of_check (hschema ▸ hcheck)
    refine ⟨_, outcome_restore htarget hrestore, ?_, ?_, ?_⟩
    · show (a.modifyStore j fun _ => target.taking store).store? j = _
      rw [store?_modifyStore, if_pos rfl, htarget]
      rfl
    · intro l hl
      show (a.modifyStore j fun _ => target.taking store).store? l = _
      rw [store?_modifyStore, if_neg (Ne.symm hl)]
    · intro hkey
      rw [Store.snapshot_taking hschema hkey]
  · have hrestore : store.restore store.snapshot = .ok store := by
      rw [Store.restore_of_check hcheck]
      exact congrArg Except.ok store.taking_self
    rw [outcome_restore hstore hrestore, modifyStore_of_store? hstore]

end Session

end Reconcile
