import Reconcile.Proofs.Session.Effect

/-!
# What stores keep to

However the sessions of a store go, and whatever is imported into it, its rows stay filed under
their ids and below its next key, its next key does not decrease, and every insertion gets a key
above all keys that were committed or handed out before, as long as keys are left.  If the store
checks payloads, all its rows pass (`Store.Checked`), those that came with snapshots included.
-/

namespace Reconcile

/-- If the store checks payloads, those of its rows pass. -/
def Store.Checked (store : Store) : Prop :=
  store.settings.validateOnSave = true → ∀ id row, store.rows.row? id = some row →
    ∃ d, store.schema.require id.entity = .ok d ∧ d.check row.payload = .ok ()

/-- Writing leaves a row that was there, or one with the payload. -/
theorem Row.written_cases (old : Option Row) (id : EntityId) (payload : Json) :
    old = some (Row.written old id payload) ∨ (Row.written old id payload).payload = payload := by
  cases old with
  | none => exact Or.inr rfl
  | some row =>
    cases hsame : row.payload.same payload with
    | true => exact Or.inl (congrArg some (Rows.written_of_same hsame id)).symm
    | false => exact Or.inr (by rw [Rows.written_of_changed hsame])

namespace Session

variable {T : Model} {s s' : Session T} {c : ContextId} {deed : Deed} {i : StoreId}

/-! ## Stores stay -/

theorem Step.store?_isSome (h : Step s deed s') (hi : (s.store? i).isSome) :
    (s'.store? i).isSome := by
  rcases Option.isSome_iff_exists.1 hi with ⟨store, hstore⟩
  rcases h.storeFate hstore with ⟨store', hstore', _⟩
  exact Option.isSome_iff_exists.2 ⟨store', hstore'⟩

theorem Run.store?_isSome {allow : Deed → Prop} (h : Run allow s s') (hi : (s.store? i).isSome) :
    (s'.store? i).isSome :=
  h.induct (P := fun s => (s.store? i).isSome) (fun _ hstep => hstep.store?_isSome) hi

/-! ## Invariants of stores -/

/-- What holds of a new store, and stays true of a store while it hands out keys, commits what was
collected, and imports. -/
structure KeptByStores (T : Model) (P : Store → Prop) : Prop where
  new : ∀ schema settings, P (.new schema settings)
  key : ∀ (store : Store) nextKey, P store → P { store with nextKey }
  commit : ∀ (s : Session T) c changes store, Sound s →
    s.collect c (s.registry c).values = .ok changes → s.storeOf? c = some store → P store →
    P { store with rows := changes.committed store.rows }
  restore : ∀ (store store' : Store) snapshot, store.restore snapshot = .ok store' → P store'

theorem KeptByStores.step {P : Store → Prop} (hkept : KeptByStores T P) (h : Step s deed s')
    (hs : Sound s) (hstores : ∀ i store, s.store? i = some store → P store) {store : Store}
    (hstore : s'.store? i = some store) : P store := by
  cases hold : s.store? i with
  | none =>
    rcases h.opened hstore hold with ⟨schema, settings, rfl⟩
    exact hkept.new schema settings
  | some before =>
    rcases h.storeFate hold with ⟨after, hafter, hfate⟩
    cases hstore.symm.trans hafter
    cases hfate with
    | kept => exact hstores i store hold
    | numbered => exact hkept.key before _ (hstores i before hold)
    | committed hof hcollect =>
      exact hkept.commit s _ _ before hs hcollect hof (hstores i before hold)
    | imported hrestore => exact hkept.restore _ _ _ hrestore

theorem KeptByStores.run {P : Store → Prop} (hkept : KeptByStores T P) {allow : Deed → Prop}
    (h : Run allow .empty s) {store : Store} (hstore : s.store? i = some store) : P store := by
  have hrun := h.induct
    (P := fun s => Sound s ∧ ∀ i store, s.store? i = some store → P store) ?_
    ⟨sound_empty, fun _ _ hnone => by cases hnone⟩
  · exact hrun.2 i store hstore
  · intro a b deed _ hstep ih
    exact ⟨hstep.sound ih.1, fun i store => hkept.step hstep ih.1 ih.2⟩

/-! ## Payloads that were checked -/

theorem checked_commit (hs : Sound s) {changes : Changes}
    (hcollect : s.collect c (s.registry c).values = .ok changes) {store : Store}
    (hstore : s.storeOf? c = some store) (hchecked : store.Checked) :
    Store.Checked { store with rows := changes.committed store.rows } := by
  intro hvalidate id row hrow
  rcases (hs.separate hcollect).row?_commit_cases store.rows id with
    ⟨payload, hwrite, hwritten⟩ | ⟨_, hnone⟩ | ⟨_, _, hkept⟩
  · cases Option.some.inj (hrow.symm.trans hwritten)
    rcases savable_of_mem_writes hcollect hwrite with ⟨e, he, hid, hlive, hsavable⟩
    have hpasses := hs.passes_of_collect hcollect (hs.entry_of_mem he) hlive hsavable
    unfold Passes settingsOf schemaOf at hpasses
    rw [hstore, ← hid] at hpasses
    rcases Row.written_cases (store.rows.row? id) id payload with hold | hpayload
    · exact hchecked hvalidate id _ hold
    · rw [hpayload]
      exact hpasses hvalidate
  · cases hrow.symm.trans hnone
  · exact hchecked hvalidate id row (hkept.symm.trans hrow)

theorem checked_restore {store store' : Store} {snapshot : Snapshot}
    (h : store.restore snapshot = .ok store') : store'.Checked := by
  rcases Store.restore_ok h with ⟨hcheck, rfl⟩
  intro _ id row hrow
  exact (Snapshot.row?_of_check hcheck hrow).2.2

theorem kept_checked : KeptByStores T Store.Checked where
  new _ _ _ id row hrow := by cases hrow
  key _ _ hchecked := hchecked
  commit _ _ _ _ hs hcollect hstore := checked_commit hs hcollect hstore
  restore _ _ _ := checked_restore

theorem Run.checked {allow : Deed → Prop} (h : Run allow .empty s) {store : Store}
    (hstore : s.store? i = some store) : store.Checked := kept_checked.run h hstore

/-! ## Keys -/

variable {allow : Deed → Prop}

theorem Run.nextKey_le (h : Run allow s s') (hkeys : s'.KeysLeft) {store : Store}
    (hstore : s.store? i = some store) :
    ∃ store', s'.store? i = some store' ∧ store.nextKey ≤ store'.nextKey := by
  refine h.induct (P := fun s' => s'.KeysLeft → ∃ store', s'.store? i = some store' ∧
    store.nextKey ≤ store'.nextKey) ?_ (fun _ => ⟨store, hstore, UInt64.le_refl _⟩) hkeys
  intro a b deed _ hstep ih hleft
  rcases ih (hstep.keysLeft hleft) with ⟨before, hbefore, hle⟩
  rcases hstep.nextKey_le hleft hbefore with ⟨after, hafter, hle'⟩
  exact ⟨after, hafter, UInt64.le_trans hle hle'⟩

/-- The key of an insertion, and the store afterwards. -/
theorem insert_ok {scope : Scope} {k : T.Kind} {h : Handle k}
    (hinsert : (scope.insert k).outcome s = (.ok h, s')) : ∃ i store,
      s.storeIdOf? scope.context = some i ∧ s.store? i = some store ∧ h.id.key = store.nextKey ∧
        Step s (.inserted s.entities.size) s' ∧
        s'.store? i = some { store with nextKey := store.nextKey + 1 } ∧
        Event.inserted h.id scope.context ∈ s'.journal := by
  rcases insert_cases scope k s with ⟨fault, hfault, _⟩ | ⟨store, hstore, hok⟩
  · cases hinsert.symm.trans hfault
  · cases hinsert.symm.trans hok
    rcases isOpen_of_storeOf? hstore with ⟨ctx, hctx, hget⟩
    have hplace : s.storeIdOf? scope.context = some ctx.store := by
      rw [storeIdOf?, hctx]
      rfl
    refine ⟨ctx.store, store, hplace, hget, rfl, Step.insert k hstore, ?_, Array.mem_push_self⟩
    rw [store?_insertUnder, if_pos hplace, hget]
    rfl

/-- What holds of every store of every session, while keys are left. -/
theorem store_upkeep (h : Run (fun _ => True) .empty s) (hkeys : s.KeysLeft) :
    (∀ i store id row, s.store? i = some store → store.rows.row? id = some row →
      row.id = id ∧ id.key < store.nextKey ∧ (store.settings.validateOnSave = true →
        ∃ d, store.schema.require id.entity = .ok d ∧ d.check row.payload = .ok ())) ∧
    (∀ s' i store, Run (fun _ => True) s s' → s'.KeysLeft → s.store? i = some store →
      ∃ store', s'.store? i = some store' ∧ store.nextKey ≤ store'.nextKey) ∧
    (∀ (scope : Scope) (k : T.Kind) (new : Handle k) (s' : Session T),
      (scope.insert k).outcome s = (.ok new, s') →
      (∀ id row, (s.rowsOf scope.context).row? id = some row → id.key < new.id.key) ∧
      ∀ (a a' : Session T) (earlier : Scope) (l : T.Kind) (old : Handle l),
        (earlier.insert l).outcome a = (.ok old, a') → Run (fun _ => True) a' s →
        a.storeIdOf? earlier.context = s.storeIdOf? scope.context → old.id.key < new.id.key) := by
  have hs : Sound s := h.sound sound_empty
  have hnumbered : Numbered s := h.numbered sound_empty numbered_empty hkeys
  refine ⟨?_, fun s' i store hrun hleft hstore => hrun.nextKey_le hleft hstore, ?_⟩
  · intro i store id row hstore hrow
    exact ⟨hs.filed hstore id row hrow,
      hnumbered i store id hstore (Or.inl ⟨store, hstore, by rw [hrow]; rfl⟩),
      fun hvalidate => h.checked hstore hvalidate id row hrow⟩
  · intro scope k new s' hinsert
    rcases insert_ok hinsert with ⟨i, store, hplace, hstore, hkey, _⟩
    constructor
    · intro id row hrow
      rw [rowsOf, storeOf?_eq, hplace, Option.bind_some, hstore] at hrow
      rw [hkey]
      exact hnumbered i store id hstore (Or.inl ⟨store, hstore, by rw [hrow]; rfl⟩)
    · intro a a' earlier l old hearlier hrun hsame
      rcases insert_ok hearlier with ⟨j, before, hplace', _, hkey', _, hafter, hevent⟩
      cases hplace.symm.trans (hsame.symm.trans hplace')
      have hleft : old.id.key ≠ lastKey := hrun.keysLeft hkeys _ hevent
      rcases hrun.nextKey_le hkeys hafter with ⟨now, hnow, hle⟩
      cases hstore.symm.trans hnow
      rw [hkey'] at hleft ⊢
      rw [hkey]
      exact UInt64.lt_of_lt_of_le (lt_add_one_of_ne_last hleft) hle

section Saved

open Sample

/-- After the red tag was saved, its row passes the check, and the next tag gets a key above it. -/
theorem insert_after_redSaved : ∃ (row : Row) (new : Handle Kind.tag) (s' : Session model),
    (redSaved.rowsOf ⟨1⟩).row? tagId = some row ∧ row.id = tagId ∧
      (∃ d, blogSchema.require "Tag" = .ok d ∧ d.check row.payload = .ok ()) ∧
      ((Scope.within ⟨1⟩).insert (T := model) Kind.tag).outcome redSaved = (.ok new, s') ∧
      tagId.key < new.id.key := by
  rcases tracked_redSaved with ⟨L, htracked⟩
  have hrun : Run (fun _ => True) .empty redSaved := htracked.run.mono fun _ _ => trivial
  have hkeys : redSaved.KeysLeft := by decide +kernel
  rcases store_upkeep hrun hkeys with ⟨hrows, _, hinserts⟩
  have hrow : (redSaved.rowsOf ⟨1⟩).row? tagId = some ⟨tagId, 1, tagPayload "red"⟩ := rfl
  have hinsert : ((Scope.within ⟨1⟩).insert (T := model) Kind.tag).outcome redSaved =
      (.ok ⟨1, ⟨"Tag", 2⟩, ⟨1⟩⟩,
        (((Scope.within ⟨1⟩).insert (T := model) Kind.tag).outcome redSaved).2) := rfl
  have hstored := hrows ⟨0⟩ ⟨blogSchema, .default, 2, redSaved.rowsOf ⟨1⟩⟩ tagId _ rfl hrow
  exact ⟨_, _, _, hrow, hstored.1, hstored.2.2 rfl, hinsert,
    (hinserts _ _ _ _ hinsert).1 tagId _ hrow⟩

end Saved

end Session

end Reconcile
