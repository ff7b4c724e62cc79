import Reconcile.Proofs.Session.Effect

/-!
# Entities that were never saved

What a context inserts is its own until it saves it.  No store row has the id, no other context has
an entity of it, and if the context deletes the entity or is closed before it saves, nothing ever
will (`Unwritten`).  A temporary id is the id of such an entity, and so is the id of an entry that
is pending, whether it was confirmed meanwhile or not.
-/

namespace Reconcile

namespace Session

variable {T : Model} {s s' : Session T} {c d : ContextId} {k : T.Kind} {h : Handle k}
  {i : StoreId} {deed : Deed}

/-- The entity of the handle was never saved to the store, and has its id to itself there. -/
structure Unwritten (s : Session T) (i : StoreId) (h : Handle k) : Prop where
  /-- The id was given out, so no other entity gets it. -/
  below : ∃ store, s.store? i = some store ∧ h.id.key < store.nextKey
  row : ∀ store, s.store? i = some store → store.rows.row? h.id = none
  entry : ∀ d key e, s.storeIdOf? d = some i → (s.registry d).get? key = some e → e.id = h.id →
    e.slot = h.slot ∧ e.pending = true

/-- A save of the context makes a row for the id. -/
def Writes (s : Session T) (i : StoreId) (h : Handle k) (d : ContextId) : Prop :=
  ∃ e, s.storeIdOf? d = some i ∧ (s.registry d).get? h.id.key = some e ∧ e.id = h.id ∧
    s.entryDeleted e = false

/-! ## Steps that write no row -/

/-- Opening contexts, whose registries are empty, and closing some writes nothing. -/
theorem Unwritten.of_contexts (hunwritten : s.Unwritten i h) (hstore : s'.store? i = s.store? i)
    (hcontext : ∀ c ctx, s'.context? c = some ctx →
      ctx.registry = .empty ∨ s.context? c = some ctx) : s'.Unwritten i h := by
  refine ⟨by simpa [hstore] using hunwritten.below, by simpa [hstore] using hunwritten.row, ?_⟩
  intro d key e hi he hid
  rcases isOpen_of_registry he with ⟨ctx, hctx, hget⟩
  rcases hcontext d ctx hctx with hempty | hold
  · rw [hempty] at hget
    cases hget
  · have hsame : s'.context? d = s.context? d := hctx.trans hold.symm
    have hplace : s.storeIdOf? d = some i := by simpa [storeIdOf?, hsame] using hi
    exact hunwritten.entry d key e hplace (by simpa [registry_congr hsame] using he) hid

theorem Unwritten.insertUnder (hunwritten : s.Unwritten i h) {l : T.Kind} {store : Store}
    (hstore : s.storeOf? c = some store) (hkey : store.nextKey ≠ lastKey) :
    (s.insertUnder c l store.nextKey).Unwritten i h := by
  rcases hunwritten.below with ⟨old, hold, hlt⟩
  -- if the insertion is one into this store, it takes the next key, which the id lies below
  have hsame : s.storeIdOf? c = some i → old = store := by
    intro hi
    rw [storeOf?_eq, hi] at hstore
    exact Option.some.inj (hold.symm.trans hstore)
  constructor
  case below =>
    rw [store?_insertUnder, hold]
    split
    · next hi =>
      cases hsame hi
      exact ⟨_, rfl, UInt64.lt_trans hlt (lt_add_one_of_ne_last hkey)⟩
    · exact ⟨old, rfl, hlt⟩
  case row =>
    intro new hnew
    rw [store?_insertUnder] at hnew
    split at hnew
    · rcases Option.map_eq_some_iff.1 hnew with ⟨before, hbefore, rfl⟩
      exact hunwritten.row before hbefore
    · exact hunwritten.row new hnew
  case entry =>
    intro d key e hi he hid
    rw [storeIdOf?_insertUnder] at hi
    rcases entry_of_insertUnder hstore he with ⟨rfl, rfl⟩ | hbefore
    · cases hsame hi
      have hnext : h.id.key = store.nextKey := (congrArg EntityId.key hid).symm
      exact absurd (hnext ▸ hlt) (UInt64.lt_irrefl _)
    · exact hunwritten.entry d key e hi hbefore hid

theorem Unwritten.enroll (hunwritten : s.Unwritten i h) {l : T.Kind} {row : Row} {v : T.Value l}
    (hfiled : (s.rowsOf c).Filed) (hrow : (s.rowsOf c).row? row.id = some row) :
    (s.enroll c l row.id v false).Unwritten i h := by
  rcases storeOf?_of_row? hrow with ⟨store, hstore, hget⟩
  rcases isOpen_of_storeOf? hstore with ⟨ctx, hctx, _⟩
  have hstores : (s.enroll c l row.id v false).store? i = s.store? i := by
    simp [store?]
  refine ⟨hstores ▸ hunwritten.below, hstores ▸ hunwritten.row, ?_⟩
  intro d key e hi he hid
  rw [storeIdOf?_enroll] at hi
  rcases entry_of_enroll hctx he with ⟨rfl, _, rfl⟩ | hbefore
  · -- what is loaded has a row
    have hplace : s.store? i = some store := by simpa [storeOf?_eq, hi] using hstore
    have hnone := hunwritten.row store hplace
    have hsame : row.id = h.id := hid
    simp [← hsame, hget] at hnone
  · exact hunwritten.entry d key e hi hbefore hid

/-! ## Saving -/

theorem Unwritten.commit (hunwritten : s.Unwritten i h) (hs : Sound s) {changes : Changes}
    (hcollect : s.collect c (s.registry c).values = .ok changes)
    (hwrites : ¬ s.Writes i h c) : (s.commit c changes).2.Unwritten i h := by
  rcases hunwritten.below with ⟨old, hold, hlt⟩
  have hnone := hunwritten.row old hold
  constructor
  case below =>
    rw [store?_commit, hold]
    split
    · exact ⟨_, rfl, hlt⟩
    · exact ⟨old, rfl, hlt⟩
  case row =>
    intro new hnew
    rw [store?_commit, hold] at hnew
    split at hnew
    · next hi =>
      cases hnew
      have hof : s.storeOf? c = some old := by simpa [storeOf?_eq, hi] using hold
      have hrows : changes.committed old.rows = (s.commit c changes).2.rowsOf c := by
        rw [rowsOf_commit_self hof, rowsOf_of_storeOf? hof]
      have hbefore : (s.rowsOf c).row? h.id = none := by
        simpa [rowsOf_of_storeOf? hof] using hnone
      -- an entry of the id is pending and deleted, so the save passes over it
      show (changes.committed old.rows).row? h.id = none
      rw [hrows]
      by_cases hentry : ∃ e, (s.registry c).get? h.id.key = some e ∧ e.id = h.id
      · rcases hentry with ⟨e, he, hid⟩
        have hdeleted : s.entryDeleted e = true := by
          by_contra hlive
          exact hwrites ⟨e, hi, he, hid, by simpa using hlive⟩
        have hpending : e.pending = true := (hunwritten.entry c _ e hi he hid).2
        simpa [hpending, hbefore] using row?_commit_of_deleted hs hof hcollect he hid hdeleted
      · have hkept := row?_commit_of_unregistered hs hcollect
          fun e he hid => hentry ⟨e, he, hid⟩
        exact hkept.trans hbefore
    · cases hnew
      exact hnone
  case entry =>
    intro d key e hi he hid
    rw [storeIdOf?_commit] at hi
    by_cases hd : d = c
    · subst hd
      -- what the save keeps in the registry it has written
      rcases get?_registry_commit.1 he with ⟨before, hbefore, hlive, rfl⟩
      have hkey : key = h.id.key :=
        (hs.lodged hbefore).key.symm.trans (congrArg EntityId.key hid)
      exact absurd ⟨before, hi, hkey ▸ hbefore, hid, hlive⟩ hwrites
    · rw [registry_commit_of_ne s hd] at he
      exact hunwritten.entry d key e hi he hid

/-- An entity stays unwritten until its context saves it. -/
theorem Step.unwritten (hstep : Step s deed s') (hnative : deed.Native) (hs : Sound s)
    (hkeys : KeysLeft s') (hunwritten : s.Unwritten i h) :
    s'.Unwritten i h ∨ ∃ d, deed = .saved d ∧ s.Writes i h d := by
  cases hstep with
  | openStore schema settings =>
    rcases hunwritten.below with ⟨old, hold, _⟩
    have hstore : (s.openStore schema settings).2.store? i = s.store? i :=
      store?_openStore_of_isSome (by simp [hold])
    exact Or.inl ⟨hstore ▸ hunwritten.below, hstore ▸ hunwritten.row, hunwritten.entry⟩
  | openContext j hj =>
    refine Or.inl (hunwritten.of_contexts rfl ?_)
    intro d ctx hctx
    rcases context?_of_openContext hctx with ⟨_, rfl⟩ | hbefore
    · exact Or.inl rfl
    · exact Or.inr hbefore
  | closeContext d =>
    exact Or.inl (hunwritten.of_contexts rfl fun d ctx hctx =>
      Or.inr (context?_of_closeContext hctx))
  | @insert c store l hstore =>
    have hkey : store.nextKey ≠ lastKey := hkeys _ Array.mem_push_self
    exact Or.inl (hunwritten.insertUnder hstore hkey)
  | @load c l row v hrow hname hnew hdecode =>
    exact Or.inl (hunwritten.enroll (hs.filed_rowsOf c) hrow)
  | @save d changes hcollect =>
    by_cases hwrites : s.Writes i h d
    · exact Or.inr ⟨d, rfl, hwrites⟩
    · exact Or.inl (hunwritten.commit hs hcollect hwrites)
  | restore => exact absurd hnative id
  | _ => exact Or.inl ⟨hunwritten.below, hunwritten.row, hunwritten.entry⟩

/-! ## Flags -/

/-- No step takes a deletion back, or makes a confirmed id temporary. -/
theorem Step.flags (hstep : Step s deed s') {n : Nat} {m : Entity T}
    (hm : s.entity? n = some m) : ∃ m', s'.entity? n = some m' ∧
      (m.deleted = true → m'.deleted = true) ∧ (m'.temporary = true → m.temporary = true) := by
  rcases hstep.entityFate hm with ⟨m', hm', hfate⟩
  refine ⟨m', hm', ?_⟩
  cases hfate with
  | regarded hregarded => exact ⟨hregarded.deleted.trans, hregarded.temporary.symm.trans⟩
  | confirmed htemporary => exact ⟨id, htemporary⟩
  | edited hedited => exact ⟨hedited.deleted.trans, hedited.temporary.symm.trans⟩
  | deleted => exact ⟨fun _ => rfl, id⟩

theorem Step.deleted (hstep : Step s deed s') (hdeleted : s.isDeleted h = true) :
    s'.isDeleted h = true := by
  cases hm : s.entity? h.slot with
  | none =>
    rw [isDeleted, hm] at hdeleted
    cases hdeleted
  | some m =>
    rcases hstep.flags hm with ⟨m', hm', hkept, _⟩
    have htrue : m.deleted = true := by simpa [isDeleted, hm] using hdeleted
    simpa [isDeleted, hm'] using hkept htrue

theorem Run.deleted {allow : Deed → Prop} (hrun : Run allow s s')
    (hdeleted : s.isDeleted h = true) : s'.isDeleted h = true :=
  hrun.induct (P := fun s => s.isDeleted h = true) (fun _ hstep => hstep.deleted) hdeleted

theorem Step.temporary (hstep : Step s deed s') (hholds : s.Holds h)
    (htemporary : s'.isTemporary h = true) : s.isTemporary h = true := by
  rcases hholds with ⟨m, hm, _⟩
  rcases hstep.flags hm with ⟨m', hm', _, hkept⟩
  have htrue : m'.temporary = true := by simpa [isTemporary, hm'] using htemporary
  simpa [isTemporary, hm] using hkept htrue

/-! ## Ids that are not confirmed -/

/-- After a save, what the registry has is committed and confirmed. -/
theorem Step.current (hstep : Step s (.saved c) s') (hs : Sound s) : Current s' c := by
  cases hstep with
  | save hcollect => exact current_commit hs hcollect

/-- An id that is still temporary after a step was not written by it. -/
theorem Step.unwritten_of_temporary (hstep : Step s deed s') (hnative : deed.Native)
    (hs : Sound s) (hkeys : KeysLeft s') (hunwritten : s.Unwritten i h)
    (htemporary : s'.isTemporary h = true) : s'.Unwritten i h := by
  rcases hstep.unwritten hnative hs hkeys hunwritten with hkept | ⟨d, rfl, e, hi, he, hid, hlive⟩
  · exact hkept
  · -- the save has confirmed what it has written
    have hslot : e.slot = h.slot := (hunwritten.entry d _ e hi he hid).1
    have hconfirmed : s'.isTemporary e.handle = false := by
      cases hstep with
      | save hcollect =>
        exact confirmed_commit s d _ (SortedMap.mem_values_iff.2 ⟨_, he⟩) hlive
    have hsame : s'.isTemporary h = s'.isTemporary e.handle := by
      have hentity : e.handle.slot = h.slot := hslot
      simp [isTemporary, hentity]
    rw [hsame, hconfirmed] at htemporary
    cases htemporary

/-- What is pending in a registry was never saved, and what is temporary is pending. -/
structure Reserved (s : Session T) : Prop where
  pending : ∀ d key e i, (s.registry d).get? key = some e → s.storeIdOf? d = some i →
    e.pending = true → s.Unwritten i e.handle
  temporary : ∀ d key e, (s.registry d).get? key = some e → s.isTemporary e.handle = true →
    e.pending = true

theorem reserved_empty : Reserved (.empty : Session T) := by
  constructor
  case pending =>
    intro d key e i he
    cases he
  case temporary =>
    intro d key e he
    cases he

/-- An entry is a committed one, or was there before, or was inserted just now. -/
theorem Step.entry (hstep : Step s deed s') (hs : Sound s) {key : UInt64} {e : Entry T}
    (he : (s'.registry d).get? key = some e) :
    (s.registry d).get? key = some e ∨ (e.pending = false ∧ s'.isTemporary e.handle = false) ∨
      ∃ l store, s.storeOf? d = some store ∧ s' = s.insertUnder d l store.nextKey ∧
        e = ⟨l, ⟨s.entities.size, ⟨T.entityName l, store.nextKey⟩, d⟩, true⟩ := by
  cases hstep with
  | openContext i hi => exact Or.inl (registry_of_openContext he)
  | closeContext d => exact Or.inl (registry_of_closeContext he)
  | @insert c store l hstore =>
    rcases entry_of_insertUnder hstore he with ⟨rfl, rfl⟩ | hbefore
    · exact Or.inr (Or.inr ⟨l, store, hstore, rfl, rfl⟩)
    · exact Or.inl hbefore
  | @load c l row v hrow hname hnew hdecode =>
    rcases storeOf?_of_row? hrow with ⟨store, hstore, _⟩
    rcases isOpen_of_storeOf? hstore with ⟨ctx, hctx, _⟩
    rcases entry_of_enroll hctx he with ⟨rfl, _, rfl⟩ | hbefore
    · have hentity : (s.enroll d l row.id v false).entity? s.entities.size =
          some (.new l v false) := entity?_enroll_new
      exact Or.inr (Or.inl ⟨rfl, by simp [isTemporary, hentity, Entity.new]⟩)
    · exact Or.inl hbefore
  | @save c changes hcollect =>
    by_cases hd : d = c
    · subst hd
      have hcurrent := current_commit hs hcollect
      have hmem := SortedMap.mem_values_iff.2 ⟨_, he⟩
      exact Or.inr (Or.inl ⟨hcurrent.committed e hmem, hcurrent.confirmed e hmem⟩)
    · exact Or.inl (by simpa [registry_commit_of_ne s hd] using he)
  | _ => exact Or.inl he

theorem unwritten_insertUnder (hs : Sound s) (hnumbered : Numbered s) {l : T.Kind}
    {store : Store} (hstore : s.storeOf? c = some store) (hkey : store.nextKey ≠ lastKey)
    (hi : s.storeIdOf? c = some i) : (s.insertUnder c l store.nextKey).Unwritten i
      (⟨s.entities.size, ⟨T.entityName l, store.nextKey⟩, c⟩ : Handle l) := by
  have hplace : s.store? i = some store := by simpa [storeOf?_eq, hi] using hstore
  have hnew : (s.insertUnder c l store.nextKey).store? i =
      some { store with nextKey := store.nextKey + 1 } := by
    simp [store?_insertUnder, hi, hplace]
  constructor
  case below => exact ⟨_, hnew, lt_add_one_of_ne_last hkey⟩
  case row =>
    intro store' hstore'
    cases hnew.symm.trans hstore'
    have hnone := (hnumbered.unused hs hstore).2 (T.entityName l)
    simpa [rowsOf_of_storeOf? hstore] using hnone
  case entry =>
    intro d key e hplace' he hid
    rcases entry_of_insertUnder hstore he with ⟨rfl, rfl⟩ | hbefore
    · exact ⟨rfl, rfl⟩
    · -- the id is new to every context of the store
      rw [storeIdOf?_insertUnder] at hplace'
      have hlt := hnumbered i store e.id hplace (Or.inr ⟨d, key, e, hplace', hbefore, rfl⟩)
      rw [hid] at hlt
      exact absurd hlt (UInt64.lt_irrefl _)

theorem Step.reserved (hstep : Step s deed s') (hnative : deed.Native) (hs : Sound s)
    (hnumbered : Numbered s) (hkeys : KeysLeft s') (hreserved : Reserved s) : Reserved s' := by
  constructor
  case pending =>
    intro d key e i he hi hpending
    rcases hstep.entry hs he with hbefore | ⟨hcommitted, _⟩ | ⟨l, store, hstore, rfl, rfl⟩
    · -- a context that has entries stays the context of its store
      have hplace : s.storeIdOf? d = some i := by
        rcases isOpen_of_registry hbefore with ⟨ctx, hctx, _⟩
        exact hstep.storeIdOf? (hs.opened hctx).1 hi
      have hunwritten := hreserved.pending d key e i hbefore hplace hpending
      rcases hstep.unwritten hnative hs hkeys hunwritten with hkept | ⟨d', rfl, hwrites⟩
      · exact hkept
      · rcases hwrites with ⟨e', hi', he', hid', _⟩
        -- the entry that was saved is this one, which is committed then
        have hslot := (hunwritten.entry d' _ e' hi' he' hid').1
        rcases hs.slots he' hbefore hslot with ⟨rfl, _⟩
        have hcommitted := (hstep.current hs).committed e (SortedMap.mem_values_iff.2 ⟨_, he⟩)
        cases hpending.symm.trans hcommitted
    · cases hpending.symm.trans hcommitted
    · rw [storeIdOf?_insertUnder] at hi
      exact unwritten_insertUnder hs hnumbered hstore (hkeys _ Array.mem_push_self) hi
  case temporary =>
    intro d key e he htemporary
    rcases hstep.entry hs he with hbefore | ⟨_, hconfirmed⟩ | ⟨l, store, _, _, rfl⟩
    · have hholds : s.Holds e.handle := (hs.lodged hbefore).entity
      exact hreserved.temporary d key e hbefore (hstep.temporary hholds htemporary)
    · cases htemporary.symm.trans hconfirmed
    · rfl

theorem Run.reserved (hrun : Run Deed.Native s s') (hs : Sound s) (hnumbered : Numbered s)
    (hreserved : Reserved s) (hkeys : KeysLeft s') : Reserved s' := by
  have hkept := hrun.induct
    (P := fun s => Sound s ∧ (KeysLeft s → Numbered s ∧ Reserved s)) ?_
    ⟨hs, fun _ => ⟨hnumbered, hreserved⟩⟩
  · exact (hkept.2 hkeys).2
  · intro a b deed hnative hstep ih
    refine ⟨hstep.sound ih.1, ?_⟩
    intro hleft
    rcases ih.2 (hstep.keysLeft hleft) with ⟨hnumbered, hreserved⟩
    exact ⟨hstep.numbered ih.1 hleft hnumbered,
      hstep.reserved hnative ih.1 hnumbered hleft hreserved⟩

/-- What is pending has no row. -/
theorem Reserved.row?_of_pending (hreserved : Reserved s) {key : UInt64} {e : Entry T}
    (he : (s.registry c).get? key = some e) (hpending : e.pending = true) :
    (s.rowsOf c).row? e.id = none := by
  cases hrow : (s.rowsOf c).row? e.id with
  | none => rfl
  | some row =>
    rcases storeOf?_of_row? hrow with ⟨store, hstore, hin⟩
    rcases isOpen_of_storeOf? hstore with ⟨ctx, hctx, hplace⟩
    have hi : s.storeIdOf? c = some ctx.store := by simp [storeIdOf?, hctx]
    have hunwritten := hreserved.pending _ _ _ _ he hi hpending
    cases (hunwritten.row store hplace).symm.trans hin

end Session

end Reconcile
