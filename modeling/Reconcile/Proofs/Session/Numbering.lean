import Reconcile.Proofs.Session.Committing

/-!
# Keys are handed out once

A store hands out keys in increasing order until the last key of a word is spent (`KeysLeft`).  Up
to then every id that a store or one of its contexts knows lies below the next key (`Numbered`), and
without imports two ids that are known to one store never share a key (`Unambiguous`).
-/

namespace Reconcile

/-- The last key.  After it, keys start over. -/
def lastKey : UInt64 := 18446744073709551615

/-- The event is not the insertion of the last key. -/
def Event.KeyLeft : Event → Prop
  | .inserted id _ => id.key ≠ lastKey
  | _ => True

instance : DecidablePred Event.KeyLeft := fun event => by
  cases event <;> unfold Event.KeyLeft <;> infer_instance

theorem lt_add_one_of_ne_last {key : UInt64} (h : key ≠ lastKey) : key < key + 1 := by
  have hne : key.toNat ≠ lastKey.toNat := fun heq => h (UInt64.toNat_inj.1 heq)
  have hlt : key.toNat < 18446744073709551616 := key.toNat_lt
  have hlast : lastKey.toNat = 18446744073709551615 := rfl
  rw [UInt64.lt_iff_toNat_lt, UInt64.toNat_add, UInt64.toNat_one]
  omega

theorem le_max_key (a b : UInt64) : a ≤ max a b ∧ b ≤ max a b := by
  have hmax : max a b = if a ≤ b then b else a := rfl
  rw [hmax]
  split
  · next h => exact ⟨h, UInt64.le_refl b⟩
  · next h => exact ⟨UInt64.le_refl a, UInt64.le_of_lt (UInt64.not_le.1 h)⟩

namespace Session

variable {T : Model} {s s' : Session T} {deed : Deed} {i : StoreId} {id : EntityId}

/-- No insertion took the last key. -/
def KeysLeft (s : Session T) : Prop := ∀ event ∈ s.journal, event.KeyLeft

instance (s : Session T) : Decidable s.KeysLeft :=
  inferInstanceAs (Decidable (∀ event ∈ s.journal, event.KeyLeft))

/-- A store has a row of this id, or a context of the store has an entity of it. -/
def InUse (s : Session T) (i : StoreId) (id : EntityId) : Prop :=
  (∃ store, s.store? i = some store ∧ (store.rows.row? id).isSome) ∨
    ∃ c key e, s.storeIdOf? c = some i ∧ (s.registry c).get? key = some e ∧ e.id = id

/-- Every id in use lies below the next key. -/
def Numbered (s : Session T) : Prop :=
  ∀ i store id, s.store? i = some store → s.InUse i id → id.key < store.nextKey

/-- A key in use belongs to one id. -/
def Unambiguous (s : Session T) : Prop :=
  ∀ i id id', s.InUse i id → s.InUse i id' → id.key = id'.key → id = id'

/-! ## Events stay -/

theorem Step.journal (h : Step s deed s') {event : Event} (hevent : event ∈ s.journal) :
    event ∈ s'.journal := by
  cases h with
  | report => exact Array.mem_push.2 (Or.inl hevent)
  | insert =>
    refine Array.mem_push.2 (Or.inl ?_)
    rw [journal_enroll, journal_modifyStoreOf]
    exact hevent
  | load =>
    rw [journal_enroll]
    exact hevent
  | save =>
    rw [(settles_commit _ _ _).journal, journal_modifyStoreOf]
    exact hevent
  | _ => exact hevent

theorem Step.keysLeft (h : Step s deed s') (hkeys : KeysLeft s') : KeysLeft s :=
  fun event hevent => hkeys event (h.journal hevent)

theorem Run.keysLeft {allow : Deed → Prop} (h : Run allow s s') (hkeys : KeysLeft s') :
    KeysLeft s :=
  h.induct (P := fun s' => KeysLeft s' → KeysLeft s)
    (fun _ hstep ih hleft => ih (hstep.keysLeft hleft)) id hkeys

theorem KeysLeft.report (hkeys : s.KeysLeft) {event : Event} (hevent : event.KeyLeft) :
    (s.report event).KeysLeft := by
  intro other hother
  rcases Array.mem_push.1 hother with hold | rfl
  · exact hkeys other hold
  · exact hevent

/-! ## Ids in use -/

theorem InUse.isSome (h : s.InUse i id) (hs : Sound s) : ∃ store, s.store? i = some store := by
  rcases h with ⟨store, hstore, _⟩ | ⟨c, key, e, hi, _⟩
  · exact ⟨store, hstore⟩
  · rcases isOpen_of_storeIdOf? hi with ⟨r, hctx⟩
    exact Option.isSome_iff_exists.1 (hs.opened hctx).2

/-- Ids are in use after a change that adds no entries and no rows only if they were before. -/
theorem InUse.of_frame (h : s'.InUse i id)
    (hrows : ∀ store, s'.store? i = some store → (store.rows.row? id).isSome → s.InUse i id)
    (hentries : ∀ c key e, s'.storeIdOf? c = some i → (s'.registry c).get? key = some e →
      e.id = id → s.InUse i id) : s.InUse i id := by
  rcases h with ⟨store, hstore, hrow⟩ | ⟨c, key, e, hi, he, hid⟩
  · exact hrows store hstore hrow
  · exact hentries c key e hi he hid

theorem inUse_commit {c : ContextId} {changes : Changes} (hs : Sound s)
    (hcollect : s.collect c (s.registry c).values = .ok changes)
    (h : (s.commit c changes).2.InUse i id) : s.InUse i id := by
  refine h.of_frame ?_ ?_
  · intro store' hstore' hrow
    rw [store?_commit] at hstore'
    split at hstore'
    · next hi =>
      rcases Option.map_eq_some_iff.1 hstore' with ⟨store, hstore, rfl⟩
      have hof : s.storeOf? c = some store := by
        rw [storeOf?_eq, hi]
        exact hstore
      -- a row is either one of the registry, whose id was in use by its entry, or was there before
      by_cases hentry : ∃ e, (s.registry c).get? id.key = some e ∧ e.id = id
      · rcases hentry with ⟨e, he, hid⟩
        exact Or.inr ⟨c, id.key, e, hi, he, hid⟩
      · have hkept := row?_commit_of_unregistered hs hcollect
          fun e he hid => hentry ⟨e, he, hid⟩
        rw [rowsOf_commit_self hof, rowsOf_of_storeOf? hof] at hkept
        exact Or.inl ⟨store, hstore, hkept ▸ hrow⟩
    · exact Or.inl ⟨store', hstore', hrow⟩
  · intro d key e hi he hid
    rw [storeIdOf?_commit] at hi
    rcases entry_of_commit he with ⟨pending, hold⟩
    exact Or.inr ⟨d, key, _, hi, hold, hid⟩

theorem inUse_enroll {c : ContextId} {ctx : Context T} (hctx : s.context? c = some ctx)
    {k : T.Kind} {newId : EntityId} {v : T.Value k} {pending : Bool}
    (h : (s.enroll c k newId v pending).InUse i id) :
    s.InUse i id ∨ (s.storeIdOf? c = some i ∧ id = newId) := by
  rcases h with ⟨store, hstore, hrow⟩ | ⟨d, key, e, hi, he, hid⟩
  · rw [store?, stores_enroll] at hstore
    exact Or.inl (Or.inl ⟨store, hstore, hrow⟩)
  · rw [storeIdOf?_enroll] at hi
    rcases entry_of_enroll hctx he with ⟨rfl, rfl, rfl⟩ | hold
    · exact Or.inr ⟨hi, hid.symm⟩
    · exact Or.inl (Or.inr ⟨d, key, e, hi, hold, hid⟩)

/-- Opening contexts, whose registries are empty, and closing some brings no id into use. -/
theorem InUse.of_contexts (h : s'.InUse i id) (hstore : s'.store? i = s.store? i)
    (hcontext : ∀ c ctx, s'.context? c = some ctx →
      ctx.registry = .empty ∨ s.context? c = some ctx) : s.InUse i id := by
  refine h.of_frame (fun store hnew hrow => Or.inl ⟨store, hstore.symm.trans hnew, hrow⟩) ?_
  intro c key e hi he hid
  rcases isOpen_of_registry he with ⟨ctx, hctx, hentry⟩
  rcases hcontext c ctx hctx with hempty | hold
  · rw [hempty] at hentry
    cases hentry
  · have hsame : s'.context? c = s.context? c := hctx.trans hold.symm
    refine Or.inr ⟨c, key, e, ?_, registry_congr hsame ▸ he, hid⟩
    rw [storeIdOf?, ← hsame]
    exact hi

theorem inUse_insertUnder {c : ContextId} {store : Store} {k : T.Kind}
    (hstore : s.storeOf? c = some store)
    (h : (s.insertUnder c k store.nextKey).InUse i id) :
    s.InUse i id ∨ (s.storeIdOf? c = some i ∧ id = ⟨T.entityName k, store.nextKey⟩) := by
  rcases isOpen_of_storeOf? hstore with ⟨ctx, hctx, _⟩
  rcases inUse_enroll (context?_modifyStoreOf.trans hctx) h with hold | ⟨hi, rfl⟩
  · refine Or.inl (hold.of_frame ?_ ?_)
    · intro store' hstore' hrow
      rw [store?_modifyStoreOf] at hstore'
      split at hstore'
      · rcases Option.map_eq_some_iff.1 hstore' with ⟨old, hget, rfl⟩
        exact Or.inl ⟨old, hget, hrow⟩
      · exact Or.inl ⟨store', hstore', hrow⟩
    · intro d key e hi he hid
      rw [storeIdOf?_modifyStoreOf] at hi
      rw [registry_modifyStoreOf] at he
      exact Or.inr ⟨d, key, e, hi, he, hid⟩
  · rw [storeIdOf?_modifyStoreOf] at hi
    exact Or.inr ⟨hi, rfl⟩

/-- What an import brings into use lies below the next key that comes with it. -/
theorem inUse_import {j : StoreId} {store store' : Store} {snapshot : Snapshot}
    (hrestore : store.restore snapshot = .ok store')
    (h : (s.modifyStore j fun _ => store').InUse i id) :
    s.InUse i id ∨ ∃ new, (s.modifyStore j fun _ => store').store? i = some new ∧
      id.key < new.nextKey := by
  rcases h with ⟨new, hnew, hrow⟩ | ⟨c, key, e, hi, he, hid⟩
  · have hafter := hnew
    rw [store?_modifyStore] at hnew
    split at hnew
    · rcases Option.map_eq_some_iff.1 hnew with ⟨_, _, rfl⟩
      rcases Store.restore_ok hrestore with ⟨hcheck, rfl⟩
      rcases Option.isSome_iff_exists.1 hrow with ⟨row, hrow⟩
      refine Or.inr ⟨_, hafter, ?_⟩
      exact UInt64.lt_of_lt_of_le (Snapshot.row?_of_check hcheck hrow).2.1 (le_max_key _ _).2
    · exact Or.inl (Or.inl ⟨new, hnew, hrow⟩)
  · exact Or.inl (Or.inr ⟨c, key, e, hi, he, hid⟩)

/-- An id comes into use by an insertion, which gives it the next key, or by an import. -/
theorem Step.inUse (h : Step s deed s') (hs : Sound s) (huse : s'.InUse i id) :
    s.InUse i id ∨
      (∃ store c, s.store? i = some store ∧ id.key = store.nextKey ∧
        s'.store? i = some { store with nextKey := store.nextKey + 1 } ∧
        s'.journal.back? = some (.inserted id c)) ∨
      (¬ deed.Native ∧ ∃ store', s'.store? i = some store' ∧ id.key < store'.nextKey) := by
  -- what a load brings into a registry was in use as a row
  cases h with
  | report event => exact Or.inl huse
  | note remark => exact Or.inl huse
  | openStore schema settings =>
    refine Or.inl (huse.of_frame ?_ fun c key e hi he hid => Or.inr ⟨c, key, e, hi, he, hid⟩)
    intro store hstore hrow
    rcases store?_openStore hstore with hold | rfl
    · exact Or.inl ⟨store, hold, hrow⟩
    · cases hrow
  | openContext j hj =>
    refine Or.inl (huse.of_contexts rfl ?_)
    intro c ctx hctx
    rcases context?_of_openContext hctx with ⟨_, rfl⟩ | hold
    · exact Or.inl rfl
    · exact Or.inr hold
  | closeContext d =>
    exact Or.inl (huse.of_contexts rfl fun c ctx hctx => Or.inr (context?_of_closeContext hctx))
  | regard hm hregarded => exact Or.inl huse
  | confirm slot => exact Or.inl huse
  | edit hm hedited => exact Or.inl huse
  | delete slot => exact Or.inl huse
  | @insert c store k hstore =>
    rcases inUse_insertUnder hstore huse with hold | ⟨hi, rfl⟩
    · exact Or.inl hold
    · have hget : s.store? i = some store := by
        rw [storeOf?_eq, hi] at hstore
        exact hstore
      refine Or.inr (Or.inl ⟨store, c, hget, rfl, ?_, Array.back?_push⟩)
      rw [store?_insertUnder, if_pos hi, hget]
      rfl
  | @load c k row v hrow hname hnew hdecode =>
    rcases storeOf?_of_row? hrow with ⟨store, hstore, hget⟩
    rcases isOpen_of_storeOf? hstore with ⟨ctx, hctx, hctxstore⟩
    rcases inUse_enroll hctx huse with hold | ⟨hi, rfl⟩
    · exact Or.inl hold
    · refine Or.inl (Or.inl ⟨store, ?_, by rw [hget]; rfl⟩)
      rw [storeOf?_eq, hi] at hstore
      exact hstore
  | save hcollect => exact Or.inl (inUse_commit hs hcollect huse)
  | restore hstore hrestore =>
    rcases inUse_import hrestore huse with hold | ⟨new, hnew, hlt⟩
    · exact Or.inl hold
    · exact Or.inr (Or.inr ⟨fun hnative => hnative, new, hnew, hlt⟩)

/-! ## The next key -/

/-- While keys are left, a store stays and its next key does not decrease. -/
theorem Step.nextKey_le (h : Step s deed s') (hkeys : KeysLeft s') {store : Store}
    (hstore : s.store? i = some store) :
    ∃ store', s'.store? i = some store' ∧ store.nextKey ≤ store'.nextKey := by
  rcases h.storeFate hstore with ⟨store', hstore', hfate⟩
  refine ⟨store', hstore', ?_⟩
  cases hfate with
  | kept => exact UInt64.le_refl _
  | numbered hinserted =>
    subst hinserted
    have hleft : store.nextKey ≠ lastKey := hkeys _ Array.mem_push_self
    exact UInt64.le_of_lt (lt_add_one_of_ne_last hleft)
  | committed => exact UInt64.le_refl _
  | imported hrestore =>
    -- an import keeps the larger one of the two keys
    rcases Store.restore_ok hrestore with ⟨_, rfl⟩
    exact (le_max_key _ _).1

theorem Step.numbered (h : Step s deed s') (hs : Sound s) (hkeys : KeysLeft s')
    (hnumbered : Numbered s) : Numbered s' := by
  intro i store' id hstore' huse
  rcases h.inUse hs huse with hold | ⟨store, c, hstore, hkey, hnew, hevent⟩ | ⟨_, new, hnew, hlt⟩
  · rcases hold.isSome hs with ⟨store, hstore⟩
    rcases h.nextKey_le hkeys hstore with ⟨new, hnew, hle⟩
    cases Option.some.inj (hstore'.symm.trans hnew)
    exact UInt64.lt_of_lt_of_le (hnumbered _ _ _ hstore hold) hle
  · cases Option.some.inj (hstore'.symm.trans hnew)
    rw [hkey]
    exact lt_add_one_of_ne_last (hkey ▸ hkeys _ (Array.mem_of_back? hevent))
  · cases Option.some.inj (hstore'.symm.trans hnew)
    exact hlt

theorem Step.unambiguous (h : Step s deed s') (hs : Sound s) (hnative : deed.Native)
    (hnumbered : Numbered s) (hunambiguous : Unambiguous s) : Unambiguous s' := by
  -- the key of an id that was in use before is not the key of a new one
  have hnew : ∀ {i} {id id' : EntityId}, s.InUse i id → ∀ store, s.store? i = some store →
      id'.key = store.nextKey → id.key ≠ id'.key := by
    intro i id id' huse store hstore hkey heq
    have hlt := hnumbered _ _ _ hstore huse
    rw [heq, hkey] at hlt
    exact UInt64.lt_irrefl _ hlt
  intro i id id' huse huse' hkey
  rcases h.inUse hs huse with hold | ⟨store, c, hstore, hnext, hstep, hevent⟩ | ⟨himport, _⟩
  · rcases h.inUse hs huse' with hold' | ⟨store, c, hstore, hnext, _⟩ | ⟨himport, _⟩
    · exact hunambiguous _ _ _ hold hold' hkey
    · exact absurd hkey (hnew hold store hstore hnext)
    · exact absurd hnative himport
  · rcases h.inUse hs huse' with hold' | ⟨store', c', hstore', hnext', hstep', hevent'⟩ |
      ⟨himport, _⟩
    · exact absurd hkey.symm (hnew hold' store hstore hnext)
    · exact (Event.inserted.inj (Option.some.inj (hevent.symm.trans hevent'))).1
    · exact absurd hnative himport
  · exact absurd hnative himport

/-! ## Entries under the keys of rows -/

section Entries

variable {c : ContextId} {row : Row} {e : Entry T}

/-- With unique keys, what is registered under the key of a row is the entity of the row. -/
theorem Unambiguous.id_eq (h : Unambiguous s) (hs : Sound s)
    (hrow : (s.rowsOf c).row? id = some row) (he : (s.registry c).get? id.key = some e) :
    e.id = id := by
  rcases storeOf?_of_row? hrow with ⟨store, hstore, hget⟩
  rcases isOpen_of_storeOf? hstore with ⟨ctx, hctx, hi⟩
  have hplace : s.storeIdOf? c = some ctx.store := by simp [storeIdOf?, hctx]
  have huse : s.InUse ctx.store e.id := Or.inr ⟨c, id.key, e, hplace, he, rfl⟩
  have huse' : s.InUse ctx.store id := Or.inl ⟨store, hi, by simp [hget]⟩
  exact h _ _ _ huse huse' (hs.lodged he).key

/-- A row that was not read has its key to itself. -/
theorem Unambiguous.unregistered (h : Unambiguous s) (hs : Sound s)
    (hrow : (s.rowsOf c).row? id = some row)
    (hunread : ∀ e, (s.registry c).get? id.key = some e → e.id ≠ id) :
    (s.registry c).get? id.key = none := by
  cases he : (s.registry c).get? id.key with
  | none => rfl
  | some e => exact absurd (h.id_eq hs hrow he) (hunread e he)

/-- An id whose key another entity has is the id of no row. -/
theorem Unambiguous.row?_of_taken (h : Unambiguous s) (hs : Sound s)
    (he : (s.registry c).get? id.key = some e) (hid : e.id ≠ id) :
    (s.rowsOf c).row? id = none := by
  cases hrow : (s.rowsOf c).row? id with
  | none => rfl
  | some row => exact absurd (h.id_eq hs hrow he) hid

end Entries

/-! ## Whole runs -/

variable {allow : Deed → Prop}

theorem Run.numbered (h : Run allow s s') (hs : Sound s) (hnumbered : Numbered s)
    (hkeys : KeysLeft s') : Numbered s' := by
  have hrun := h.induct (P := fun s => Sound s ∧ (KeysLeft s → Numbered s)) ?_
    ⟨hs, fun _ => hnumbered⟩
  · exact hrun.2 hkeys
  · intro a b deed _ hstep ih
    refine ⟨hstep.sound ih.1, ?_⟩
    intro hleft
    exact hstep.numbered ih.1 hleft (ih.2 (hstep.keysLeft hleft))

theorem numbered_empty : Numbered (.empty : Session T) := by
  intro i store id hstore
  cases hstore

theorem unambiguous_empty : Unambiguous (.empty : Session T) := by
  intro i id id' huse
  rcases huse with ⟨store, hstore, _⟩ | ⟨c, key, e, hi, _⟩
  · cases hstore
  · cases hi

/-- Ids are numbered, and a key in use belongs to one of them. -/
structure Ordered (s : Session T) : Prop where
  sound : Sound s
  numbered : Numbered s
  unambiguous : Unambiguous s

theorem ordered_empty : Ordered (.empty : Session T) :=
  ⟨sound_empty, numbered_empty, unambiguous_empty⟩

/-- Without imports ids stay in order, as long as keys are left. -/
theorem Run.ordered (h : Run Deed.Native s s') (hs : Ordered s) (hkeys : KeysLeft s') :
    Ordered s' := by
  have hrun := h.induct (P := fun s => Sound s ∧ (KeysLeft s → Numbered s ∧ Unambiguous s)) ?_
    ⟨hs.sound, fun _ => ⟨hs.numbered, hs.unambiguous⟩⟩
  · rcases hrun.2 hkeys with ⟨hnumbered, hunambiguous⟩
    exact ⟨hrun.1, hnumbered, hunambiguous⟩
  · intro a b deed hnative hstep ih
    refine ⟨hstep.sound ih.1, ?_⟩
    intro hleft
    rcases ih.2 (hstep.keysLeft hleft) with ⟨hnumbered, hunambiguous⟩
    exact ⟨hstep.numbered ih.1 hleft hnumbered,
      hstep.unambiguous ih.1 hnative hnumbered hunambiguous⟩

theorem Run.unambiguous (h : Run Deed.Native .empty s) (hkeys : KeysLeft s) : Unambiguous s :=
  (h.ordered ordered_empty hkeys).unambiguous

end Session

end Reconcile
