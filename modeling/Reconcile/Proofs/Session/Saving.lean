import Reconcile.Proofs.Data.Outcome
import Reconcile.Proofs.Session.State
import Reconcile.Proofs.Store.Commit
import Reconcile.Session.Save

/-!
# What a save collects and commits

`collect` goes through the registry once: a deleted entity asks for its row to be removed, unless it
never had one, and any other entity asks for its payload to be written.  `commit` hands both lists
to the rows of the store and settles the registry.  The entities in memory keep everything but
their temporary marks.
-/

namespace Reconcile

namespace Session

variable {T : Model} {s : Session T} {c d : ContextId}

/-! ## Collecting -/

/-- A save can write this entity, and this is the payload. -/
structure Savable (s : Session T) (e : Entry T) (payload : Json) : Prop where
  entity : ∃ m, s.entity? e.slot = some m ∧ m.filling = false ∧ m.guard = .free ∧
    T.encode m.state = .ok payload

theorem payload_eq_ok {k : T.Kind} {v : T.Value k} {j : Json} (h : Model.payload v = .ok j) :
    T.encode v = .ok j := by
  unfold Model.payload at h
  split at h
  · next heq =>
    cases h
    exact heq
  · cases h

theorem payload_of_encode {k : T.Kind} {v : T.Value k} {j : Json} (h : T.encode v = .ok j) :
    Model.payload v = .ok j := by
  rw [Model.payload, h]

theorem savable_of_collectWrite {e : Entry T} {write : EntityId × Json}
    (h : s.collectWrite c e = .ok write) :
    ∃ payload, write = (e.id, payload) ∧ s.Savable e payload := by
  unfold collectWrite at h
  split at h
  · cases h
  · next live hlive =>
    rcases Option.bind_eq_some_iff.1 hlive with ⟨m, hm, hmlive⟩
    unfold Entity.live? at hmlive
    split at hmlive
    · cases hmlive
    · next hshown =>
      rw [Bool.or_eq_true, not_or] at hshown
      have hguard : m.guard = .free := by
        cases hg : m.guard with
        | free => rfl
        | held touched => exact absurd (by rw [Entity.isHeld, hg]) hshown.2
      rcases Outcome.bind_eq_ok.1 h with ⟨payload, hpayload, hchecked⟩
      have hencode : T.encode m.state = .ok payload := by
        refine payload_eq_ok ?_
        rw [Option.some.inj hmlive, hpayload]
      have hwrite : write = (e.id, payload) := by
        split at hchecked
        · rcases Outcome.bind_eq_ok.1 hchecked with ⟨_, _, hdescribed⟩
          rcases Outcome.bind_eq_ok.1 hdescribed with ⟨_, _, hpure⟩
          exact (Except.ok.inj hpure).symm
        · exact (Except.ok.inj hchecked).symm
      exact ⟨payload, hwrite, ⟨m, hm, by simpa using hshown.1, hguard, hencode⟩⟩

theorem collect_cons_of_deleted {e : Entry T} {rest : List (Entry T)} {changes : Changes}
    (hdeleted : s.entryDeleted e = true) (h : s.collect c (e :: rest) = .ok changes) :
    ∃ tail, s.collect c rest = .ok tail ∧ changes.writes = tail.writes ∧
      changes.removals = (if e.pending then [] else [e.id]) ++ tail.removals := by
  unfold collect at h
  rw [if_pos hdeleted] at h
  rcases Outcome.bind_eq_ok.1 h with ⟨tail, htail, hpure⟩
  refine ⟨tail, htail, ?_⟩
  cases Except.ok.inj hpure
  cases e.pending <;> exact ⟨rfl, rfl⟩

theorem collect_cons_of_live {e : Entry T} {rest : List (Entry T)} {changes : Changes}
    (hlive : s.entryDeleted e = false) (h : s.collect c (e :: rest) = .ok changes) :
    ∃ tail payload, s.collect c rest = .ok tail ∧ s.Savable e payload ∧
      changes.removals = tail.removals ∧ changes.writes = (e.id, payload) :: tail.writes := by
  unfold collect at h
  rw [if_neg (by simp [hlive])] at h
  rcases Outcome.bind_eq_ok.1 h with ⟨write, hwrite, hrest⟩
  rcases Outcome.bind_eq_ok.1 hrest with ⟨tail, htail, hpure⟩
  rcases savable_of_collectWrite hwrite with ⟨payload, rfl, hsavable⟩
  cases Except.ok.inj hpure
  exact ⟨tail, payload, htail, hsavable, rfl, rfl⟩

variable {entries : List (Entry T)} {changes : Changes}

theorem removals_of_collect (h : s.collect c entries = .ok changes) : changes.removals =
    (entries.filter fun e => s.entryDeleted e && !e.pending).map Entry.id := by
  induction entries generalizing changes with
  | nil =>
    cases h
    rfl
  | cons e rest ih =>
    cases hdeleted : s.entryDeleted e with
    | false =>
      rcases collect_cons_of_live hdeleted h with ⟨tail, payload, htail, _, hremovals, _⟩
      rw [hremovals, ih htail, List.filter_cons_of_neg (by simp [hdeleted])]
    | true =>
      rcases collect_cons_of_deleted hdeleted h with ⟨tail, htail, _, hremovals⟩
      rw [hremovals, ih htail]
      cases hpending : e.pending with
      | true => simp [hpending]
      | false => simp [hdeleted, hpending]

theorem mem_removals_iff (h : s.collect c entries = .ok changes) {id : EntityId} :
    id ∈ changes.removals ↔
      ∃ e ∈ entries, s.entryDeleted e = true ∧ e.pending = false ∧ e.id = id := by
  rw [removals_of_collect h]
  simp [and_assoc]

theorem writtenIds_of_collect (h : s.collect c entries = .ok changes) :
    changes.writes.map (·.1) = (entries.filter fun e => !s.entryDeleted e).map Entry.id := by
  induction entries generalizing changes with
  | nil =>
    cases h
    rfl
  | cons e rest ih =>
    cases hdeleted : s.entryDeleted e with
    | false =>
      rcases collect_cons_of_live hdeleted h with ⟨tail, payload, htail, _, _, hwrites⟩
      rw [hwrites, List.map_cons, ih htail, List.filter_cons_of_pos (by simp [hdeleted])]
      rfl
    | true =>
      rcases collect_cons_of_deleted hdeleted h with ⟨tail, htail, hwrites, _⟩
      rw [hwrites, ih htail, List.filter_cons_of_neg (by simp [hdeleted])]

theorem exists_write_of_collect (h : s.collect c entries = .ok changes) {e : Entry T}
    (he : e ∈ entries) (hlive : s.entryDeleted e = false) :
    ∃ payload, (e.id, payload) ∈ changes.writes ∧ s.Savable e payload := by
  induction entries generalizing changes with
  | nil => cases he
  | cons first rest ih =>
    -- whatever is done for the first entry, the writes of the rest are among all of them
    have htail : ∃ tail, s.collect c rest = .ok tail ∧
        ∀ write ∈ tail.writes, write ∈ changes.writes := by
      cases hdeleted : s.entryDeleted first with
      | false =>
        rcases collect_cons_of_live hdeleted h with ⟨tail, payload, htail, _, _, hwrites⟩
        exact ⟨tail, htail, fun write hwrite => hwrites ▸ List.mem_cons_of_mem _ hwrite⟩
      | true =>
        rcases collect_cons_of_deleted hdeleted h with ⟨tail, htail, hwrites, _⟩
        exact ⟨tail, htail, fun write hwrite => hwrites ▸ hwrite⟩
    rcases List.mem_cons.1 he with rfl | hrest
    · rcases collect_cons_of_live hlive h with ⟨tail, payload, _, hsavable, _, hwrites⟩
      exact ⟨payload, hwrites ▸ List.mem_cons_self, hsavable⟩
    · rcases htail with ⟨tail, htail, hsub⟩
      rcases ih htail hrest with ⟨payload, hwrite, hsavable⟩
      exact ⟨payload, hsub _ hwrite, hsavable⟩

theorem savable_of_mem_writes (h : s.collect c entries = .ok changes) {write : EntityId × Json}
    (hwrite : write ∈ changes.writes) :
    ∃ e ∈ entries, write.1 = e.id ∧ s.entryDeleted e = false ∧ s.Savable e write.2 := by
  induction entries generalizing changes with
  | nil =>
    cases h
    cases hwrite
  | cons first rest ih =>
    have hrest : ∀ {tail}, s.collect c rest = .ok tail → write ∈ tail.writes →
        ∃ e ∈ first :: rest, write.1 = e.id ∧ s.entryDeleted e = false ∧ s.Savable e write.2 := by
      intro tail htail hmem
      rcases ih htail hmem with ⟨e, he, hrest⟩
      exact ⟨e, List.mem_cons_of_mem _ he, hrest⟩
    cases hdeleted : s.entryDeleted first with
    | true =>
      rcases collect_cons_of_deleted hdeleted h with ⟨tail, htail, hwrites, _⟩
      exact hrest htail (hwrites ▸ hwrite)
    | false =>
      rcases collect_cons_of_live hdeleted h with ⟨tail, payload, htail, hsavable, _, hwrites⟩
      rw [hwrites] at hwrite
      rcases List.mem_cons.1 hwrite with rfl | hmem
      · exact ⟨first, List.mem_cons_self, rfl, hdeleted, hsavable⟩
      · exact hrest htail hmem

/-! ## Settling -/

/-- A session that differs from another only in registries and in which ids are confirmed. -/
structure Settles (s s' : Session T) : Prop where
  stores : s'.stores = s.stores
  opened : s'.opened = s.opened
  journal : s'.journal = s.journal
  storeIdOf? : ∀ d, s'.storeIdOf? d = s.storeIdOf? d
  entity? : ∀ n, ∃ kept : Bool, s'.entity? n =
    (s.entity? n).map fun m => { m with temporary := m.temporary && kept }

theorem settles_confirm (s : Session T) (entries : List (Entry T)) :
    Settles s (entries.foldl (fun s e => s.markPermanent e.handle) s) ∧
      ∀ d, (entries.foldl (fun s e => s.markPermanent e.handle) s).context? d = s.context? d := by
  induction entries generalizing s with
  | nil =>
    refine ⟨⟨rfl, rfl, rfl, fun _ => rfl, ?_⟩, fun _ => rfl⟩
    intro n
    refine ⟨true, ?_⟩
    simp
  | cons e rest ih =>
    rcases ih (s.markPermanent e.handle) with ⟨h, hcontext⟩
    refine ⟨⟨h.stores, h.opened, h.journal, h.storeIdOf?, ?_⟩, hcontext⟩
    intro n
    rcases h.entity? n with ⟨kept, hkept⟩
    rw [List.foldl_cons, hkept, markPermanent, entity?_modifyEntity]
    split
    · refine ⟨false, ?_⟩
      cases s.entity? n <;> simp
    · exact ⟨kept, rfl⟩

theorem settles_settle (s : Session T) (c : ContextId) : Settles s (s.settle c) := by
  rcases settles_confirm s ((s.registry c).filter fun _ e => !s.entryDeleted e).values with ⟨h, _⟩
  refine ⟨?_, ?_, ?_, ?_, ?_⟩
  · rw [settle, stores_withRegistry, h.stores]
  · rw [settle, opened_withRegistry, h.opened]
  · rw [settle, journal_withRegistry, h.journal]
  · intro d
    rw [settle, storeIdOf?_withRegistry, h.storeIdOf?]
  · intro n
    rcases h.entity? n with ⟨kept, hkept⟩
    refine ⟨kept, ?_⟩
    rw [← hkept, settle, entity?, entities_withRegistry]
    rfl

theorem registry_settle_self (s : Session T) (c : ContextId) : (s.settle c).registry c =
    ((s.registry c).filter fun _ e => !s.entryDeleted e).map
      fun e => { e with pending := false } := by
  rcases settles_confirm s ((s.registry c).filter fun _ e => !s.entryDeleted e).values with
    ⟨_, hcontext⟩
  cases hctx : s.context? c with
  | some ctx => exact registry_withRegistry_self ((hcontext c).trans hctx) _
  | none =>
    have hregistry : s.registry c = .empty := by
      rw [registry, hctx]
    rw [registry, settle, context?_withRegistry, if_pos rfl, hcontext, hctx, hregistry]
    rfl

theorem registry_settle_of_ne (s : Session T) (h : d ≠ c) :
    (s.settle c).registry d = s.registry d := by
  rcases settles_confirm s ((s.registry c).filter fun _ e => !s.entryDeleted e).values with
    ⟨_, hcontext⟩
  rw [settle, registry_withRegistry_of_ne _ h]
  exact registry_congr (hcontext d)

/-! ## Committing -/

section Commit

/-- What a commit leaves of the rows of a store. -/
def Changes.committed (changes : Changes) (rows : Rows) : Rows :=
  (rows.commit changes.removals changes.writes).1

theorem settles_commit (s : Session T) (c : ContextId) (changes : Changes) :
    Settles (s.modifyStoreOf c fun store => { store with rows := changes.committed (s.rowsOf c) })
      (s.commit c changes).2 :=
  settles_settle _ c

theorem store?_commit (s : Session T) (c : ContextId) (changes : Changes) (i : StoreId) :
    (s.commit c changes).2.store? i =
      if s.storeIdOf? c = some i then
        (s.store? i).map fun store => { store with rows := changes.committed store.rows }
      else s.store? i := by
  rw [store?, (settles_commit s c changes).stores]
  refine store?_modifyStoreOf.trans ?_
  split
  · next hi =>
    cases hstore : s.store? i with
    | none => rfl
    | some store =>
      have hrows : s.rowsOf c = store.rows := by
        refine rowsOf_of_storeOf? ?_
        rw [storeOf?_eq, hi]
        exact hstore
      rw [Option.map_some, Option.map_some, hrows]
  · rfl

theorem storeIdOf?_commit (s : Session T) (c : ContextId) (changes : Changes) (d : ContextId) :
    (s.commit c changes).2.storeIdOf? d = s.storeIdOf? d := by
  rw [(settles_commit s c changes).storeIdOf?, storeIdOf?_modifyStoreOf]

theorem storeOf?_commit_self (s : Session T) (c : ContextId) (changes : Changes) :
    (s.commit c changes).2.storeOf? c = (s.storeOf? c).map fun store =>
      { store with rows := changes.committed store.rows } := by
  rw [storeOf?_eq, storeOf?_eq, storeIdOf?_commit]
  cases hi : s.storeIdOf? c with
  | none => rfl
  | some i => rw [Option.bind_some, Option.bind_some, store?_commit, if_pos hi]

theorem rowsOf_commit_self {store : Store} (h : s.storeOf? c = some store) (changes : Changes) :
    (s.commit c changes).2.rowsOf c = changes.committed (s.rowsOf c) := by
  have hstore : (s.commit c changes).2.storeOf? c =
      some { store with rows := changes.committed store.rows } := by
    rw [storeOf?_commit_self, h]
    rfl
  rw [rowsOf_of_storeOf? h, rowsOf_of_storeOf? hstore]

theorem rowsOf_commit_of_none (h : s.storeOf? c = none) (changes : Changes) :
    (s.commit c changes).2.rowsOf c = s.rowsOf c := by
  rw [rowsOf, rowsOf, storeOf?_commit_self, h]
  rfl

theorem entity?_commit (s : Session T) (c : ContextId) (changes : Changes) (n : Nat) :
    ∃ kept : Bool, (s.commit c changes).2.entity? n =
      (s.entity? n).map fun m => { m with temporary := m.temporary && kept } := by
  rcases (settles_commit s c changes).entity? n with ⟨kept, hkept⟩
  rw [entity?_modifyStoreOf] at hkept
  exact ⟨kept, hkept⟩

theorem entryDeleted_modifyStoreOf {f : Store → Store} :
    (s.modifyStoreOf c f).entryDeleted = s.entryDeleted := by
  funext e
  simp only [entryDeleted, isDeleted, entity?_modifyStoreOf]

theorem registry_commit_self (s : Session T) (c : ContextId) (changes : Changes) :
    (s.commit c changes).2.registry c =
      ((s.registry c).filter fun _ e => !s.entryDeleted e).map
        fun e => { e with pending := false } := by
  rw [commit, registry_settle_self, entryDeleted_modifyStoreOf, registry_modifyStoreOf]

theorem registry_commit_of_ne (s : Session T) (h : d ≠ c) (changes : Changes) :
    (s.commit c changes).2.registry d = s.registry d := by
  rw [commit, registry_settle_of_ne _ h, registry_modifyStoreOf]

end Commit

end Session

end Reconcile
