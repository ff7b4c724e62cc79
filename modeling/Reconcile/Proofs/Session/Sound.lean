import Reconcile.Proofs.Session.Fates
import Reconcile.Proofs.Store.Snapshot

/-!
# What holds of every session

However the steps of a session are interleaved, registries, memory and rows fit together:

* an entry stands in the registry of its own context under its own key, and its slot holds an
  entity of its type;
* no two entries share a slot, so what is done to an entity of one context is not done to an entity
  of another;
* rows are filed under their ids, and contexts are open on stores that exist.
-/

namespace Reconcile

namespace Session

variable {T : Model} {s s' : Session T} {c d : ContextId}

/-- An entry that stands under this key of this context, and has its entity in memory. -/
structure Lodged (s : Session T) (c : ContextId) (key : UInt64) (e : Entry T) : Prop where
  key : e.id.key = key
  context : e.handle.context = c
  name : e.id.entity = T.entityName e.kind
  entity : ∃ m, s.entity? e.slot = some m ∧ m.kind = e.kind

structure Sound (s : Session T) : Prop where
  settled : ∀ {n m}, s.entity? n = some m → m.Settled
  lodged : ∀ {c key e}, (s.registry c).get? key = some e → s.Lodged c key e
  slots : ∀ {c d key key' e e'}, (s.registry c).get? key = some e →
    (s.registry d).get? key' = some e' → e.slot = e'.slot → c = d ∧ key = key'
  filed : ∀ {i store}, s.store? i = some store → store.rows.Filed
  opened : ∀ {c ctx}, s.context? c = some ctx →
    c.number ≤ s.opened ∧ (s.store? ctx.store).isSome

theorem sound_empty : Sound (.empty : Session T) where
  settled h := by cases h
  lodged h := by cases h
  slots h := by cases h
  filed h := by cases h
  opened h := by cases h

theorem Sound.filed_rowsOf (h : Sound s) (c : ContextId) : (s.rowsOf c).Filed := by
  intro id row hrow
  rcases storeOf?_of_row? hrow with ⟨store, hstore, hget⟩
  rcases isOpen_of_storeOf? hstore with ⟨ctx, _, hi⟩
  exact h.filed hi id row hget

/-! ## Changes of entities -/

theorem Lodged.of_entities {key : UInt64} {e : Entry T} (h : s.Lodged c key e)
    (hentities : ∀ n m, s.entity? n = some m → ∃ m', s'.entity? n = some m' ∧ m'.kind = m.kind) :
    s'.Lodged c key e := by
  rcases h.entity with ⟨m, hm, hkind⟩
  rcases hentities _ m hm with ⟨m', hm', hkind'⟩
  exact ⟨h.key, h.context, h.name, m', hm', hkind'.trans hkind⟩

/-- A change that leaves stores and contexts alone and keeps the type of every entity. -/
theorem Sound.of_entities (h : Sound s) (hstores : s'.stores = s.stores)
    (hcontexts : s'.contexts = s.contexts) (hopened : s'.opened = s.opened)
    (hentities : ∀ n m, s.entity? n = some m → ∃ m', s'.entity? n = some m' ∧ m'.kind = m.kind)
    (hsettled : ∀ n m, s'.entity? n = some m → m.Settled) : Sound s' := by
  have hcontext : ∀ d, s'.context? d = s.context? d := fun d => by
    rw [context?, hcontexts, context?]
  have hregistry : ∀ d, s'.registry d = s.registry d := fun d => registry_congr (hcontext d)
  have hstore : ∀ i, s'.store? i = s.store? i := fun i => by rw [store?, hstores, store?]
  constructor
  case settled =>
    intro n m hm
    exact hsettled n m hm
  case lodged =>
    intro c key e he
    rw [hregistry] at he
    exact (h.lodged he).of_entities hentities
  case slots =>
    intro c d key key' e e' he he'
    rw [hregistry] at he he'
    exact h.slots he he'
  case filed =>
    intro i store hs
    rw [hstore] at hs
    exact h.filed hs
  case opened =>
    intro c ctx hctx
    rw [hcontext] at hctx
    rw [hopened, hstore]
    exact h.opened hctx

theorem Sound.modifyEntity (h : Sound s) {slot : Nat} {f : Entity T → Entity T}
    (hkind : ∀ m, s.entity? slot = some m → (f m).kind = m.kind)
    (hsettled : ∀ m, s.entity? slot = some m → m.Settled → (f m).Settled) :
    Sound (s.modifyEntity slot f) := by
  refine h.of_entities rfl rfl rfl ?_ ?_
  · intro n m hm
    exact exists_modifyEntity hm rfl fun hslot => hkind m (hslot ▸ hm)
  · intro n m' hm'
    rcases entity?_of_modifyEntity hm' with ⟨m, rfl, hm, rfl⟩ | ⟨_, hm⟩
    · exact hsettled m hm (h.settled hm)
    · exact h.settled hm

theorem Sound.replaceEntity (h : Sound s) {slot : Nat} {m m' : Entity T}
    (hm : s.entity? slot = some m) (hedited : m.Edited m') :
    Sound (s.modifyEntity slot fun _ => m') := by
  refine h.modifyEntity ?_ ?_
  · intro e he
    rw [hm] at he
    exact Option.some.inj he ▸ hedited.kind
  · intro e he hsettled
    rw [hm] at he
    cases Option.some.inj he
    exact hedited.settled hsettled

/-! ## Changes of stores -/

/-- A change of stores that keeps every store and files rows under their ids. -/
theorem Sound.of_stores (h : Sound s) (hentities : s'.entities = s.entities)
    (hcontext : ∀ d, s'.context? d = s.context? d) (hopened : s'.opened = s.opened)
    (hstore : ∀ i, (s.store? i).isSome → (s'.store? i).isSome)
    (hfiled : ∀ {i store}, s'.store? i = some store → store.rows.Filed) : Sound s' := by
  have hregistry : ∀ d, s'.registry d = s.registry d := fun d => registry_congr (hcontext d)
  have hentity : ∀ n, s'.entity? n = s.entity? n := fun n => by
    rw [entity?, hentities, entity?]
  constructor
  case settled =>
    intro n m hm
    rw [hentity] at hm
    exact h.settled hm
  case lodged =>
    intro c key e he
    rw [hregistry] at he
    refine (h.lodged he).of_entities ?_
    intro n m hm
    exact ⟨m, (hentity n).trans hm, rfl⟩
  case slots =>
    intro c d key key' e e' he he'
    rw [hregistry] at he he'
    exact h.slots he he'
  case filed => exact hfiled
  case opened =>
    intro c ctx hctx
    rw [hcontext] at hctx
    rw [hopened]
    exact ⟨(h.opened hctx).1, hstore _ (h.opened hctx).2⟩

theorem Sound.modifyStoreOf (h : Sound s) {f : Store → Store}
    (hrows : ∀ store, s.storeOf? c = some store → store.rows.Filed → (f store).rows.Filed) :
    Sound (s.modifyStoreOf c f) := by
  refine h.of_stores entities_modifyStoreOf (fun _ => context?_modifyStoreOf)
    opened_modifyStoreOf ?_ ?_
  · intro i hi
    rw [store?_modifyStoreOf]
    split
    · simpa using hi
    · exact hi
  · intro i store hstore
    rw [store?_modifyStoreOf] at hstore
    split at hstore
    · next hof =>
      rcases Option.map_eq_some_iff.1 hstore with ⟨old, hold, rfl⟩
      refine hrows old ?_ (h.filed hold)
      rw [storeOf?_eq, hof]
      exact hold
    · exact h.filed hstore

/-! ## Enrolling -/

theorem Sound.enroll (h : Sound s) {ctx : Context T} (hctx : s.context? c = some ctx)
    {k : T.Kind} {id : EntityId} (hname : id.entity = T.entityName k) {v : T.Value k}
    {pending : Bool} : Sound (s.enroll c k id v pending) := by
  -- the new slot is beyond all slots that are in use
  have hlt : ∀ {d key e}, (s.registry d).get? key = some e → e.slot < s.entities.size := by
    intro d key e he
    rcases (h.lodged he).entity with ⟨m, hm, _⟩
    exact lt_size_of_entity? hm
  constructor
  case settled =>
    intro n m hm
    by_cases hn : n < s.entities.size
    · rw [entity?_enroll_of_lt hn] at hm
      exact h.settled hm
    · have hsize : n < s.entities.size + 1 := by
        have hin := lt_size_of_entity? hm
        rwa [size_enroll] at hin
      have hnew : n = s.entities.size := Nat.le_antisymm (Nat.lt_succ_iff.1 hsize) (Nat.not_lt.1 hn)
      rw [hnew, entity?_enroll_new] at hm
      cases Option.some.inj hm
      exact Entity.settled_new k v pending
  case lodged =>
    intro d key e he
    rcases entry_of_enroll hctx he with ⟨rfl, rfl, rfl⟩ | hold
    · exact ⟨rfl, rfl, hname, _, entity?_enroll_new, rfl⟩
    · refine (h.lodged hold).of_entities ?_
      intro n m hm
      exact ⟨m, entity?_enroll hm, rfl⟩
  case slots =>
    intro d d' key key' e e' he he' hslot
    rcases entry_of_enroll hctx he with ⟨rfl, rfl, rfl⟩ | hold
    · rcases entry_of_enroll hctx he' with ⟨rfl, rfl, rfl⟩ | hold'
      · exact ⟨rfl, rfl⟩
      · exact absurd (hlt hold') (Nat.not_lt.2 (Nat.le_of_eq hslot))
    · rcases entry_of_enroll hctx he' with ⟨rfl, rfl, rfl⟩ | hold'
      · exact absurd (hlt hold) (Nat.not_lt.2 (Nat.le_of_eq hslot.symm))
      · exact h.slots hold hold' hslot
  case filed =>
    intro i store hstore
    rw [store?, stores_enroll] at hstore
    exact h.filed hstore
  case opened =>
    intro d ctx' hctx'
    have hid : (s.enroll c k id v pending).storeIdOf? d = some ctx'.store := by
      rw [storeIdOf?, hctx']
      rfl
    rw [storeIdOf?_enroll] at hid
    rcases isOpen_of_storeIdOf? hid with ⟨r, hr⟩
    have hopened := h.opened hr
    rw [opened_enroll, store?, stores_enroll]
    exact hopened

/-! ## Opening and closing -/

theorem Sound.openStore (h : Sound s) (schema : Schema) (settings : Settings) :
    Sound (s.openStore schema settings).2 := by
  refine h.of_stores rfl (fun _ => rfl) rfl ?_ ?_
  · intro i hi
    rw [store?_openStore_of_isSome hi]
    exact hi
  · intro i store hstore
    rcases store?_openStore hstore with hold | rfl
    · exact h.filed hold
    · exact Rows.filed_empty

theorem Sound.openContext (h : Sound s) {i : StoreId} (hi : (s.store? i).isSome) :
    Sound (s.openContext i).2 := by
  constructor
  case settled =>
    intro n m hm
    exact h.settled hm
  case lodged =>
    intro d key e he
    exact (h.lodged (registry_of_openContext he)).of_entities fun n m hm => ⟨m, hm, rfl⟩
  case slots =>
    intro d d' key key' e e' he he'
    exact h.slots (registry_of_openContext he) (registry_of_openContext he')
  case filed =>
    intro j store hstore
    exact h.filed hstore
  case opened =>
    intro d ctx hctx
    rcases context?_of_openContext hctx with ⟨rfl, rfl⟩ | hold
    · exact ⟨Nat.le_refl _, hi⟩
    · exact ⟨Nat.le_succ_of_le (h.opened hold).1, (h.opened hold).2⟩

theorem Sound.closeContext (h : Sound s) (c : ContextId) : Sound (s.closeContext c) := by
  constructor
  case settled =>
    intro n m hm
    exact h.settled hm
  case lodged =>
    intro d key e he
    exact (h.lodged (registry_of_closeContext he)).of_entities fun n m hm => ⟨m, hm, rfl⟩
  case slots =>
    intro d d' key key' e e' he he'
    exact h.slots (registry_of_closeContext he) (registry_of_closeContext he')
  case filed =>
    intro j store hstore
    exact h.filed hstore
  case opened =>
    intro d ctx hctx
    exact h.opened (context?_of_closeContext hctx)

/-! ## Saving -/

theorem get?_registry_commit {changes : Changes} {key : UInt64} {e : Entry T} :
    ((s.commit c changes).2.registry c).get? key = some e ↔
      ∃ old, (s.registry c).get? key = some old ∧ s.entryDeleted old = false ∧
        e = { old with pending := false } := by
  rw [registry_commit_self, SortedMap.get?_map, Option.map_eq_some_iff]
  constructor
  · rintro ⟨old, hold, rfl⟩
    rw [SortedMap.get?_filter_eq_some_iff] at hold
    exact ⟨old, hold.1, by simpa using hold.2, rfl⟩
  · rintro ⟨old, hold, hlive, rfl⟩
    refine ⟨old, ?_, rfl⟩
    rw [SortedMap.get?_filter_eq_some_iff]
    exact ⟨hold, by simpa using hlive⟩

/-- An entry that a commit leaves was there before, pending or not. -/
theorem entry_of_commit {changes : Changes} {key : UInt64} {e : Entry T}
    (h : ((s.commit c changes).2.registry d).get? key = some e) :
    ∃ pending, (s.registry d).get? key = some { e with pending } := by
  by_cases hd : d = c
  · subst hd
    rcases get?_registry_commit.1 h with ⟨old, hold, _, rfl⟩
    exact ⟨old.pending, hold⟩
  · rw [registry_commit_of_ne _ hd] at h
    exact ⟨e.pending, h⟩

theorem Sound.commit (h : Sound s) (c : ContextId) (changes : Changes) :
    Sound (s.commit c changes).2 := by
  have hstores : Sound (s.modifyStoreOf c fun store =>
      { store with rows := changes.committed (s.rowsOf c) }) := by
    refine h.modifyStoreOf ?_
    intro store hstore hfiled
    rw [rowsOf_of_storeOf? hstore]
    exact hfiled.commit changes.removals changes.writes
  have hsettles := settles_commit s c changes
  constructor
  case settled =>
    intro n m' hm'
    rcases hsettles.entity? n with ⟨kept, hkept⟩
    rw [hkept] at hm'
    rcases Option.map_eq_some_iff.1 hm' with ⟨m, hm, rfl⟩
    have hsettled := hstores.settled hm
    exact hsettled
  case lodged =>
    intro d key e he
    rcases entry_of_commit he with ⟨pending, hold⟩
    rcases h.lodged hold with ⟨hkey, hcontext, hname, m, hm, hkind⟩
    rcases entity?_commit s c changes e.slot with ⟨kept, hkept⟩
    refine ⟨hkey, hcontext, hname, { m with temporary := m.temporary && kept }, ?_, hkind⟩
    rw [hkept]
    have hslot : s.entity? e.slot = some m := hm
    rw [hslot]
    rfl
  case slots =>
    intro d d' key key' e e' he he' hslot
    rcases entry_of_commit he with ⟨pending, hold⟩
    rcases entry_of_commit he' with ⟨pending', hold'⟩
    exact h.slots hold hold' hslot
  case filed =>
    intro i store hstore
    rw [store?, hsettles.stores] at hstore
    exact hstores.filed hstore
  case opened =>
    intro d ctx hctx
    have hid : (s.commit c changes).2.storeIdOf? d = some ctx.store := by
      rw [storeIdOf?, hctx]
      rfl
    rw [hsettles.storeIdOf?] at hid
    rcases isOpen_of_storeIdOf? hid with ⟨r, hr⟩
    have hopened := hstores.opened hr
    rw [hsettles.opened, store?, hsettles.stores]
    exact hopened

/-! ## Importing -/

theorem Store.restore_ok {store store' : Store} {snapshot : Snapshot}
    (h : store.restore snapshot = .ok store') : snapshot.check store.schema = .ok () ∧
      store' = { store with
        nextKey := max store.nextKey snapshot.nextKey, rows := snapshot.entities } := by
  rcases Outcome.bind_eq_ok.1 h with ⟨_, hcheck, hpure⟩
  exact ⟨hcheck, (Except.ok.inj hpure).symm⟩

theorem Store.restore_of_check {store : Store} {snapshot : Snapshot}
    (h : snapshot.check store.schema = .ok ()) : store.restore snapshot = .ok { store with
      nextKey := max store.nextKey snapshot.nextKey, rows := snapshot.entities } :=
  Outcome.bind_eq_ok.2 ⟨(), h, rfl⟩

theorem Sound.restore (h : Sound s) {i : StoreId} {store store' : Store} {snapshot : Snapshot}
    (hrestore : store.restore snapshot = .ok store') : Sound (s.modifyStore i fun _ => store') := by
  refine h.of_stores rfl (fun _ => rfl) rfl ?_ ?_
  · intro j hj
    rw [store?_modifyStore]
    split
    · simpa using hj
    · exact hj
  · intro j new hnew
    rw [store?_modifyStore] at hnew
    split at hnew
    · rcases Option.map_eq_some_iff.1 hnew with ⟨old, _, rfl⟩
      rcases Store.restore_ok hrestore with ⟨hcheck, rfl⟩
      exact fun id row hrow => (Snapshot.row?_of_check hcheck hrow).1
    · exact h.filed hnew

/-! ## Every step -/

theorem Sound.report (h : Sound s) (event : Event) : Sound (s.report event) :=
  h.of_entities rfl rfl rfl (fun _ m hm => ⟨m, hm, rfl⟩) fun _ _ => h.settled

theorem Sound.insertUnder (h : Sound s) {store : Store} (hstore : s.storeOf? c = some store)
    (k : T.Kind) (key : UInt64) : Sound (s.insertUnder c k key) := by
  rcases isOpen_of_storeOf? hstore with ⟨ctx, hctx, _⟩
  have hnumbered : Sound (s.modifyStoreOf c fun store => { store with nextKey := key + 1 }) :=
    h.modifyStoreOf fun _ _ hfiled => hfiled
  exact (hnumbered.enroll (context?_modifyStoreOf.trans hctx) rfl).report _

theorem Step.sound {deed : Deed} (h : Step s deed s') (hs : Sound s) : Sound s' := by
  cases h with
  | report event => exact hs.report event
  | note remark =>
    exact hs.of_entities rfl rfl rfl (fun _ m hm => ⟨m, hm, rfl⟩) fun _ _ => hs.settled
  | openStore schema settings => exact hs.openStore schema settings
  | openContext i hi => exact hs.openContext hi
  | closeContext c => exact hs.closeContext c
  | regard hm hregarded => exact hs.replaceEntity hm hregarded.edited
  | confirm slot => exact hs.modifyEntity (fun _ _ => rfl) fun _ _ hsettled => hsettled
  | insert k hstore => exact hs.insertUnder hstore k _
  | load hrow hname hnew hdecode =>
    rcases storeOf?_of_row? hrow with ⟨store, hstore, _⟩
    rcases isOpen_of_storeOf? hstore with ⟨ctx, hctx, _⟩
    exact hs.enroll hctx hname
  | edit hm hedited => exact hs.replaceEntity hm hedited
  | delete slot => exact hs.modifyEntity (fun _ _ => rfl) fun _ _ hsettled => hsettled
  | save hcollect => exact hs.commit _ _
  | restore hstore hrestore => exact hs.restore hrestore

/-- However its steps are interleaved, a session stays sound. -/
theorem Run.sound {allow : Deed → Prop} (h : Run allow s s') (hs : Sound s) : Sound s' :=
  h.induct (fun _ hstep => hstep.sound) hs

/-! ## Imports -/

/-- A snapshot that passes the check of a store is taken in. -/
theorem Step.imports {i : StoreId} {store : Store} (hstore : s.store? i = some store)
    {snapshot : Snapshot} (h : snapshot.check store.schema = .ok ()) :
    Step s (.imported i) (s.modifyStore i fun _ => { store with
      nextKey := max store.nextKey snapshot.nextKey, rows := snapshot.entities }) :=
  Step.restore hstore (Store.restore_of_check h)

/-- A store that took in a snapshot, and a context. -/
def ofSnapshot (schema : Schema) (snapshot : Snapshot) : Session T :=
  (((Session.empty.openStore schema .default).2.modifyStore ⟨0⟩ fun _ =>
    ⟨schema, .default, max 1 snapshot.nextKey, snapshot.entities⟩).openContext ⟨0⟩).2

theorem run_ofSnapshot {schema : Schema} {snapshot : Snapshot} (h : snapshot.check schema = .ok ()) :
    Run (fun _ => True) .empty (ofSnapshot (T := T) schema snapshot) := by
  have hstore : (Session.empty.openStore (T := T) schema .default).2.store? ⟨0⟩ =
      some (.new schema .default) := rfl
  have himported := Step.imports hstore h
  exact (((Step.openStore .empty schema .default).run trivial).trans (himported.run trivial)).trans
    ((Step.openContext _ ⟨0⟩ rfl).run trivial)

end Session

end Reconcile
