import Reconcile.Proofs.Session.Refusing
import Reconcile.Proofs.Store.Counting

/-!
# The effect of a save

A save that ends well leaves its context *current* (`Current`): every entity in the registry is
live, confirmed and committed, and its row has its payload.  Saving a current context changes
nothing.  `Effect` says what the save made of the rows and of the registry, and that its summary is
exact.
-/

namespace Reconcile

namespace Session

variable {T : Model} {s s' : Session T} {c : ContextId}

/-! ## Changes that change nothing -/

theorem modifyEntity_of_fixed {slot : Nat} {f : Entity T → Entity T}
    (h : ∀ m, s.entity? slot = some m → f m = m) : s.modifyEntity slot f = s := by
  have hentities : s.entities.modify slot f = s.entities := by
    refine Array.ext_getElem? ?_
    intro i
    rw [Array.getElem?_modify]
    split
    · next hi =>
      subst hi
      cases hm : s.entities[slot]? with
      | none => rfl
      | some m => rw [Option.map_some, h m hm]
    · rfl
  rw [modifyEntity, hentities]

theorem modifyStoreOf_of_fixed {f : Store → Store}
    (h : ∀ store, s.storeOf? c = some store → f store = store) : s.modifyStoreOf c f = s := by
  unfold modifyStoreOf
  cases hctx : s.context? c with
  | none => rfl
  | some ctx =>
    have hstores : s.stores.modify ctx.store.number f = s.stores := by
      refine Array.ext_getElem? ?_
      intro i
      rw [Array.getElem?_modify]
      split
      · next hi =>
        subst hi
        cases hstore : s.stores[ctx.store.number]? with
        | none => rfl
        | some store =>
          rw [Option.map_some, h store]
          rw [storeOf?, hctx]
          exact hstore
      · rfl
    dsimp only
    rw [modifyStore, hstores]

theorem withRegistry_registry (s : Session T) (c : ContextId) :
    s.withRegistry c (s.registry c) = s := by
  unfold withRegistry registry
  cases hctx : s.context? c with
  | none => rfl
  | some ctx =>
    have hcontexts : s.contexts.insert c ctx = s.contexts := SortedMap.insert_of_get? hctx
    dsimp only
    rw [hcontexts]

/-! ## Contexts that are current -/

/-- The rows have what the context has. -/
structure Current (s : Session T) (c : ContextId) : Prop where
  live : ∀ e ∈ (s.registry c).values, s.entryDeleted e = false
  confirmed : ∀ e ∈ (s.registry c).values, s.isTemporary e.handle = false
  committed : ∀ e ∈ (s.registry c).values, e.pending = false
  written : ∀ e ∈ (s.registry c).values, ∃ payload row, s.Savable e payload ∧
    s.Passes c e.id.entity payload ∧ (s.rowsOf c).row? e.id = some row ∧
    row.payload.same payload = true

theorem Current.report (h : Current s c) (event : Event) : Current (s.report event) c := by
  constructor
  case live => exact h.live
  case confirmed => exact h.confirmed
  case committed => exact h.committed
  case written =>
    intro e he
    rcases h.written e he with ⟨payload, row, hsavable, hpasses, hrow, hsame⟩
    exact ⟨payload, row, ⟨hsavable.entity⟩, hpasses, hrow, hsame⟩

theorem Current.settle (h : Current s c) : s.settle c = s := by
  -- nothing is deleted, nothing is pending and every id is confirmed
  have hkept : (s.registry c).filter (fun _ e => !s.entryDeleted e) = s.registry c := by
    refine SortedMap.filter_eq_self ?_
    intro key e he
    rw [h.live e (SortedMap.mem_values_iff.2 ⟨key, he⟩)]
    rfl
  have hpending : (s.registry c).map (fun e => { e with pending := false }) = s.registry c := by
    refine SortedMap.map_eq_self ?_
    intro e he
    have hcommitted := h.committed e he
    cases e
    cases hcommitted
    rfl
  have hconfirmed : ∀ entries : List (Entry T), (∀ e ∈ entries, e ∈ (s.registry c).values) →
      entries.foldl (fun s e => s.markPermanent e.handle) s = s := by
    intro entries hentries
    induction entries with
    | nil => rfl
    | cons e rest ih =>
      have hfixed : s.markPermanent e.handle = s := by
        refine modifyEntity_of_fixed ?_
        intro m hm
        have htemporary := h.confirmed e (hentries e List.mem_cons_self)
        rw [isTemporary, hm] at htemporary
        have hfalse : m.temporary = false := htemporary
        rw [← hfalse]
      rw [List.foldl_cons, hfixed]
      exact ih fun e he => hentries e (List.mem_cons_of_mem _ he)
  unfold Session.settle
  dsimp only
  rw [hkept, hconfirmed _ (fun _ he => he), hpending, withRegistry_registry]

/-- A save of a context that is current commits nothing and changes nothing. -/
theorem Current.save {scope : Scope} (h : Current s scope.context) :
    (scope.save (T := T)).outcome s = (.ok .zero, s.report (.saved scope.context .zero)) := by
  rcases save_cases scope s with ⟨fault, hcollect, _⟩ | ⟨changes, hcollect, hsave⟩
  · have hok : ∃ changes,
        s.collect scope.context (s.registry scope.context).values = .ok changes := by
      refine exists_collect ?_
      intro e he _
      rcases h.written e he with ⟨payload, _, hsavable, hpasses, _⟩
      exact ⟨_, collectWrite_of_passes hsavable hpasses⟩
    rcases hok with ⟨changes, hok⟩
    cases hcollect.symm.trans hok
  · have hremovals : changes.removals = [] := by
      refine List.eq_nil_iff_forall_not_mem.2 ?_
      intro id hid
      rcases (mem_removals_iff hcollect).1 hid with ⟨e, he, hdeleted, _⟩
      rw [h.live e he] at hdeleted
      cases hdeleted
    -- every write finds the row that has its payload
    have hrows : (s.rowsOf scope.context).commit changes.removals changes.writes =
        (s.rowsOf scope.context, .zero) := by
      rw [hremovals]
      refine Rows.commit_of_same ?_
      intro write hwrite
      rcases savable_of_mem_writes hcollect hwrite with ⟨e, he, hid, _, hsavable⟩
      rcases h.written e he with ⟨payload, row, hsavable', _, hrow, hsame⟩
      cases hsavable.unique hsavable'
      exact ⟨row, hid ▸ hrow, hsame⟩
    have hstore : (s.modifyStoreOf scope.context fun store =>
        { store with rows := s.rowsOf scope.context }) = s := by
      refine modifyStoreOf_of_fixed ?_
      intro store hstore
      rw [rowsOf_of_storeOf? hstore]
    have hcommit : s.commit scope.context changes = (.zero, s) := by
      unfold commit
      rw [hrows]
      dsimp only
      rw [hstore, h.settle]
    rw [hsave, hcommit]

/-! ## What a commit leaves -/

variable {changes : Changes}

theorem Sound.separate (hs : Sound s)
    (hcollect : s.collect c (s.registry c).values = .ok changes) :
    Rows.Separate changes.removals changes.writes := by
  constructor
  case removed =>
    rw [removals_of_collect hcollect]
    exact (hs.ids_nodup c).sublist (List.filter_sublist.map _)
  case written =>
    rw [writtenIds_of_collect hcollect]
    exact (hs.ids_nodup c).sublist (List.filter_sublist.map _)
  case apart =>
    intro id hremoval
    rcases (mem_removals_iff hcollect).1 hremoval with ⟨e, hmem, hdeleted, _, rfl⟩
    exact not_mem_writes_of_deleted hs hcollect (hs.entry_of_mem hmem) hdeleted

theorem accounts_commit (hs : Sound s)
    (hcollect : s.collect c (s.registry c).values = .ok changes) :
    Rows.Accounts (s.rowsOf c) ((s.commit c changes).2.rowsOf c) (s.commit c changes).1 := by
  have haccounts := (hs.separate hcollect).accounts_commit (s.rowsOf c)
  have hrows : (s.commit c changes).2.rowsOf c = changes.committed (s.rowsOf c) := by
    cases hstore : s.storeOf? c with
    | some store => exact rowsOf_commit_self hstore changes
    | none =>
      -- a context that is not open has nothing to collect
      have hempty : (s.registry c).values = [] := by
        refine List.eq_nil_iff_forall_not_mem.2 ?_
        intro e he
        rcases storeOf?_of_registry hs (hs.entry_of_mem he) with ⟨store, hsome⟩
        cases hstore.symm.trans hsome
      rw [hempty] at hcollect
      cases hcollect
      exact rowsOf_commit_of_none hstore _
  rw [hrows]
  exact haccounts

theorem settingsOf_commit_self (s : Session T) (c : ContextId) (changes : Changes) :
    (s.commit c changes).2.settingsOf c = s.settingsOf c := by
  rw [settingsOf, settingsOf, storeOf?_commit_self]
  cases s.storeOf? c <;> rfl

theorem schemaOf_commit_self (s : Session T) (c : ContextId) (changes : Changes) :
    (s.commit c changes).2.schemaOf c = s.schemaOf c := by
  rw [schemaOf, schemaOf, storeOf?_commit_self]
  cases s.storeOf? c <;> rfl

theorem temporary_confirm (s : Session T) {entries : List (Entry T)} {e : Entry T}
    (he : e ∈ entries) :
    (entries.foldl (fun s e => s.markPermanent e.handle) s).isTemporary e.handle = false := by
  induction entries generalizing s with
  | nil => cases he
  | cons first rest ih =>
    rw [List.foldl_cons]
    -- an entry can come twice, so the last time counts
    by_cases hrest : e ∈ rest
    · exact ih _ hrest
    · cases (List.mem_cons.1 he).resolve_right hrest
      rcases (settles_confirm (s.markPermanent e.handle) rest).1.entity? e.handle.slot with
        ⟨kept, hkept⟩
      rw [markPermanent, entity?_modifyEntity, if_pos rfl] at hkept
      rw [isTemporary]
      unfold markPermanent at hkept ⊢
      rw [hkept]
      cases s.entity? e.handle.slot <;> rfl

theorem confirmed_commit (s : Session T) (c : ContextId) (changes : Changes) {e : Entry T}
    (he : e ∈ (s.registry c).values) (hlive : s.entryDeleted e = false) :
    (s.commit c changes).2.isTemporary e.handle = false := by
  unfold commit settle
  dsimp only
  rw [isTemporary, entity?, entities_withRegistry]
  refine temporary_confirm _ (SortedMap.mem_values_iff.2 ?_)
  rcases SortedMap.mem_values_iff.1 he with ⟨key, hget⟩
  refine ⟨key, SortedMap.get?_filter_eq_some_iff.2 ⟨?_, ?_⟩⟩
  · rw [registry_modifyStoreOf]
    exact hget
  · rw [entryDeleted_modifyStoreOf, hlive]
    rfl

theorem current_commit (hs : Sound s)
    (hcollect : s.collect c (s.registry c).values = .ok changes) :
    Current (s.commit c changes).2 c := by
  -- the entries afterwards are the live ones from before, marked as committed
  have hentry : ∀ e ∈ ((s.commit c changes).2.registry c).values, ∃ old,
      (s.registry c).get? old.id.key = some old ∧ s.entryDeleted old = false ∧
        e = { old with pending := false } := by
    intro e he
    rcases SortedMap.mem_values_iff.1 he with ⟨key, hget⟩
    rcases get?_registry_commit.1 hget with ⟨old, hold, hlive, rfl⟩
    refine ⟨old, ?_, hlive, rfl⟩
    rw [(hs.lodged hold).key]
    exact hold
  constructor
  case live =>
    intro e he
    rcases hentry e he with ⟨old, hold, hlive, rfl⟩
    rcases (hs.lodged hold).entity with ⟨m, hm, _⟩
    rcases entity?_commit s c changes old.slot with ⟨kept, hkept⟩
    rw [hm] at hkept
    rw [entryDeleted_of_entity? hm] at hlive
    exact (entryDeleted_of_entity? (e := { old with pending := false }) hkept).trans hlive
  case confirmed =>
    intro e he
    rcases hentry e he with ⟨old, hold, hlive, rfl⟩
    have hmem : old ∈ (s.registry c).values := SortedMap.mem_values_iff.2 ⟨_, hold⟩
    exact confirmed_commit s c changes (e := old) hmem hlive
  case committed =>
    intro e he
    rcases hentry e he with ⟨old, hold, hlive, rfl⟩
    rfl
  case written =>
    intro e he
    rcases hentry e he with ⟨old, hold, hlive, rfl⟩
    rcases storeOf?_of_registry hs hold with ⟨store, hstore⟩
    rcases row?_commit_of_live hs hstore hcollect hold rfl hlive with ⟨payload, hsavable, hrow⟩
    rcases hsavable.entity with ⟨m, hm, hfilling, hguard, hencode⟩
    rcases entity?_commit s c changes old.slot with ⟨kept, hkept⟩
    rw [hm] at hkept
    have hpasses := hs.passes_of_collect hcollect hold hlive hsavable
    refine ⟨payload, _, ⟨_, hkept, hfilling, hguard, hencode⟩, ?_, hrow, same_written _ _ payload⟩
    unfold Passes
    rw [settingsOf_commit_self, schemaOf_commit_self]
    exact hpasses

/-! ## The whole effect -/

/-- What a save did: `s` is the session before, `s'` the one after. -/
structure Effect (s s' : Session T) (c : ContextId) (summary : Summary) : Prop where
  /-- The row of a live entity has the payload that the entity had. -/
  written : ∀ e ∈ (s.registry c).values, s.entryDeleted e = false → ∃ payload row,
    s.Savable e payload ∧ (s'.rowsOf c).row? e.id = some row ∧ row.payload.same payload = true
  /-- What was deleted has no row, but nothing was done for what was inserted and deleted. -/
  removed : ∀ e ∈ (s.registry c).values, s.entryDeleted e = true →
    (s'.rowsOf c).row? e.id = if e.pending then (s.rowsOf c).row? e.id else none
  others : ∀ id, (∀ e ∈ (s.registry c).values, e.id ≠ id) →
    (s'.rowsOf c).row? id = (s.rowsOf c).row? id
  stores : ∀ i, s.storeIdOf? c ≠ some i → s'.store? i = s.store? i
  accounts : Rows.Accounts (s.rowsOf c) (s'.rowsOf c) summary
  /-- The live entities stay in the registry. -/
  registry : ∀ key e, (s'.registry c).get? key = some e ↔
    ∃ old, (s.registry c).get? key = some old ∧ s.entryDeleted old = false ∧
      e = { old with pending := false }

theorem effect_commit (hs : Sound s)
    (hcollect : s.collect c (s.registry c).values = .ok changes) :
    Effect s (s.commit c changes).2 c (s.commit c changes).1 := by
  have hstore : ∀ e ∈ (s.registry c).values, ∃ store, s.storeOf? c = some store :=
    fun e he => storeOf?_of_registry hs (hs.entry_of_mem he)
  constructor
  case written =>
    intro e he hlive
    rcases hstore e he with ⟨store, hstore⟩
    rcases row?_commit_of_live hs hstore hcollect (hs.entry_of_mem he) rfl hlive with
      ⟨payload, hsavable, hrow⟩
    exact ⟨payload, _, hsavable, hrow, same_written _ _ payload⟩
  case removed =>
    intro e he hdeleted
    rcases hstore e he with ⟨store, hstore⟩
    exact row?_commit_of_deleted hs hstore hcollect (hs.entry_of_mem he) rfl hdeleted
  case others =>
    intro id hid
    refine row?_commit_of_unregistered hs hcollect ?_
    intro e he
    exact hid e (SortedMap.mem_values_iff.2 ⟨_, he⟩)
  case stores =>
    intro i hi
    rw [store?_commit, if_neg hi]
  case accounts => exact accounts_commit hs hcollect
  case registry =>
    intro key e
    exact get?_registry_commit

theorem Effect.report {summary : Summary} (h : Effect s s' c summary) (event : Event) :
    Effect s (s'.report event) c summary :=
  ⟨h.written, h.removed, h.others, h.stores, h.accounts, h.registry⟩

section Renaming

open Sample

end Renaming

end Session

end Reconcile
