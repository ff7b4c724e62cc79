import Reconcile.Proofs.Session.Answering
import Reconcile.Proofs.Session.Effect
import Reconcile.Proofs.Session.Payloads
import Reconcile.Proofs.Session.Readiness
import Reconcile.Proofs.Session.Separation

/-!
# What outlasts a save

A save of a context that has read all rows of a type (`ReadAll`) leaves what the context sees of the
type as it is.  The rows that were hidden behind a deleted entity would come to light if they were
not removed with it, so there must be none (`HidesNone`).

What other contexts do in the meantime, short of saving, leaves the context `Unmoved`: it has the
same registry, the same entities and the same rows as before.
-/

namespace Reconcile

namespace Session

variable {T : Model} {s s' s'' : Session T} {c d : ContextId} {k : T.Kind} {key : UInt64}
  {field : String} {P : Entity T → Prop}

/-! ## Rows that were read -/

/-- Every row of the type has an entry in the registry of the context. -/
def ReadAll (s : Session T) (c : ContextId) (k : T.Kind) : Prop :=
  ∀ key row, (key, row) ∈ s.rowsNamed c k → (s.registry c).contains key = true

/-- A deleted entity in the registry hides no row of the type, except for the committed row of its
own that a save takes out with it. -/
def HidesNone (s : Session T) (c : ContextId) (k : T.Kind) : Prop :=
  ∀ key e row, (s.registry c).get? key = some e → s.entryDeleted e = true →
    (s.rowsOf c).row? ⟨T.entityName k, key⟩ = some row →
      e.id = ⟨T.entityName k, key⟩ ∧ e.pending = false

/-- No entry of the context has come to be deleted, and none has come deleted. -/
def DeletesNone (s s' : Session T) (c : ContextId) : Prop :=
  ∀ key e, (s'.registry c).get? key = some e → s'.entryDeleted e = true →
    (s.registry c).get? key = some e ∧ s.entryDeleted e = true

theorem ReadAll.of_registry (h : s.ReadAll c k)
    (hkept : ∀ key e, (s.registry c).get? key = some e → (s'.registry c).get? key = some e)
    (hrows : s'.rowsOf c = s.rowsOf c) : s'.ReadAll c k := by
  intro key row hmem
  rw [mem_rowsNamed_iff, hrows] at hmem
  rcases Option.isSome_iff_exists.1 (h key row (mem_rowsNamed_iff.2 hmem)) with ⟨e, he⟩
  exact Option.isSome_iff_exists.2 ⟨e, hkept key e he⟩

theorem ReadAll.insertUnder {store : Store} (h : s.ReadAll c k) (hstore : s.storeOf? c = some store)
    (l : T.Kind) (key : UInt64) : (s.insertUnder c l key).ReadAll c k := by
  intro key' row hmem
  rw [mem_rowsNamed_iff, rowsOf_insertUnder_self] at hmem
  by_cases hkey : key' = key
  · subst hkey
    exact Option.isSome_iff_exists.2 ⟨_, get?_insertUnder_new hstore⟩
  · have hkept : ((s.insertUnder c l key).registry c).get? key' = (s.registry c).get? key' :=
      get?_insertUnder_of_ne hstore fun _ => hkey
    show (((s.insertUnder c l key).registry c).get? key').isSome = true
    rw [hkept]
    exact h key' row (mem_rowsNamed_iff.2 hmem)

namespace DeletesNone

theorem refl (s : Session T) (c : ContextId) : DeletesNone s s c :=
  fun _ _ he hdeleted => ⟨he, hdeleted⟩

theorem trans (h : DeletesNone s s' c) (h' : DeletesNone s' s'' c) : DeletesNone s s'' c := by
  intro key e he hdeleted
  rcases h' key e he hdeleted with ⟨he, hdeleted⟩
  exact h key e he hdeleted

/-- What is read from a row is live. -/
theorem of_loads (h : Loads s s' c k (s.rowsNamed c k)) (hs : Sound s) : DeletesNone s s' c := by
  intro key e he hdeleted
  rcases h.entry c key e he with hold | ⟨_, _, _, row, _, hread⟩
  · rw [entryDeleted_congr (h.toGrows.entity?_of_entry hs hold)] at hdeleted
    exact ⟨hold, hdeleted⟩
  · rcases hread.shows with ⟨_, _, hlive, _⟩
    cases hlive.symm.trans hdeleted

theorem insertUnder {store : Store} (hs : Sound s) (hstore : s.storeOf? c = some store) :
    DeletesNone s (s.insertUnder c k key) c := by
  intro key' e he hdeleted
  rcases entry_of_insertUnder hstore he with ⟨_, rfl⟩ | hold
  · rw [entryDeleted_of_entity? entity?_insertUnder_new] at hdeleted
    cases hdeleted
  · rcases (hs.lodged hold).entity with ⟨m, hm, _⟩
    have hentity : (s.insertUnder c k key).entity? e.slot = s.entity? e.slot :=
      entity?_insertUnder_of_lt (lt_size_of_entity? hm)
    rw [entryDeleted_congr hentity] at hdeleted
    exact ⟨hold, hdeleted⟩

theorem checkIn (s : Session T) (c : ContextId) (slot : Nat) (v : T.Value k)
    (journal : Array Event) :
    DeletesNone s { s.modifyEntity slot (·.checkIn v) with journal } c := by
  intro key e he hdeleted
  refine ⟨he, ?_⟩
  have hentity := entity?_modifyEntity s slot e.handle.slot fun m => m.checkIn v
  have hsame : (s.modifyEntity slot fun m => m.checkIn v).entryDeleted e = s.entryDeleted e := by
    unfold entryDeleted isDeleted
    rw [hentity]
    split <;> cases s.entity? e.handle.slot <;> rfl
  exact hsame.symm.trans hdeleted

end DeletesNone

/-- A fetch that finds every row registered does nothing but report. -/
theorem ReadAll.quiet {scope : Scope} {q : Query} {found : List (Handle k)}
    (h : s.ReadAll scope.context k) (hs : Sound s)
    (hfetch : (scope.fetch k q).outcome s = (.ok found, s')) : ∃ journal,
      s' = { s with journal } := by
  have hfetches := (fetch_spec hs scope k q).2 found s' hfetch
  have hgrows := hfetches.loads.toGrows
  have hfetchable : ∀ e ∈ (s.registry scope.context).values,
      s.Fetchable k q (s.takesPending scope.context) e := by
    intro e he
    rcases SortedMap.mem_values_iff.1 he with ⟨key, hget⟩
    have hkept := SortedMap.mem_values_iff.2 ⟨key, hgrows.registry _ key e hget⟩
    have hafter := hfetches.fetchable e hkept
    rw [hgrows.takesPending] at hafter
    exact (fetchable_congr (hgrows.entity?_of_entry hs hget)).1 hafter
  have hquiet : ∃ journal, (scope.fetch k q).outcome s = (.ok _, { s with journal }) :=
    fetch_of_complete hfetches.askable h hfetchable
  rcases hquiet with ⟨journal, hquiet⟩
  exact ⟨journal, congrArg Prod.snd (hfetch.symm.trans hquiet)⟩

/-! ## What others do -/

/-- Nothing that concerns the context has happened. -/
structure Unmoved (c : ContextId) (s s' : Session T) : Prop where
  run : Run (fun _ => True) s s'
  registry : s'.registry c = s.registry c
  entity? : ∀ key e, (s.registry c).get? key = some e → s'.entity? e.slot = s.entity? e.slot
  rowsOf : s'.rowsOf c = s.rowsOf c
  schemaOf : s'.schemaOf c = s.schemaOf c
  settingsOf : s'.settingsOf c = s.settingsOf c

namespace Unmoved

theorem refl (c : ContextId) (s : Session T) : Unmoved c s s :=
  ⟨Run.refl s, rfl, fun _ _ _ => rfl, rfl, rfl, rfl⟩

theorem trans (h : Unmoved c s s') (h' : Unmoved c s' s'') : Unmoved c s s'' where
  run := h.run.trans h'.run
  registry := h'.registry.trans h.registry
  entity? key e he := (h'.entity? key e (h.registry ▸ he)).trans (h.entity? key e he)
  rowsOf := h'.rowsOf.trans h.rowsOf
  schemaOf := h'.schemaOf.trans h.schemaOf
  settingsOf := h'.settingsOf.trans h.settingsOf

theorem report (c : ContextId) (s : Session T) (event : Event) : Unmoved c s (s.report event) :=
  ⟨(Step.report s event).run trivial, rfl, fun _ _ _ => rfl, rfl, rfl, rfl⟩

section Context

variable (h : Unmoved c s s')

include h

theorem seen? : s'.seen? c k key = s.seen? c k key := by
  cases he : (s.registry c).get? key with
  | some e => exact seen?_congr he (h.registry ▸ he) (h.entity? key e he)
  | none => rw [seen?_of_row he, seen?_of_row (h.registry ▸ he), h.rowsOf]

theorem ready (hready : s.Ready c k field P) : s'.Ready c k field P where
  pending := by simpa [takesPending, h.settingsOf] using hready.pending
  described := by simpa [h.schemaOf] using hready.described
  readable _ _ := hready.readable_of_registry (fun _ e he => ⟨e, h.registry ▸ he⟩) h.rowsOf
  live key e m he hname hm hlive := by
    rw [h.registry] at he
    rw [h.entity? key e he] at hm
    exact hready.live key e m he hname hm hlive

theorem readAll (hread : s.ReadAll c k) : s'.ReadAll c k :=
  hread.of_registry (fun _ _ he => h.registry ▸ he) h.rowsOf

theorem current (hcurrent : Current s c) : Current s' c := by
  have hentity : ∀ e ∈ (s.registry c).values,
      s'.entity? e.handle.slot = s.entity? e.handle.slot := by
    intro e he
    rcases SortedMap.mem_values_iff.1 he with ⟨key, hget⟩
    exact h.entity? key e hget
  constructor
  case live =>
    intro e he
    rw [h.registry] at he
    simpa [entryDeleted, isDeleted, hentity e he] using hcurrent.live e he
  case confirmed =>
    intro e he
    rw [h.registry] at he
    simpa [isTemporary, hentity e he] using hcurrent.confirmed e he
  case committed =>
    intro e he
    rw [h.registry] at he
    exact hcurrent.committed e he
  case written =>
    intro e he
    rw [h.registry] at he
    rcases hcurrent.written e he with ⟨payload, row, ⟨m, hm, hsavable⟩, hpasses, hrow, hsame⟩
    refine ⟨payload, row, ⟨m, (hentity e he).trans hm, hsavable⟩, ?_, ?_, hsame⟩
    · simpa [Passes, h.settingsOf, h.schemaOf] using hpasses
    · simpa [h.rowsOf] using hrow

end Context

end Unmoved

/-! ## What the save does -/

section Commit

variable {changes : Changes} (hs : Sound s)
  (hcollect : s.collect c (s.registry c).values = .ok changes)

/-- A live entity keeps its entry, but for the mark of being pending. -/
theorem get?_commit_of_live {e : Entry T} (he : (s.registry c).get? key = some e)
    (hlive : s.entryDeleted e = false) :
    ((s.commit c changes).2.registry c).get? key = some { e with pending := false } :=
  get?_registry_commit.2 ⟨e, he, hlive, rfl⟩

include hs hcollect

/-- The row under a key that the registry does not have was not written. -/
theorem row?_commit_of_none (he : (s.registry c).get? key = none) :
    ((s.commit c changes).2.rowsOf c).row? ⟨T.entityName k, key⟩ =
      (s.rowsOf c).row? ⟨T.entityName k, key⟩ := by
  refine row?_commit_of_unregistered hs hcollect ?_
  intro e he'
  cases he.symm.trans he'

/-- Behind a deleted entity there is no row of the type left. -/
theorem HidesNone.row?_commit (hhides : s.HidesNone c k) {e : Entry T}
    (he : (s.registry c).get? key = some e) (hdeleted : s.entryDeleted e = true) :
    ((s.commit c changes).2.rowsOf c).row? ⟨T.entityName k, key⟩ = none := by
  rcases storeOf?_of_registry hs he with ⟨store, hstore⟩
  -- an entry of another type leaves the row of this id alone, and there was none
  by_cases hid : e.id = ⟨T.entityName k, key⟩
  · rw [row?_commit_of_deleted hs hstore hcollect he hid hdeleted]
    split
    · next hpending =>
      refine Option.eq_none_iff_forall_ne_some.2 ?_
      intro row hrow
      have hcommitted := (hhides key e row he hdeleted hrow).2
      cases hcommitted.symm.trans hpending
    · rfl
  · have hkept : ((s.commit c changes).2.rowsOf c).row? ⟨T.entityName k, key⟩ =
        (s.rowsOf c).row? ⟨T.entityName k, key⟩ := by
      refine row?_commit_of_unregistered hs hcollect ?_
      intro e' he'
      cases he.symm.trans he'
      exact hid
    rw [hkept]
    refine Option.eq_none_iff_forall_ne_some.2 ?_
    intro row hrow
    exact hid (hhides key e row he hdeleted hrow).1

theorem ReadAll.commit (hread : s.ReadAll c k) (hhides : s.HidesNone c k) :
    (s.commit c changes).2.ReadAll c k := by
  intro key row hmem
  have hrow := mem_rowsNamed_iff.1 hmem
  cases he : (s.registry c).get? key with
  | none =>
    -- the row was there before, where all rows are registered
    rw [row?_commit_of_none hs hcollect he] at hrow
    have hcontains := hread key row (mem_rowsNamed_iff.2 hrow)
    rw [SortedMap.contains_eq_false_iff.2 he] at hcontains
    cases hcontains
  | some e =>
    cases hdeleted : s.entryDeleted e with
    | true =>
      rw [hhides.row?_commit hs hcollect he hdeleted] at hrow
      cases hrow
    | false => exact Option.isSome_iff_exists.2 ⟨_, get?_commit_of_live he hdeleted⟩

/-- The rows that still have to be read are those from before. -/
theorem Ready.commit (hready : s.Ready c k field P) (hhides : s.HidesNone c k)
    (hP : ∀ m (kept : Bool), P m → P { m with temporary := m.temporary && kept }) :
    (s.commit c changes).2.Ready c k field P where
  pending := by simpa [takesPending, settingsOf_commit_self] using hready.pending
  described := by simpa [schemaOf_commit_self] using hready.described
  readable key row hrow hnew := by
    cases he : (s.registry c).get? key with
    | none =>
      rw [row?_commit_of_none hs hcollect he] at hrow
      exact hready.readable key row hrow he
    | some e =>
      -- a live entity stays registered, and with a deleted one its row has gone
      cases hdeleted : s.entryDeleted e with
      | true =>
        rw [hhides.row?_commit hs hcollect he hdeleted] at hrow
        cases hrow
      | false => cases (get?_commit_of_live he hdeleted).symm.trans hnew
  live key e m he hname hm hlive := by
    rcases get?_registry_commit.1 he with ⟨old, hold, _, rfl⟩
    rcases entity?_commit s c changes old.slot with ⟨kept, hkept⟩
    have hcommitted : (s.commit c changes).2.entity? old.slot = some m := hm
    rw [hcommitted] at hkept
    rcases Option.map_eq_some_iff.1 hkept.symm with ⟨before, hbefore, rfl⟩
    rcases hready.live key old before hold hname hbefore hlive with ⟨hkind, hbefore⟩
    exact ⟨hkind, hP before kept hbefore⟩

end Commit

/-! ## What outlasts it -/

/-- What the context has of the type it has afterwards. -/
structure Outlasts (s s' : Session T) (c : ContextId) (k : T.Kind) : Prop where
  seen : ∀ key, s'.seen? c k key = s.seen? c k key
  entry : ∀ (h : Handle k) pending, (s.registry c).get? h.id.key = some ⟨k, h, pending⟩ →
    (s.seen? c k h.id.key).isSome →
      ∃ pending', (s'.registry c).get? h.id.key = some ⟨k, h, pending'⟩
  readAll : s.ReadAll c k → s'.ReadAll c k
  ready : ∀ field, s.Ready c k field Entity.Unused → s'.Ready c k field Entity.Unused

theorem Outlasts.trans (h : Outlasts s s' c k) (h' : Outlasts s' s'' c k) :
    Outlasts s s'' c k where
  seen key := (h'.seen key).trans (h.seen key)
  entry handle pending he hsome := by
    rcases h.entry handle pending he hsome with ⟨pending', he'⟩
    exact h'.entry handle pending' he' (by rwa [h.seen])
  readAll hread := h'.readAll (h.readAll hread)
  ready field hready := h'.ready field (h.ready field hready)

end Session

end Reconcile
