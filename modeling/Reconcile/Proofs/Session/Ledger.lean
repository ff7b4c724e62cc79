import Reconcile.Proofs.Json.Same
import Reconcile.Proofs.Session.Committing

/-!
# Which row an entity stands for

An entity that was loaded or saved stands for a row until its context inserts, changes or deletes
something under its id again.  A `Ledger` keeps this for every slot of the memory along the steps of
a session (`Tracked`).  The row is the one that was read or written, whatever the store holds under
its id by now.

Of an entity that stands for a row the ledger promises (`Stands`) that it is live, that nothing
hides its value, and that its payload is the one of the row, or the one that its type writes for
what it reads from the row.
-/

namespace Reconcile

/-- For the slot of an entity the row it stands for; none from a change on until the next save. -/
abbrev Ledger := Nat → Option Row

namespace Ledger

variable {T : Model}

def blank : Ledger := fun _ => none

/-- The ledger after a step that led to the session `s`. -/
def after (L : Ledger) (s : Session T) : Deed → Ledger
  | .quiet | .imported _ => L
  | .inserted slot | .changed slot | .deleted slot => fun n => if n = slot then none else L n
  | .loaded slot row => fun n => if n = slot then some row else L n
  | .saved c => fun n =>
    match (s.registry c).values.find? fun e => e.slot = n with
    | some e => (s.rowsOf c).row? e.id
    | none => L n

end Ledger

/-- What a value that was read from a payload, or written to it, is written as. -/
def Model.Reflects {T : Model} (k : T.Kind) (c : ContextId) (payload : Json)
    (written : Except String Json) : Prop :=
  (∃ j, written = .ok j ∧ payload.same j = true) ∨
    ∃ v : T.Value k, T.decode k (some c) payload = some v ∧ T.encode v = written

/-- The type reads the payload in this context and writes back another one. -/
def Model.Rewrites {T : Model} (k : T.Kind) (c : ContextId) (payload : Json) : Prop :=
  ∃ (v : T.Value k) (j : Json), T.decode k (some c) payload = some v ∧ T.encode v = .ok j ∧
    payload.same j = false

namespace Session

variable {T : Model} {s s' : Session T} {c d : ContextId} {deed : Deed} {L : Ledger}
  {allow : Deed → Prop}

/-- Sessions with the ledger of what was done in them. -/
inductive Tracked (allow : Deed → Prop) : Session T → Ledger → Prop where
  | empty : Tracked allow .empty .blank
  | step {s s' : Session T} {L : Ledger} {deed : Deed} (h : Tracked allow s L)
      (hstep : Step s deed s') (hallow : allow deed) : Tracked allow s' (L.after s' deed)

theorem Tracked.run (h : Tracked allow s L) : Run allow .empty s := by
  induction h with
  | empty => exact Run.refl _
  | step _ hstep hallow ih => exact ih.trans (hstep.run hallow)

theorem Tracked.sound (h : Tracked allow s L) : Sound s := h.run.sound sound_empty

/-- The ledger can be continued along any run. -/
theorem Tracked.exists_of_run (h : Tracked allow s L) (hrun : Run allow s s') :
    ∃ L', Tracked allow s' L' := by
  refine hrun.induct (P := fun s' => ∃ L', Tracked allow s' L') ?_ ⟨L, h⟩
  intro a b deed hallow hstep htracked
  rcases htracked with ⟨L', h'⟩
  exact ⟨_, h'.step hstep hallow⟩

/-! ## What the ledger says of an id -/

/-- The store of the context has another row by now, or none, in place of this one. -/
def Overtaken (s : Session T) (c : ContextId) (row : Row) : Prop :=
  (s.rowsOf c).row? row.id ≠ some row

/-- The context inserted, changed or deleted the entity since it loaded or last saved it. -/
def Owns (s : Session T) (L : Ledger) (c : ContextId) (id : EntityId) : Prop :=
  ∃ e, (s.registry c).get? id.key = some e ∧ e.id = id ∧ L e.slot = none

/-- The row that the context loaded or saved was overtaken. -/
def Behind (s : Session T) (L : Ledger) (c : ContextId) (id : EntityId) : Prop :=
  ∃ e row, (s.registry c).get? id.key = some e ∧ e.id = id ∧ L e.slot = some row ∧
    s.Overtaken c row

/-- The context loaded a row whose payload the type writes in another way. -/
def Reforms (s : Session T) (L : Ledger) (c : ContextId) (id : EntityId) : Prop :=
  ∃ e row, (s.registry c).get? id.key = some e ∧ e.id = id ∧ L e.slot = some row ∧
    Model.Rewrites e.kind c row.payload

/-! ## What the ledger promises -/

structure Stands (s : Session T) (c : ContextId) (e : Entry T) (row : Row) : Prop where
  id : row.id = e.id
  committed : e.pending = false
  entity : ∃ m, s.entity? e.slot = some m ∧ m.deleted = false ∧ m.filling = false ∧
    m.published = Model.published m.state ∧
    Model.Reflects e.kind c row.payload (T.encode m.state)

/-- Entries that stand for a row, by the ledger, do. -/
def Upholds (s : Session T) (L : Ledger) : Prop :=
  ∀ c key e row, (s.registry c).get? key = some e → L e.slot = some row → s.Stands c e row

theorem Stands.of_entity {e : Entry T} {row : Row} (h : s.Stands c e row)
    (hentity : ∀ m, s.entity? e.slot = some m → ∃ m', s'.entity? e.slot = some m' ∧
      m'.deleted = m.deleted ∧ m'.filling = m.filling ∧ m'.published = m.published ∧
      T.encode m'.state = T.encode m.state) : s'.Stands c e row := by
  rcases h.entity with ⟨m, hm, hdeleted, hfilling, hpublished, hreflects⟩
  rcases hentity m hm with ⟨m', hm', hdeleted', hfilling', hpublished', hencode⟩
  refine ⟨h.id, h.committed, m', hm', hdeleted'.trans hdeleted, hfilling'.trans hfilling, ?_, ?_⟩
  · rw [hpublished', hpublished, Model.published, Model.published, hencode]
  · rw [hencode]
    exact hreflects

theorem Stands.of_same {e : Entry T} {row : Row} (h : s.Stands c e row)
    (hentity : s'.entity? e.slot = s.entity? e.slot) : s'.Stands c e row :=
  h.of_entity fun m hm => ⟨m, hentity.trans hm, rfl, rfl, rfl, rfl⟩

theorem Stands.live {e : Entry T} {row : Row} (h : s.Stands c e row) :
    s.entryDeleted e = false := by
  rcases h.entity with ⟨m, hm, hdeleted, _⟩
  have hslot : s.entity? e.handle.slot = some m := hm
  simp [entryDeleted, isDeleted, hslot, hdeleted]

/-- A change of one entity keeps the ledger if it starts the slot afresh. -/
theorem Upholds.modifyEntity (h : s.Upholds L) (slot : Nat) (f : Entity T → Entity T) :
    (s.modifyEntity slot f).Upholds fun n => if n = slot then none else L n := by
  intro c key e row he hrow
  dsimp only at hrow
  split at hrow
  · cases hrow
  · next hslot =>
    exact (h _ _ _ _ he hrow).of_same (entity?_modifyEntity_of_ne s hslot f)

theorem Upholds.regard (h : s.Upholds L) {slot : Nat} {m m' : Entity T}
    (hm : s.entity? slot = some m) (hregarded : m.Regarded m') :
    (s.modifyEntity slot fun _ => m').Upholds L := by
  intro c key e row he hrow
  by_cases hslot : e.slot = slot
  · refine (h _ _ _ _ he hrow).of_entity ?_
    intro old hold
    rw [hslot, hm] at hold
    cases Option.some.inj hold
    refine ⟨m', ?_, hregarded.deleted, hregarded.filling, hregarded.published, hregarded.encode⟩
    rw [hslot]
    exact entity?_modifyEntity_self hm _
  · exact (h _ _ _ _ he hrow).of_same (entity?_modifyEntity_of_ne s hslot _)

theorem Upholds.confirm (h : s.Upholds L) (slot : Nat) :
    (s.modifyEntity slot fun m => { m with temporary := false }).Upholds L := by
  intro c key e row he hrow
  refine (h _ _ _ _ he hrow).of_entity ?_
  intro m hm
  exact exists_modifyEntity hm ⟨rfl, rfl, rfl, rfl⟩ fun _ => ⟨rfl, rfl, rfl, rfl⟩

/-- A change of contexts that adds no entries. -/
theorem Upholds.of_registry (h : s.Upholds L) (hentities : s'.entities = s.entities)
    (hregistry : ∀ {c key e}, (s'.registry c).get? key = some e →
      (s.registry c).get? key = some e) : s'.Upholds L := by
  intro c key e row he hrow
  refine (h _ _ _ _ (hregistry he) hrow).of_same ?_
  rw [entity?, hentities, entity?]

theorem Upholds.enroll (h : s.Upholds L) (hs : Sound s) {ctx : Context T}
    (hctx : s.context? c = some ctx) {k : T.Kind} {id : EntityId} {v : T.Value k} {pending : Bool}
    {standing : Option Row} (hnew : ∀ row, standing = some row → row.id = id ∧ pending = false ∧
      Model.Reflects k c row.payload (T.encode v)) :
    (s.enroll c k id v pending).Upholds fun n =>
      if n = s.entities.size then standing else L n := by
  intro d key e row he hrow
  dsimp only at hrow
  rcases entry_of_enroll hctx he with ⟨rfl, rfl, rfl⟩ | hold
  · have hstanding : standing = some row := by
      rw [← hrow]
      exact (if_pos rfl).symm
    rcases hnew row hstanding with ⟨hid, hpending, hreflects⟩
    exact ⟨hid, hpending, _, entity?_enroll_new, rfl, rfl, rfl, hreflects⟩
  · -- older entries lie in other slots, which the ledger leaves
    rcases (hs.lodged hold).entity with ⟨m, hm, _⟩
    have hlt := lt_size_of_entity? hm
    rw [if_neg (Nat.ne_of_lt hlt)] at hrow
    exact (h _ _ _ _ hold hrow).of_same (entity?_enroll_of_lt hlt)

/-! ## What a save leaves standing -/

theorem same_written (old : Option Row) (id : EntityId) (payload : Json) :
    (Row.written old id payload).payload.same payload = true := by
  cases old with
  | none => exact Json.same_refl payload
  | some row =>
    unfold Row.written Row.update
    dsimp only
    split
    · next hsame => exact hsame
    · exact Json.same_refl payload

theorem Sound.id_written (h : Sound s) {store : Store} (hstore : s.storeOf? c = some store)
    (id : EntityId) (payload : Json) :
    (Row.written ((s.rowsOf c).row? id) id payload).id = id := by
  rcases isOpen_of_storeOf? hstore with ⟨ctx, _, hget⟩
  rw [rowsOf_of_storeOf? hstore]
  exact Rows.id_written (fun row hrow => h.filed hget id row hrow) payload

theorem storeOf?_of_registry (h : Sound s) {key : UInt64} {e : Entry T}
    (he : (s.registry c).get? key = some e) : ∃ store, s.storeOf? c = some store := by
  rcases isOpen_of_registry he with ⟨ctx, hctx, _⟩
  rcases Option.isSome_iff_exists.1 (h.opened hctx).2 with ⟨store, hstore⟩
  refine ⟨store, ?_⟩
  rw [storeOf?, hctx]
  exact hstore

/-- An entity that a save wrote stands for the row it was written to. -/
theorem stands_commit (hs : Sound s) {changes : Changes}
    (hcollect : s.collect c (s.registry c).values = .ok changes) {key : UInt64} {e : Entry T}
    (he : ((s.commit c changes).2.registry c).get? key = some e) {row : Row}
    (hrow : ((s.commit c changes).2.rowsOf c).row? e.id = some row) :
    (s.commit c changes).2.Stands c e row := by
  -- what is registered after the commit was live before it, so it has been written
  rcases get?_registry_commit.1 he with ⟨old, hold, hlive, rfl⟩
  rcases storeOf?_of_registry hs hold with ⟨store, hstore⟩
  have hkey : (s.registry c).get? old.id.key = some old := by
    rw [(hs.lodged hold).key]
    exact hold
  rcases row?_commit_of_live hs hstore hcollect hkey rfl hlive with ⟨payload, hsavable, hwritten⟩
  have hsame : Row.written ((s.rowsOf c).row? old.id) old.id payload = row :=
    Option.some.inj (hwritten.symm.trans hrow)
  rcases hsavable.entity with ⟨m, hm, hfilling, hguard, hencode⟩
  have hdeleted : m.deleted = false := by
    have hslot : s.entity? old.handle.slot = some m := hm
    simpa [entryDeleted, isDeleted, hslot] using hlive
  have hpublished : m.published = Model.published m.state :=
    hs.settled hm hfilling (by rw [hguard]; exact fun h => Guard.noConfusion h)
  rcases entity?_commit s c changes old.slot with ⟨kept, hkept⟩
  rw [hm] at hkept
  refine ⟨hsame ▸ hs.id_written hstore old.id payload, rfl, _, hkept, hdeleted, hfilling,
    hpublished, Or.inl ⟨payload, hencode, ?_⟩⟩
  rw [← hsame]
  exact same_written _ _ payload

theorem Upholds.commit (h : s.Upholds L) (hs : Sound s) {changes : Changes}
    (hcollect : s.collect c (s.registry c).values = .ok changes) :
    (s.commit c changes).2.Upholds (L.after (s.commit c changes).2 (.saved c)) := by
  have hafter : Sound (s.commit c changes).2 := hs.commit c changes
  intro d key e row he hrow
  simp only [Ledger.after] at hrow
  split at hrow
  · next e' hfind =>
    -- the ledger goes by slots, and a slot belongs to one entry
    rcases SortedMap.mem_values_iff.1 (List.mem_of_find?_eq_some hfind) with ⟨key', he'⟩
    have hslot : e'.slot = e.slot := by
      simpa using List.find?_some hfind
    rcases hafter.slots he' he hslot with ⟨rfl, rfl⟩
    cases Option.some.inj (he'.symm.trans he)
    exact stands_commit hs hcollect he hrow
  · next hfind =>
    -- an entry of the context that was saved would have been found by its slot
    have hd : d ≠ c := by
      intro hd
      subst hd
      have hnone := List.find?_eq_none.1 hfind e (SortedMap.mem_values_iff.2 ⟨key, he⟩)
      exact hnone (by simp)
    rw [registry_commit_of_ne _ hd] at he
    refine (h _ _ _ _ he hrow).of_entity ?_
    intro m hm
    rcases entity?_commit s c changes e.slot with ⟨kept, hkept⟩
    rw [hm] at hkept
    exact ⟨_, hkept, rfl, rfl, rfl, rfl⟩

/-! ## Every step -/

theorem Step.upholds (h : Step s deed s') (hs : Sound s) (hL : s.Upholds L) :
    s'.Upholds (L.after s' deed) := by
  cases h with
  | report event => exact hL.of_registry rfl fun he => he
  | note remark => exact hL.of_registry rfl fun he => he
  | openStore schema settings => exact hL.of_registry rfl fun he => he
  | openContext i hi => exact hL.of_registry rfl registry_of_openContext
  | closeContext c => exact hL.of_registry rfl registry_of_closeContext
  | regard hm hregarded => exact hL.regard hm hregarded
  | confirm slot => exact hL.confirm slot
  | @insert c store k hstore =>
    -- the slot is new, and there is no row for what has just been inserted
    rcases isOpen_of_storeOf? hstore with ⟨ctx, hctx, _⟩
    have hnumbered : (s.modifyStoreOf c fun old =>
        { old with nextKey := store.nextKey + 1 }).Upholds L :=
      hL.of_registry entities_modifyStoreOf fun he => registry_modifyStoreOf ▸ he
    have hsound : Sound (s.modifyStoreOf c fun old =>
        { old with nextKey := store.nextKey + 1 }) :=
      hs.modifyStoreOf fun _ _ hfiled => hfiled
    have henrolled : (((s.modifyStoreOf c fun old =>
        { old with nextKey := store.nextKey + 1 }).enroll c k ⟨T.entityName k, store.nextKey⟩
          (T.blank k) true).Upholds fun n => if n = _ then none else L n) :=
      hnumbered.enroll hsound (context?_modifyStoreOf.trans hctx) fun _ hnone => by cases hnone
    rw [entities_modifyStoreOf] at henrolled
    exact henrolled.of_registry rfl fun he => he
  | @load c k row v hrow hname hnew hdecode =>
    rcases storeOf?_of_row? hrow with ⟨store, hstore, _⟩
    rcases isOpen_of_storeOf? hstore with ⟨ctx, hctx, _⟩
    refine hL.enroll hs hctx ?_
    intro row' hrow'
    cases Option.some.inj hrow'
    exact ⟨rfl, rfl, Or.inr ⟨v, hdecode, rfl⟩⟩
  | edit hm hedited => exact hL.modifyEntity _ _
  | delete slot => exact hL.modifyEntity slot _
  | save hcollect => exact hL.commit hs hcollect
  | restore hstore hrestore => exact hL.of_registry rfl fun he => he

/-- However its steps are interleaved, a session upholds its ledger. -/
theorem Tracked.upholds (h : Tracked allow s L) : s.Upholds L := by
  induction h with
  | empty =>
    intro c key e row he
    cases he
  | step hprev hstep _ ih => exact hstep.upholds hprev.sound ih

end Session

end Reconcile
