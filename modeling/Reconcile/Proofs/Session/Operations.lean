import Reconcile.Proofs.Session.Ledger
import Reconcile.Proofs.Session.Reading

/-!
# Operations are made of steps

What a context is asked to do changes the session by steps, and by no other deeds than its name
says: reading only reads, whatever is asked for; inserting, deleting, saving and confirming ids are
one step each; writing to an entity changes that entity alone.

A work *proceeds* if it imports nothing and leaves entities that fill to whoever fills them.
-/

namespace Reconcile

theorem Deed.Reading.native {deed : Deed} (h : deed.Reading) : deed.Native := by
  cases deed <;> trivial

namespace Session

variable {T : Model} {s s' s'' : Session T} {k : T.Kind} {deed : Deed} {allow : Deed → Prop}

/-! ## Entities along a run -/

/-- No step changes the type of an entity, and whoever fills an entity is the only one to end
that. -/
theorem Step.entity (h : Step s deed s') {n : Nat} {m : Entity T} (hm : s.entity? n = some m) :
    ∃ m', s'.entity? n = some m' ∧ m'.kind = m.kind ∧
      ((∀ slot, deed ≠ .changed slot) → m'.filling = m.filling) := by
  rcases h.entityFate hm with ⟨m', hm', hfate⟩
  refine ⟨m', hm', ?_⟩
  cases hfate with
  | regarded hregarded => exact ⟨hregarded.kind, fun _ => hregarded.filling⟩
  | confirmed => exact ⟨rfl, fun _ => rfl⟩
  | edited hedited => exact ⟨hedited.kind, fun hdeed => absurd rfl (hdeed _)⟩
  | deleted => exact ⟨rfl, fun _ => rfl⟩

theorem Run.kind (h : Run allow s s') {n : Nat} {m : Entity T} (hm : s.entity? n = some m) :
    ∃ m', s'.entity? n = some m' ∧ m'.kind = m.kind := by
  refine h.induct (P := fun s' => ∃ m', s'.entity? n = some m' ∧ m'.kind = m.kind) ?_ ⟨m, hm, rfl⟩
  rintro a b deed _ hstep ⟨m', hm', hkind⟩
  rcases hstep.entity hm' with ⟨m'', hm'', hkind', _⟩
  exact ⟨m'', hm'', hkind'.trans hkind⟩

theorem size_le_of_entity? (h : ∀ n m, s.entity? n = some m → ∃ m', s'.entity? n = some m') :
    s.entities.size ≤ s'.entities.size := by
  by_contra hlt
  rcases entity?_of_lt_size (Nat.not_le.1 hlt) with ⟨m, hm⟩
  rcases h _ m hm with ⟨m', hm'⟩
  exact Nat.lt_irrefl _ (lt_size_of_entity? hm')

theorem Run.size_le (h : Run allow s s') :
    s.entities.size ≤ s'.entities.size := by
  refine size_le_of_entity? ?_
  intro n m hm
  rcases h.kind hm with ⟨m', hm', _⟩
  exact ⟨m', hm'⟩

/-! ## Reading -/

/-- A sound session gets to the other one by steps that are allowed. -/
def Reaches (allow : Deed → Prop) (s s' : Session T) : Prop := Sound s → Run allow s s'

/-- The handle refers to an entity of its type. -/
def Holds (s : Session T) (h : Handle k) : Prop :=
  ∃ m, s.entity? h.slot = some m ∧ m.kind = k

theorem Holds.run {h : Handle k} (hholds : s.Holds h) (hrun : Run allow s s') : s'.Holds h := by
  rcases hholds with ⟨m, hm, hkind⟩
  rcases hrun.kind hm with ⟨m', hm', hkind'⟩
  exact ⟨m', hm', hkind'.trans hkind⟩

theorem Sound.holds_of_entry (hs : Sound s) {c : ContextId} {key : UInt64} {e : Entry T}
    (he : (s.registry c).get? key = some e) {h : Handle k} (hhandle : e.handle? k = some h) :
    s.Holds h := by
  rcases handle?_eq_some_iff.1 hhandle with ⟨hkind, rfl⟩
  rcases (hs.lodged he).entity with ⟨m, hm, hkind'⟩
  exact ⟨m, hm, hkind'.trans hkind⟩

/-- Looking up an id fails without a trace, finds the entity in the registry, or reads its row. -/
theorem locate_cases (hs : Sound s) (scope : Scope) (k : T.Kind) (id : EntityId) :
    (∃ fault, (scope.locate k id).outcome s = (.error fault, s)) ∨
    (∃ e h, id.entity = T.entityName k ∧ (s.registry scope.context).get? id.key = some e ∧
      s.entryDeleted e = false ∧ e.handle? k = some h ∧
      (scope.locate k id).outcome s = (.ok h, s)) ∨
    ∃ row v, row.id = id ∧ id.entity = T.entityName k ∧
      (s.rowsOf scope.context).row? row.id = some row ∧
      (s.registry scope.context).get? row.id.key = none ∧
      T.decode k (some scope.context) row.payload = some v ∧
      (scope.locate k id).outcome s = (.ok ⟨s.entities.size, row.id, scope.context⟩,
        s.enroll scope.context k row.id v false) := by
  unfold Scope.locate
  dsimp only
  by_cases hname : id.entity = T.entityName k
  · rw [if_neg (not_not.2 hname), Attempt.outcome_bind_of_ok (Attempt.outcome_get s)]
    cases hentry : (s.registry scope.context).get? id.key with
    | some e =>
      dsimp only
      cases hlive : s.entryDeleted e with
      | true => exact Or.inl ⟨_, rfl⟩
      | false =>
        cases hhandle : e.handle? k with
        | none => exact Or.inl ⟨_, rfl⟩
        | some h => exact Or.inr (Or.inl ⟨e, h, hname, rfl, hlive, hhandle, rfl⟩)
    | none =>
      dsimp only
      cases hrow : (s.rowsOf scope.context).row? id with
      | none => exact Or.inl ⟨_, rfl⟩
      | some row =>
        obtain rfl : row.id = id := hs.filed_rowsOf _ id row hrow
        dsimp only
        cases hdecode : T.decode k (some scope.context) row.payload with
        | none => exact Or.inl ⟨_, materialize_of_undecodable hdecode⟩
        | some v =>
          exact Or.inr (Or.inr ⟨row, v, rfl, hname, hrow, hentry, hdecode,
            materialize_of_decoded hdecode⟩)
  · rw [if_pos hname]
    exact Or.inl ⟨_, rfl⟩

/-- What looking up an id does, whether it finds an entity or not: it reads the row if need be. -/
structure Locates (s : Session T) (c : ContextId) (k : T.Kind)
    (out : Except Fault (Handle k) × Session T) : Prop where
  run : Run Deed.Reading s out.2
  loads : Loads s out.2 c k (s.rowsNamed c k)
  holds : ∀ h, out.1 = .ok h → out.2.Holds h

theorem locates (hs : Sound s) (scope : Scope) (k : T.Kind) (id : EntityId) :
    s.Locates scope.context k ((scope.locate k id).outcome s) := by
  rcases locate_cases hs scope k id with ⟨fault, hout⟩ | ⟨e, h, _, hentry, _, hhandle, hout⟩ |
    ⟨row, v, rfl, hname, hrow, hnew, hdecode, hout⟩
  · rw [hout]
    exact ⟨Run.refl s, Loads.refl s _ k _, fun h hh => by cases hh⟩
  · rw [hout]
    refine ⟨Run.refl s, Loads.refl s _ k _, ?_⟩
    intro h' hh'
    cases hh'
    exact hs.holds_of_entry hentry hhandle
  · rw [hout]
    rcases storeOf?_of_row? hrow with ⟨store, hstore, _⟩
    rcases isOpen_of_storeOf? hstore with ⟨ctx, hctx, _⟩
    refine ⟨(Step.load hrow hname hnew hdecode).run trivial,
      (loads_enroll hctx hnew hdecode).mono ?_, ?_⟩
    · intro entry hmem
      rw [List.mem_singleton.1 hmem, mem_rowsNamed_iff, ← hname]
      exact hrow
    · intro h' hh'
      cases hh'
      exact ⟨_, entity?_enroll_new, rfl⟩

theorem run_locate (hs : Sound s) (scope : Scope) (k : T.Kind) (id : EntityId) :
    Run Deed.Reading s ((scope.locate k id).outcome s).2 := (locates hs scope k id).run

theorem reads_reaches (hallow : ∀ deed, deed.Reading → allow deed) :
    Reads (fun _ => True) (Reaches (T := T) allow) where
  refl s _ := Run.refl s
  trans h h' hs := (h hs).trans (h' ((h hs).sound hs))
  report s event _ := (Step.report s event).run (hallow _ trivial)
  locate k _ scope id _ hs := (run_locate hs scope k id).mono hallow

theorem run_fetch (hs : Sound s) (scope : Scope) (k : T.Kind) (q : Query) :
    Run Deed.Reading s ((scope.fetch k q).outcome s).2 := (fetch_spec hs scope k q).1

theorem reaches_fetchOrReport (scope : Scope) (k : T.Kind) (q : Query) :
    Work.Leads (Reaches Deed.Reading) (scope.fetchOrReport k q) := by
  have hreads : Reads (fun _ => True) (Reaches (T := T) Deed.Reading) :=
    reads_reaches fun _ h => h
  refine hreads.bind (fun s hs => run_fetch hs scope k q) ?_
  intro found
  cases found with
  | ok found => exact hreads.pure _
  | error fault => exact hreads.bind (hreads.modifyReport _) fun _ => hreads.pure _

theorem reaches_findByKey (scope : Scope) (k : T.Kind) (key : Option NaturalKey) :
    Work.Leads (Reaches Deed.Reading) (scope.findByKey k key) := by
  have hreads : Reads (fun _ => True) (Reaches (T := T) Deed.Reading) :=
    reads_reaches fun _ h => h
  cases key with
  | none => exact hreads.pure _
  | some key => exact hreads.bind (reaches_fetchOrReport scope k _) fun _ => hreads.pure _

/-! ## Work that proceeds -/

/-- Further steps of any kind other than an import, which leave entities that fill. -/
structure Proceeds (s s' : Session T) : Prop where
  run : Run Deed.Native s s'
  filling : ∀ n m, s.entity? n = some m → m.filling = true →
    ∃ m', s'.entity? n = some m' ∧ m'.filling = true

/-- A sound session proceeds to the other one. -/
def Advances (s s' : Session T) : Prop := Sound s → Proceeds s s'

theorem Proceeds.refl (s : Session T) : Proceeds s s :=
  ⟨Run.refl s, fun _ m hm hfilling => ⟨m, hm, hfilling⟩⟩

theorem Proceeds.trans (h : Proceeds s s') (h' : Proceeds s' s'') : Proceeds s s'' := by
  refine ⟨h.run.trans h'.run, ?_⟩
  intro n m hm hfilling
  rcases h.filling n m hm hfilling with ⟨m', hm', hfilling'⟩
  exact h'.filling n m' hm' hfilling'

theorem Step.proceeds (h : Step s deed s') (hnative : deed.Native)
    (hdeed : ∀ slot, deed ≠ .changed slot) : Proceeds s s' := by
  refine ⟨h.run hnative, ?_⟩
  intro n m hm hfilling
  rcases h.entity hm with ⟨m', hm', _, hkept⟩
  exact ⟨m', hm', (hkept hdeed).trans hfilling⟩

theorem proceeds_edit {n : Nat} {m m' : Entity T} (hm : s.entity? n = some m)
    (hedited : m.Edited m') (hfilling : m.filling = true → m'.filling = true) :
    Proceeds s (s.modifyEntity n fun _ => m') := by
  refine ⟨(Step.edit hm hedited).run trivial, ?_⟩
  intro i e he hfills
  by_cases hi : i = n
  · subst hi
    cases hm.symm.trans he
    exact ⟨m', entity?_modifyEntity_self hm _, hfilling hfills⟩
  · exact ⟨e, (entity?_modifyEntity_of_ne s hi _).trans he, hfills⟩

theorem Run.proceeds (h : Run Deed.Reading s s') : Proceeds s s' := by
  refine h.induct (P := fun s' => Proceeds s s') ?_ (Proceeds.refl s)
  intro a b deed hdeed hstep ih
  refine ih.trans (hstep.proceeds hdeed.native ?_)
  rintro slot rfl
  exact hdeed

theorem reads_advances : Reads (fun _ => True) (Advances (T := T)) where
  refl s _ := Proceeds.refl s
  trans h h' hs := (h hs).trans (h' ((h hs).run.sound hs))
  report s event _ := (Step.report s event).proceeds trivial fun _ hdeed => by cases hdeed
  locate k _ scope id _ hs := (run_locate hs scope k id).proceeds

theorem advances_markDeleted (s : Session T) (slot : Nat) :
    Advances s (s.modifyEntity slot fun e => { e with deleted := true }) :=
  fun _ => (Step.delete s slot).proceeds trivial fun _ hdeed => by cases hdeed

/-! ## Inserting, saving and confirming -/

/-- What an insertion does: it fails without a trace, or enrolls a blank entity. -/
theorem insert_cases (scope : Scope) (k : T.Kind) (s : Session T) :
    (∃ fault, (scope.insert k).outcome s = (.error fault, s) ∧
      (s.schemaOf scope.context).require (T.entityName k) = .error fault) ∨
    ∃ store, s.storeOf? scope.context = some store ∧
      (scope.insert k).outcome s =
        (.ok ⟨s.entities.size, ⟨T.entityName k, store.nextKey⟩, scope.context⟩,
          s.insertUnder scope.context k store.nextKey) := by
  unfold Scope.insert
  dsimp only
  cases hrequire : (s.schemaOf scope.context).require (T.entityName k) with
  | error fault =>
    refine Or.inl ⟨fault, ?_, rfl⟩
    refine (Attempt.outcome_bind_of_ok (Attempt.outcome_get s)).trans ?_
    rw [hrequire]
    exact Attempt.outcome_bind_of_error (Attempt.outcome_ofExcept _ s)
  | ok d =>
    cases hstore : s.storeOf? scope.context with
    | none =>
      -- without a store no type is described
      rw [schemaOf, hstore] at hrequire
      cases hrequire
    | some store =>
      refine Or.inr ⟨store, rfl, ?_⟩
      refine (Attempt.outcome_bind_of_ok (Attempt.outcome_get s)).trans ?_
      rw [hrequire]
      refine (Attempt.outcome_bind_of_ok (Attempt.outcome_ofExcept _ s)).trans ?_
      refine (Attempt.outcome_bind_of_ok (Attempt.outcome_get s)).trans ?_
      rw [hstore]
      have hsize : (s.modifyStoreOf scope.context fun old =>
          { old with nextKey := store.nextKey + 1 }).entities.size = s.entities.size := by
        rw [entities_modifyStoreOf]
      rw [← hsize]
      rfl

theorem advances_insert (scope : Scope) (k : T.Kind) :
    Work.Leads Advances (scope.insert k).outcome := by
  intro s _
  rcases insert_cases scope k s with ⟨fault, hfault, _⟩ | ⟨store, hstore, hinsert⟩
  · rw [hfault]
    exact Proceeds.refl s
  · rw [hinsert]
    exact (Step.insert k hstore).proceeds trivial fun _ hdeed => by cases hdeed

theorem advances_insertOrReport (scope : Scope) (k : T.Kind) :
    Work.Leads Advances (scope.insertOrReport k) := by
  refine reads_advances.bind (advances_insert scope k) ?_
  intro inserted
  cases inserted with
  | ok h => exact reads_advances.pure _
  | error fault =>
    exact reads_advances.bind (reads_advances.modifyReport _) fun _ => reads_advances.pure _

/-- A save fails without a trace, or commits what it collected. -/
theorem save_cases (scope : Scope) (s : Session T) :
    (∃ fault, s.collect scope.context (s.registry scope.context).values = .error fault ∧
      (scope.save (T := T)).outcome s = (.error fault, s)) ∨
    ∃ changes, s.collect scope.context (s.registry scope.context).values = .ok changes ∧
      (scope.save (T := T)).outcome s =
        (.ok (s.commit scope.context changes).1, (s.commit scope.context changes).2.report
          (.saved scope.context (s.commit scope.context changes).1)) := by
  unfold Scope.save
  cases hcollect : s.collect scope.context (s.registry scope.context).values with
  | error fault =>
    refine Or.inl ⟨fault, rfl, (Attempt.outcome_bind_of_ok (Attempt.outcome_get s)).trans ?_⟩
    rw [hcollect]
    exact Attempt.outcome_bind_of_error (Attempt.outcome_ofExcept _ s)
  | ok changes =>
    refine Or.inr ⟨changes, rfl, (Attempt.outcome_bind_of_ok (Attempt.outcome_get s)).trans ?_⟩
    rw [hcollect]
    exact Attempt.outcome_bind_of_ok (Attempt.outcome_ofExcept _ s)

theorem advances_save (scope : Scope) : Work.Leads Advances (scope.save (T := T)).outcome := by
  intro s _
  rcases save_cases scope s with ⟨fault, _, hfault⟩ | ⟨changes, hcollect, hsave⟩
  · rw [hfault]
    exact Proceeds.refl s
  · rw [hsave]
    have hcommit := (Step.save hcollect).proceeds trivial fun _ hdeed => by cases hdeed
    exact hcommit.trans ((Step.report _ _).proceeds trivial fun _ hdeed => by cases hdeed)

/-- A snapshot that is refused leaves the store as it was. -/
theorem run_restore (i : StoreId) (snapshot : Snapshot) (s : Session T) :
    Run (fun _ => True) s ((i.restore (T := T) snapshot).outcome s).2 := by
  unfold StoreId.restore
  refine Attempt.bind_state (P := Run (fun _ => True) s) (Run.refl s) ?_
  intro s₁ hs₁
  cases (Prod.mk.inj hs₁).1
  cases hstore : s.store? i with
  | none => exact Run.refl s
  | some store =>
    refine Attempt.bind_state (P := Run (fun _ => True) s) ?_ ?_
    · rw [Attempt.outcome_ofExcept]
      exact Run.refl s
    · intro restored hrestored
      rw [Attempt.outcome_ofExcept] at hrestored ⊢
      have hstep := Step.restore hstore (Prod.mk.inj hrestored).1
      exact (hstep.run trivial).trans ((Step.report _ _).run trivial)

/-! ## Writing -/

theorem modifyEntity_of_entity? {n : Nat} {m : Entity T} (hm : s.entity? n = some m)
    (f : Entity T → Entity T) : s.modifyEntity n f = s.modifyEntity n fun _ => f m := by
  have hentities : s.entities.modify n f = s.entities.modify n fun _ => f m := by
    refine Array.ext_getElem? ?_
    intro i
    rw [Array.getElem?_modify, Array.getElem?_modify]
    split
    · next hi =>
      have hget : s.entities[i]? = some m := hi ▸ hm
      rw [hget]
      rfl
    · rfl
  rw [modifyEntity, hentities]
  rfl

theorem proceeds_write {h : Handle k} (hholds : s.Holds h) (v : T.Value k) :
    Proceeds s (s.write h v) := by
  rcases hholds with ⟨m, hm, rfl⟩
  rw [write, modifyEntity_of_entity? hm]
  refine proceeds_edit hm (Entity.edited_write v) ?_
  intro hfilling
  unfold Entity.write
  split <;> exact hfilling

theorem proceeds_release {h : Handle k} (hholds : s.Holds h) : Proceeds s (s.release h) := by
  rcases hholds with ⟨m, hm, _⟩
  rw [release, modifyEntity_of_entity? hm]
  have hfilling : m.filling = true → m.release.filling = true := by
    intro hfilling
    unfold Entity.release
    split <;> exact hfilling
  by_cases hguard : m.guard = .held true
  · exact proceeds_edit hm (Entity.edited_release hguard) hfilling
  · exact proceeds_edit hm (Entity.regarded_release hguard).edited hfilling

theorem proceeds_hold {h : Handle k} {m : Entity T} (hm : s.entity? h.slot = some m)
    (hfree : m.guard = .free) : Proceeds s (s.hold h) := by
  rw [hold, modifyEntity_of_entity? hm]
  exact (Step.regard hm (Entity.regarded_hold hfree)).proceeds trivial
    fun _ hdeed => by cases hdeed

end Session

end Reconcile
