import Reconcile.Proofs.Session.Readiness
import Reconcile.Proofs.Session.Reconciling

/-!
# What a context makes where there is nothing to read

If the store of a context has no rows, then whatever comes into the registry was inserted by the
context itself, and is pending.  Reconciling plain values leaves it in nobody's use, and uses what
was there before as it was used (`AddsPending`): what is taken out for a fill is put back.
-/

namespace Reconcile

open Session

variable {T : Model} {k l : T.Kind} {s s₁ s' s'' : Session T} {c d : ContextId} {scope : Scope}

namespace Session

/-- The store of the context has no rows, what came into its registry is pending and unused, and
what was there is used as before. -/
structure AddsPending (s s' : Session T) (c : ContextId) : Prop where
  rows : s'.rowsOf c = .empty
  schemaOf : s'.schemaOf c = s.schemaOf c
  entry : ∀ key e m', (s'.registry c).get? key = some e → s'.entity? e.slot = some m' →
    (e.pending = true ∧ m'.Unused) ∨ ∃ m, (s.registry c).get? key = some e ∧
      s.entity? e.slot = some m ∧ m'.filling = m.filling ∧ m'.guard = m.guard

namespace AddsPending

theorem refl (hrows : s.rowsOf c = .empty) : AddsPending s s c :=
  ⟨hrows, rfl, fun _ _ m he hm => Or.inr ⟨m, he, hm, rfl, rfl⟩⟩

theorem trans (h : AddsPending s s' c) (h' : AddsPending s' s'' c) : AddsPending s s'' c := by
  refine ⟨h'.rows, h'.schemaOf.trans h.schemaOf, ?_⟩
  intro key e m'' he hm
  rcases h'.entry key e m'' he hm with hnew | ⟨m', he', hm', hfilling', hguard'⟩
  · exact Or.inl hnew
  · rcases h.entry key e m' he' hm' with ⟨hpending, hunused⟩ | ⟨m, hold, hm₀, hfilling, hguard⟩
    · exact Or.inl ⟨hpending, hfilling'.trans hunused.1, hguard'.trans hunused.2⟩
    · exact Or.inr ⟨m, hold, hm₀, hfilling'.trans hfilling, hguard'.trans hguard⟩

/-- Where there are no rows, nothing comes in from reading, in whatever context. -/
theorem of_loads (hs : Sound s) (hrows : s.rowsOf c = .empty)
    (hloads : Loads s s' d k (s.rowsNamed d k)) : AddsPending s s' c := by
  refine ⟨(hloads.rowsOf c).trans hrows, hloads.schemaOf c, ?_⟩
  intro key e m' he hm'
  rcases hloads.entry c key e he with hold | ⟨rfl, _, _, row, hmem, _⟩
  · exact Or.inr ⟨m', hold, (hloads.toGrows.entity?_of_entry hs hold) ▸ hm', rfl, rfl⟩
  · have hget := mem_rowsNamed_iff.1 hmem
    rw [hrows] at hget
    cases hget

theorem report (hrows : s.rowsOf c = .empty) (event : Event) : AddsPending s (s.report event) c :=
  ⟨hrows, rfl, fun _ _ m he hm => Or.inr ⟨m, he, hm, rfl, rfl⟩⟩

theorem modifyEntity (hrows : s.rowsOf c = .empty) (slot : Nat) (f : Entity T → Entity T)
    (hfilling : ∀ m, (f m).filling = m.filling) (hguard : ∀ m, (f m).guard = m.guard) :
    AddsPending s (s.modifyEntity slot f) c := by
  refine ⟨hrows, rfl, ?_⟩
  intro key e m' he hm'
  rcases entity?_of_modifyEntity hm' with ⟨m, _, hm, rfl⟩ | ⟨_, hm⟩
  · exact Or.inr ⟨m, he, hm, hfilling m, hguard m⟩
  · exact Or.inr ⟨m', he, hm, rfl, rfl⟩

theorem insertUnder (hs : Sound s) (hrows : s.rowsOf c = .empty) {store : Store}
    (hstore : s.storeOf? c = some store) (key : UInt64) :
    AddsPending s (s.insertUnder c k key) c := by
  refine ⟨rowsOf_insertUnder_self.trans hrows, schemaOf_insertUnder_self, ?_⟩
  intro key' e m' he hm'
  rcases entry_of_insertUnder hstore he with ⟨_, rfl⟩ | hold
  · cases hm'.symm.trans entity?_insertUnder_new
    exact Or.inl ⟨rfl, Entity.unused_new k _ true⟩
  · rcases (hs.lodged hold).entity with ⟨m, hm, _⟩
    cases hm'.symm.trans (entity?_insertUnder hm)
    exact Or.inr ⟨m', hold, hm, rfl, rfl⟩

/-- An entity that was taken out and is put back is used as before. -/
theorem putBack {h : Handle k} {m out : Entity T} (hm : s.entity? h.slot = some m)
    (hfree : m.filling = false) (hguard : out.guard = m.guard)
    (hbody : AddsPending (s.modifyEntity h.slot fun _ => out) s' c) (v : T.Value k) :
    AddsPending s (s'.checkIn h v) c := by
  refine ⟨hbody.rows, hbody.schemaOf, ?_⟩
  intro key e m'' he hm''
  have hchecked : (s'.modifyEntity h.slot fun m => m.checkIn v).entity? e.slot = some m'' := hm''
  rcases entity?_of_modifyEntity hchecked with ⟨m', hslot, hm', rfl⟩ | ⟨hslot, hkept⟩
  · rcases hbody.entry key e m' he hm' with ⟨hpending, hunused⟩ | ⟨m₀, hold, hm₀, _, hguard'⟩
    · exact Or.inl ⟨hpending, hunused.checkIn v⟩
    · rw [← hslot] at hm₀ ⊢
      cases hm₀.symm.trans (entity?_modifyEntity_self hm fun _ => out)
      exact Or.inr ⟨m, hold, hm, hfree.symm, hguard'.trans hguard⟩
  · rcases hbody.entry key e m'' he hkept with hnew | ⟨m₀, hold, hm₀, hsame⟩
    · exact Or.inl hnew
    · have hold' : (s.modifyEntity h.slot fun _ => out).entity? e.slot = s.entity? e.slot :=
        entity?_modifyEntity_of_ne s (fun heq => hslot heq.symm) fun _ => out
      exact Or.inr ⟨m₀, hold, hold'.symm.trans hm₀, hsame⟩

end AddsPending

/-- As long as there is nothing to read, all that comes into the registry of the context is its
own. -/
structure Originates (c : ContextId) (s s' : Session T) : Prop where
  advances : Advances s s'
  adds : Sound s → s.rowsOf c = .empty → AddsPending s s' c

theorem Originates.trans (h : Originates c s s') (h' : Originates c s' s'') :
    Originates c s s'' := by
  refine ⟨reads_advances.trans h.advances h'.advances, ?_⟩
  intro hs hrows
  have hadds := h.adds hs hrows
  exact hadds.trans (h'.adds ((h.advances hs).run.sound hs) hadds.rows)

theorem reads_originates (c : ContextId) : Reads (fun _ => True) (Originates (T := T) c) where
  refl s := ⟨reads_advances.refl s, fun _ hrows => AddsPending.refl hrows⟩
  trans := Originates.trans
  report s event := ⟨reads_advances.report s event, fun _ hrows => AddsPending.report hrows event⟩
  locate k hk scope id s := by
    refine ⟨reads_advances.locate k hk scope id s, ?_⟩
    intro hs hrows
    exact AddsPending.of_loads hs hrows (locates hs scope k id).loads

theorem originates_markDeleted (c : ContextId) (s : Session T) (slot : Nat) :
    Originates c s (s.modifyEntity slot fun m => { m with deleted := true }) :=
  ⟨advances_markDeleted s slot,
    fun _ hrows => AddsPending.modifyEntity hrows slot _ (fun _ => rfl) fun _ => rfl⟩

theorem originates_findByKey (c : ContextId) (scope : Scope) (k : T.Kind)
    (key : Option NaturalKey) : Work.Leads (Originates c) (scope.findByKey k key) := by
  have hreads := reads_originates (T := T) c
  cases key with
  | none => exact hreads.pure _
  | some key =>
    refine hreads.bind (hreads.bind ?_ ?_) fun _ => hreads.pure _
    · intro s
      refine ⟨fun hs => (run_fetch hs scope k _).proceeds, ?_⟩
      intro hs hrows
      exact AddsPending.of_loads hs hrows (loads_fetch hs scope k _)
    · intro found
      cases found with
      | ok found => exact hreads.pure _
      | error fault => exact hreads.bind (hreads.modifyReport _) fun _ => hreads.pure _

theorem originates_insertOrReport (scope : Scope) (k : T.Kind) :
    Work.Leads (Originates scope.context) (scope.insertOrReport k) := by
  intro s
  refine ⟨advances_insertOrReport scope k s, ?_⟩
  intro hs hrows
  rcases insert_cases scope k s with ⟨fault, hfault, _⟩ | ⟨store, hstore, hinsert⟩
  · simp only [Scope.insertOrReport, Work.bind_apply, hfault]
    exact AddsPending.report hrows _
  · simp only [Scope.insertOrReport, Work.bind_apply, hinsert]
    exact AddsPending.insertUnder hs hrows hstore store.nextKey

end Session

namespace Mapping

variable {M : Mapping T}

theorem originates_findOrInsertUnique (scope : Scope) (p : M.Plain k) :
    Work.Leads (Originates scope.context) (M.findOrInsertUnique scope p) := by
  refine (reads_originates _).bind (originates_findByKey _ scope k _) ?_
  intro found
  cases found with
  | some h => exact (reads_originates _).pure _
  | none => exact originates_insertOrReport scope k

variable {kinds : T.Kind → Prop}

/-- Fills of these types make what is new themselves, if what they reconcile does. -/
def Originating (M : Mapping T) (kinds : T.Kind → Prop) (scope : Scope) : Prop :=
  ∀ k, kinds k → ∀ (p : M.Plain k) (nested : Reconciler T M.Plain M.weight (M.weight p))
    (this : EntityId) (v : T.Value k),
    (∀ l, kinds l → ∀ (q : M.Plain l) hq (g : T.Value l → T.Value l),
      (nested l q hq fun v => return g v).Leads (Originates scope.context)) →
    (M.fill p nested scope this v).Leads (Originates scope.context)

theorem addsPending_showPreview (scope : Scope) (hrows : s.rowsOf c = .empty) (h : Handle k)
    (v : T.Value k) (key : Option NaturalKey) :
    AddsPending s (scope.showPreview h v key s).2 c := by
  rw [Scope.showPreview]
  rcases scope.preview v key with fault | ⟨shown, payload⟩
  · exact AddsPending.report hrows _
  · exact AddsPending.modifyEntity hrows h.slot _ (fun _ => rfl) fun _ => rfl

/-- Between taking the value out and putting it back there are a preview and a fill. -/
theorem addsPending_refill (hfills : M.Originating kinds scope) {m : Entity T}
    {h : Handle m.kind} (hk : kinds m.kind) (p : M.Plain m.kind) {bound : Nat}
    (hp : M.weight p < bound + 1)
    (hnested : ∀ l, kinds l → ∀ (q : M.Plain l) hq (g : T.Value l → T.Value l),
      (M.nested scope hp l q hq fun v => return g v).Leads (Originates scope.context))
    (hs : Sound s) (hrows : s.rowsOf scope.context = .empty) (hm : s.entity? h.slot = some m)
    (hfree : m.filling = false) (g : T.Value m.kind → T.Value m.kind) :
    AddsPending s (M.refill scope hp (fun v => return g v) h (m.value m.kind)
      (s.modifyEntity h.slot fun _ =>
        { m.withState (T.blank m.kind) with filling := true })).2 scope.context := by
  let s₁ := s.modifyEntity h.slot fun _ => { m.withState (T.blank m.kind) with filling := true }
  have hcheckedOut : CheckedOut s₁ h := ⟨_, entity?_modifyEntity_self hm _, rfl, rfl⟩
  have hs₁ : Sound s₁ :=
    (proceeds_edit hm (Entity.edited_checkOut m (T.blank m.kind)) fun _ => rfl).run.sound hs
  have hproceeds := proceeds_showPreview scope hcheckedOut (g (m.value m.kind)) (M.naturalKey p)
  have hrows₁ : s₁.rowsOf scope.context = .empty := hrows
  have hpreview := addsPending_showPreview scope hrows₁ h (g (m.value m.kind)) (M.naturalKey p)
  rcases hshown : scope.showPreview h (g (m.value m.kind)) (M.naturalKey p) s₁ with ⟨_, s₂⟩
  rw [hshown] at hproceeds hpreview
  rcases hfilled : M.fill p (M.nested scope hp) scope h.id (g (m.value m.kind)) s₂ with ⟨w, s₃⟩
  have hfill := hfills m.kind hk p (M.nested scope hp) h.id (g (m.value m.kind)) hnested s₂
  rw [hfilled] at hfill
  have hbody := hpreview.trans (hfill.adds (hproceeds.run.sound hs₁) hpreview.rows)
  have hguard : ({ m.withState (T.blank m.kind) with filling := true } : Entity T).guard =
      m.guard := rfl
  have hrefilled : (M.refill scope hp (fun v => return g v) h (m.value m.kind) s₁).2 =
      s₃.checkIn h w := refill_snd rfl hshown hfilled
  exact hrefilled ▸ AddsPending.putBack hm hfree hguard hbody w

theorem originates_reconcileBelow (hM : M.Lawful) (hfills : M.Originating kinds scope) (bound : Nat)
    (hk : kinds k) (p : M.Plain k) (hp : M.weight p < bound) (g : T.Value k → T.Value k) :
    Work.Leads (Originates scope.context)
      (M.reconcileBelow scope bound k p hp fun v => return g v) := by
  -- by induction on the bound, as fills reconcile lighter plain values
  induction bound generalizing k with
  | zero => exact absurd hp (Nat.not_lt_zero _)
  | succ bound ih =>
    intro s
    refine ⟨hM.reconcileBelow scope (bound + 1) k p hp _ (fun v => reads_advances.pure (g v)) s, ?_⟩
    intro hs hrows
    have hfirst : ∀ {found s₁}, M.findOrInsertUnique scope p s = (found, s₁) →
        AddsPending s s₁ scope.context := by
      intro found s₁ hfound
      have hadds := (originates_findOrInsertUnique (M := M) scope p s).adds hs hrows
      rwa [hfound] at hadds
    rcases reconcileBelow_cases hs scope hp fun v => return g v with ⟨s₁, hfound, hend⟩ |
      ⟨h, s₁, m, hfound, hm, _, _, hend⟩ | ⟨h, s₁, m, hfound, hm, rfl, hfree, hend⟩
    · rw [hend]
      exact hfirst hfound
    · rw [hend]
      exact (hfirst hfound).trans (AddsPending.report (hfirst hfound).rows _)
    · have hs₁ : Sound s₁ := (proceeds_findOrInsertUnique hs hfound).run.sound hs
      have hadds := hfirst hfound
      rw [hend]
      exact hadds.trans (addsPending_refill hfills hk p hp (fun l hl q hq g => ih hl q _ g) hs₁
        hadds.rows hm hfree g)

end Mapping

end Reconcile
