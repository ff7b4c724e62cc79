import Reconcile.Proofs.Sample.Filling
import Reconcile.Proofs.Sample.Tidy

/-!
# No duplicates

Contexts are used one after another on a store of blogs and folders, to synchronize plain values, to
delete, to save and to read (`InTurn`).  Then no context ever sees two entities of a type with one
natural key, and neither does the store get two such rows (`no_duplicates`).

The invariant is that the context in use is tidy.  A fill reconciles further plain values while its
own entity is out of its handle, so what has to be kept in the course of a fill is more than that:
entities that fill stay as they are, unless they are deleted (`Neat`).
-/

namespace Reconcile.Sample

open Session

variable {s s₁ s' s'' : Session model} {scope : Scope} {c d : ContextId} {k : Kind}

/-! ## Changes that keep a context tidy -/

/-- Entities that fill stay as they are, unless they are deleted. -/
def Undisturbed (s s' : Session model) : Prop :=
  ∀ n m, s.entity? n = some m → m.filling = true → ∃ deleted, s'.entity? n = some { m with deleted }

theorem Undisturbed.trans (h : Undisturbed s s') (h' : Undisturbed s' s'') : Undisturbed s s'' := by
  intro n m hm hfilling
  rcases h n m hm hfilling with ⟨deleted, hm'⟩
  exact h' n { m with deleted } hm' hfilling

theorem undisturbed_of_kept (h : ∀ n m, s.entity? n = some m → s'.entity? n = some m) :
    Undisturbed s s' := fun n m hm _ => ⟨m.deleted, h n m hm⟩

/-- As long as keys are left, a tidy context stays tidy and what fills stays undisturbed. -/
structure Neat (c : ContextId) (s s' : Session model) : Prop where
  advances : Advances s s'
  tidy : Tidy c s → s'.KeysLeft → Tidy c s' ∧ Undisturbed s s'

theorem Neat.trans (h : Neat c s s') (h' : Neat c s' s'') : Neat c s s'' := by
  refine ⟨reads_advances.trans h.advances h'.advances, ?_⟩
  intro htidy hkeys
  have hs := htidy.ordered.sound
  -- keys that are left at the end were left in between
  have hkeys' : s'.KeysLeft := (h'.advances ((h.advances hs).run.sound hs)).run.keysLeft hkeys
  rcases h.tidy htidy hkeys' with ⟨htidy', hkept⟩
  rcases h'.tidy htidy' hkeys with ⟨htidy'', hkept'⟩
  exact ⟨htidy'', hkept.trans hkept'⟩

theorem neat_loads (hk : k.IsBlog)
    (hloads : Sound s → Loads s s' d k (s.rowsNamed (T := model) d k))
    (hrun : Sound s → Run Deed.Reading s s') : Neat c s s' := by
  refine ⟨fun hs => (hrun hs).proceeds, ?_⟩
  intro htidy _
  have hs := htidy.ordered.sound
  exact ⟨htidy.loads hk (hloads hs) ((hrun hs).sound hs),
    undisturbed_of_kept fun _ _ => (hloads hs).entity⟩

theorem reads_neat (c : ContextId) : Reads Kind.IsBlog (Neat c) where
  refl s := ⟨reads_advances.refl s, fun h _ => ⟨h, undisturbed_of_kept fun _ _ hm => hm⟩⟩
  trans := Neat.trans
  report s event := ⟨reads_advances.report s event,
    fun h _ => ⟨h.report event, undisturbed_of_kept fun _ _ hm => hm⟩⟩
  locate k hk scope id _ := neat_loads hk (fun hs => (locates (T := model) hs scope k id).loads)
    fun hs => run_locate hs scope k id

theorem neat_fetch (c : ContextId) (hk : k.IsBlog) (scope : Scope) (q : Query) :
    Work.Leads (Neat c) (scope.fetch (T := model) k q).outcome := by
  intro s
  exact neat_loads hk (fun hs => loads_fetch (T := model) hs scope k q)
    fun hs => run_fetch hs scope k q

theorem neat_markDeleted (c : ContextId) (s : Session model) (slot : Nat) :
    Neat c s (s.modifyEntity slot fun m => { m with deleted := true }) := by
  refine ⟨advances_markDeleted s slot, fun h _ => ⟨h.markDeleted slot, ?_⟩⟩
  intro n m hm _
  rw [entity?_modifyEntity, hm]
  split
  · exact ⟨true, rfl⟩
  · exact ⟨m.deleted, rfl⟩

/-! ## Fills -/

/-- Every fill of the blog and the folders leads where looking up, deleting and reconciling lead. -/
theorem leads_fill {R : Session model → Session model → Prop}
    (hR : Reads (T := model) Kind.IsBlog R)
    (hdelete : ∀ (s : Session model) (slot : Nat),
      R s (s.modifyEntity slot fun m => { m with deleted := true }))
    (hk : k.IsBlog) (p : Plain k) {nested : Nested (Plain.weight p)}
    (hnested : NestedLeads Kind.IsBlog R nested) (scope : Scope) (this : EntityId) (v : Value k) :
    Work.Leads R (fill p nested scope this v) := by
  cases k with
  | tag => exact hR.pure _
  | author => exact hR.pure _
  | comment => exact leads_fillComment hR trivial p v
  | post => exact leads_fillPost hR hdelete ⟨trivial, trivial, trivial, trivial⟩ p hnested v
  | folder => exact leads_fillFolder hR trivial p hnested v
  | _ => exact absurd hk id

/-! ## Finding or inserting -/

/-- The entity of a plain value with this natural key was found or inserted.  Once it shows a value
of that natural key, the context is tidy again. -/
structure Prepared (c : ContextId) (n : Option NaturalKey) (s : Session model)
    (found : Option (Handle k)) (s₁ : Session model) : Prop where
  older : ∀ i m, s.entity? i = some m → s₁.entity? i = some m
  /-- There is nothing to make up for if nothing was inserted. -/
  tidy : (∀ h m, found = some h → s₁.entity? h.slot = some m → m.filling = true) → Tidy c s₁
  shown : ∀ h m m', found = some h → s₁.entity? h.slot = some m → m.Edited m' → Open m' →
    Value.naturalKey? (m'.value k : Value k) = n → Tidy c (s₁.modifyEntity h.slot fun _ => m')

theorem Tidy.prepare_found (htidy : Tidy c s₁) {n : Option NaturalKey} {h : Handle k}
    {m : Entity model}
    (holder : ∀ i m, s.entity? i = some m → s₁.entity? i = some m)
    (hm : s₁.entity? h.slot = some m) (hkind : m.kind = k)
    (hkey : Value.naturalKey? (m.value k : Value k) = n) : Prepared c n s (some h) s₁ := by
  refine ⟨holder, fun _ => htidy, ?_⟩
  intro h' m' m'' hh hm' hedited hopen hkey'
  cases hh
  cases hm.symm.trans hm'
  subst hkind
  refine htidy.modifyEntity (htidy.ordered.sound.replaceEntity hm hedited) ?_
  intro m' hm'
  cases hm.symm.trans hm'
  refine ⟨hedited.kind, fun hlive => hedited.deleted.symm.trans hlive, fun _ => hopen, ?_⟩
  rw [Entity.value_self] at hkey
  exact hkey'.trans hkey.symm

theorem Tidy.prepare_inserted (htidy : Tidy scope.context s₁) (hk : k.IsBlog) (p : Plain k)
    (holder : ∀ i m, s.entity? i = some m → s₁.entity? i = some m)
    (hmissing : ∀ n, Plain.naturalKey p = some n → ∀ key v, Sees s₁ scope.context k key v →
      Value.naturalKey? v ≠ some n)
    {found : Option (Handle k)} (hinserted : scope.insertOrReport (T := model) k s₁ = (found, s'))
    (hkeys : s'.KeysLeft) : Prepared scope.context (Plain.naturalKey p) s found s' := by
  rcases insert_cases (T := model) scope k s₁ with ⟨fault, hfault, _⟩ | ⟨store, hstore, hinsert⟩
  · simp only [Scope.insertOrReport, Work.bind_apply, hfault] at hinserted
    cases hinserted
    exact ⟨holder, fun _ => htidy.report _, fun h _ _ hh => by cases hh⟩
  · simp only [Scope.insertOrReport, Work.bind_apply, hinsert] at hinserted
    cases hinserted
    have hrun : Run Deed.Native s₁ (s₁.insertUnder scope.context k store.nextKey) :=
      Step.run (Step.insert (T := model) k hstore) trivial
    have hordered := hrun.ordered htidy.ordered hkeys
    refine ⟨fun i m hm => entity?_insertUnder (holder i m hm), ?_, ?_⟩
    · intro hfilling
      cases hfilling _ _ rfl entity?_insertUnder_new
    · intro h m m' hh hm hedited hopen hkey
      cases hh
      cases hm.symm.trans entity?_insertUnder_new
      refine htidy.insert hk hstore hordered hedited hopen ?_
      intro hkeyed
      rcases hkeyed.naturalKey p with ⟨n, hn⟩
      exact ⟨n, hkey.trans hn, hmissing n hn⟩

theorem Tidy.prepare (htidy : Tidy scope.context s) (hk : k.IsBlog) {p : Plain k}
    {found : Option (Handle k)}
    (hfound : mapping.findOrInsertUnique (T := model) (k := k) scope p s = (found, s'))
    (hkeys : s'.KeysLeft) : Prepared scope.context (Plain.naturalKey p) s found s' := by
  have hsound := htidy.ordered.sound
  -- comments have no natural key, and each gets an entity of its own
  cases hkey : Plain.naturalKey p with
  | none =>
    have hnone : mapping.findUnique (T := model) (k := k) scope p s = (none, s) := by
      show scope.findByKey (T := model) k (Plain.naturalKey p) s = (none, s)
      rw [hkey]
      rfl
    rw [Mapping.findOrInsertUnique_of_none hnone] at hfound
    have hprepared := htidy.prepare_inserted hk p (fun _ _ hm => hm)
      (fun n hn => by cases hkey.symm.trans hn) hfound hkeys
    exact hkey ▸ hprepared
  | some n =>
    rcases (identifies hk hkey).find hsound (htidy.ready hk hkey) with
      ⟨hit, s₁, hfind, hs₁, hloads, hhit, hmissing⟩
    have htidy₁ : Tidy scope.context s₁ := htidy.loads hk hloads hs₁
    have holder : ∀ i m, s.entity? i = some m → s₁.entity? i = some m := fun _ _ => hloads.entity
    cases hit with
    | some h =>
      rw [Mapping.findOrInsertUnique_of_found hfind] at hfound
      cases hfound
      rcases hhit h rfl with ⟨⟨pending, he⟩, hlast⟩
      rcases hlast.entry with ⟨v, hv, hkeyed⟩
      rw [← hloads.seen?_eq hsound] at hv
      rcases Mapping.entity_of_seen? he hv with ⟨m, hm, _, rfl⟩
      rcases (hs₁.lodged he).entity with ⟨m', hm', hkind⟩
      cases hm.symm.trans hm'
      exact htidy₁.prepare_found holder hm hkind hkeyed
    | none =>
      rw [Mapping.findOrInsertUnique_of_none hfind] at hfound
      have hprepared := htidy₁.prepare_inserted hk p holder ?_ hfound hkeys
      · exact hkey ▸ hprepared
      · intro n' hn' key v hv
        cases hkey.symm.trans hn'
        exact hmissing rfl key v ((hloads.seen?_eq hsound).symm.trans hv)

/-! ## Reconciling -/

/-- Taking a value out of an entity that was prepared, and putting it back filled. -/
theorem Prepared.refill {m : Entity model} {p : Plain m.kind} {h : Handle m.kind} {bound : Nat}
    (hprepared : s₁.KeysLeft → Prepared scope.context (Plain.naturalKey p) s (some h) s₁)
    (hs₁ : Sound s₁) (hm : s₁.entity? h.slot = some m) (hfree : m.filling = false)
    (hk : Kind.IsBlog m.kind) (hp : Plain.weight p < bound + 1)
    (hnested : NestedLeads Kind.IsBlog (Neat scope.context) (mapping.nested scope hp))
    (g : Value m.kind → Value m.kind)
    (hrefill : (mapping.refill (T := model) scope hp (fun v => return g v) h (m.value m.kind)
      (s₁.modifyEntity h.slot fun _ =>
        { m.withState (Value.blank m.kind) with filling := true })).2 = s')
    (hkeys : s'.KeysLeft) : Tidy scope.context s' ∧ Undisturbed s s' := by
  rcases preview_eq_ok hk scope p (g (m.value m.kind)) with ⟨v, payload, hpreview, hencode, hkey⟩
  -- the entity while it fills: its natural key is that of the plain value already
  let shown : Entity model :=
    Entity.standIn { m.withState (Value.blank m.kind) with filling := true } v payload
  have hedited : m.Edited shown := ⟨rfl, rfl, rfl, fun _ hfilling => by cases hfilling⟩
  have hopen : Open shown := (congrArg Except.toOption hencode).symm
  have hshownKey : Value.naturalKey? (shown.value m.kind : Value m.kind) = Plain.naturalKey p :=
    (congrArg Value.naturalKey? (Entity.value_self shown)).trans hkey
  have hpreviewed : scope.showPreview h (g (m.value m.kind)) (mapping.naturalKey p)
      (s₁.modifyEntity h.slot fun _ => { m.withState (Value.blank m.kind) with filling := true }) =
      ((), s₁.modifyEntity h.slot fun _ => shown) :=
    (Mapping.showPreview_of_ok hpreview).trans
      (congrArg (Prod.mk ()) (Mapping.modifyEntity_twice s₁ h.slot _ _))
  rcases hfilled : fill p (mapping.nested scope hp) scope h.id (g (m.value m.kind))
    (s₁.modifyEntity h.slot fun _ => shown) with ⟨w, s₂⟩
  have hend : s' = s₂.checkIn h w :=
    hrefill.symm.trans (Mapping.refill_snd rfl hpreviewed hfilled)
  subst hend
  -- the context is tidy as soon as the value is shown, so the fill keeps it tidy
  have hfill := leads_fill (reads_neat scope.context) (neat_markDeleted scope.context) hk p hnested
    scope h.id (g (m.value m.kind)) (s₁.modifyEntity h.slot fun _ => shown)
  rw [hfilled] at hfill
  have hkeys₂ : s₂.KeysLeft := hkeys
  have hkeys₁ : s₁.KeysLeft := (hfill.advances (hs₁.replaceEntity hm hedited)).run.keysLeft hkeys₂
  have htidy := (hprepared hkeys₁).shown h m shown rfl hm hedited hopen hshownKey
  rcases hfill.tidy htidy hkeys₂ with ⟨htidy₂, hundisturbed⟩
  have hentity := entity?_modifyEntity_self hm fun _ => shown
  rcases hundisturbed h.slot shown hentity rfl with ⟨deleted, hm₂⟩
  constructor
  · have hfilledKey := naturalKey?_fill hk p (mapping.nested scope hp) scope h.id
      (g (m.value m.kind)) (s₁.modifyEntity h.slot fun _ => shown)
    rw [hfilled] at hfilledKey
    exact Tidy.checkIn (m := { shown with deleted }) htidy₂ hm₂ (hfilledKey.trans hkey.symm)
  · intro n e he hfilling
    have hold := (hprepared hkeys₁).older n e he
    -- the entity that is filled here did not fill before
    have hn : n ≠ h.slot := by
      rintro rfl
      cases hm.symm.trans hold
      cases hfree.symm.trans hfilling
    rcases hundisturbed n e ((entity?_modifyEntity_of_ne s₁ hn _).trans hold) hfilling with
      ⟨deleted, he₂⟩
    exact ⟨deleted, (entity?_modifyEntity_of_ne s₂ hn _).trans he₂⟩

theorem neat_reconcileBelow (scope : Scope) (bound : Nat) (hk : k.IsBlog) (p : Plain k)
    (hp : Plain.weight p < bound) (g : Value k → Value k) :
    Work.Leads (Neat scope.context)
      (mapping.reconcileBelow (T := model) scope bound k p hp fun v => return g v) := by
  -- by induction on the bound, as fills reconcile lighter plain values
  induction bound generalizing k with
  | zero => exact absurd hp (Nat.not_lt_zero _)
  | succ bound ih =>
    intro s
    refine ⟨lawful.reconcileBelow (T := model) scope (bound + 1) k p hp
      (fun v => return g v) (fun v => reads_sample.pure (g v)) s, ?_⟩
    intro htidy hkeys
    have hs := htidy.ordered.sound
    rcases Mapping.reconcileBelow_cases (M := mapping) hs scope hp (fun v => return g v) with
      ⟨s₁, hfound, hend⟩ | ⟨h, s₁, m, hfound, hm, _, hfilling, hend⟩ |
      ⟨h, s₁, m, hfound, hm, rfl, hfree, hend⟩
    · rw [hend] at hkeys ⊢
      have hprepared := htidy.prepare hk hfound hkeys
      exact ⟨hprepared.tidy fun h _ hh => (by cases hh), undisturbed_of_kept hprepared.older⟩
    · rw [hend] at hkeys ⊢
      have hprepared := htidy.prepare hk hfound ((Step.report s₁ _).keysLeft hkeys)
      refine ⟨(hprepared.tidy ?_).report _, undisturbed_of_kept hprepared.older⟩
      intro h' m' hh hm'
      cases hh
      cases hm.symm.trans hm'
      exact hfilling
    · rw [hend] at hkeys ⊢
      have hs₁ : Sound s₁ := (Mapping.proceeds_findOrInsertUnique hs hfound).run.sound hs
      have hnested : NestedLeads Kind.IsBlog (Neat scope.context)
          (mapping.nested (T := model) (p := p) scope hp) := fun l hl q hq g => ih hl q _ g
      exact Prepared.refill (htidy.prepare hk hfound) hs₁ hm hfree hk hp hnested g rfl hkeys

theorem neat_reconcile (scope : Scope) (hk : k.IsBlog) (p : Plain k) (g : Value k → Value k) :
    Work.Leads (Neat scope.context) (mapping.reconcile (T := model) scope p fun v => return g v) :=
  neat_reconcileBelow scope _ hk p _ g

theorem neat_syncSet (scope : Scope) (hk : k.IsBlog) (ps : List (Plain k))
    (g : Value k → Value k) :
    Work.Leads (Neat scope.context) (mapping.syncSet (T := model) scope ps fun v => return g v) :=
  (reads_neat _).buildSet fun p _ => neat_reconcile scope hk p g

theorem neat_syncList (scope : Scope) (hk : k.IsBlog) (ps : List (Plain k))
    (g : Value k → Value k) :
    Work.Leads (Neat scope.context) (mapping.syncList (T := model) scope ps fun v => return g v) :=
  (reads_neat _).buildList fun p _ => neat_reconcile scope hk p g

/-! ## Contexts in turn -/

/-- A call of a context: plain values are synchronized, each value put through a function first, or
an entity is deleted, or the context is saved, or it is read from.  An entity that is looked at may
get its relationships bound, and may be held for a while. -/
inductive Call (c : ContextId) (s : Session model) : Session model → Prop where
  | reconcile {binding : Bool} {k : Kind} (hk : k.IsBlog) (p : Plain k) (g : Value k → Value k) :
      Call c s (mapping.reconcile (T := model) ⟨c, binding⟩ p (fun v => return g v) s).2
  | syncSet {binding : Bool} {k : Kind} (hk : k.IsBlog) (ps : List (Plain k))
      (g : Value k → Value k) :
      Call c s (mapping.syncSet (T := model) ⟨c, binding⟩ ps (fun v => return g v) s).2
  | syncList {binding : Bool} {k : Kind} (hk : k.IsBlog) (ps : List (Plain k))
      (g : Value k → Value k) :
      Call c s (mapping.syncList (T := model) ⟨c, binding⟩ ps (fun v => return g v) s).2
  | delete {binding : Bool} {k : Kind} (h : Handle k) :
      Call c s ((Scope.delete (T := model) ⟨c, binding⟩ h).outcome s).2
  | save {binding : Bool} : Call c s ((Scope.save (T := model) ⟨c, binding⟩).outcome s).2
  | fetch {binding : Bool} {k : Kind} (hk : k.IsBlog) (q : Query) :
      Call c s ((Scope.fetch (T := model) ⟨c, binding⟩ k q).outcome s).2
  | locate {binding : Bool} {k : Kind} (hk : k.IsBlog) (id : EntityId) :
      Call c s ((Scope.locate (T := model) ⟨c, binding⟩ k id).outcome s).2
  | regard {slot : Nat} {m m' : Entity model} (hm : s.entity? slot = some m) (h : m.Regarded m') :
      Call c s (s.modifyEntity slot fun _ => m')
  | report (event : Event) : Call c s (s.report event)

theorem Call.advances (h : Call c s s') : Advances s s' := by
  intro hs
  cases h with
  | reconcile hk p g => exact (neat_reconcile _ hk p g s).advances hs
  | syncSet hk ps g => exact (neat_syncSet _ hk ps g s).advances hs
  | syncList hk ps g => exact (neat_syncList _ hk ps g s).advances hs
  | delete h => exact ((reads_neat c).delete (neat_markDeleted c) _ h s).advances hs
  | save => exact advances_save _ s hs
  | fetch hk q => exact (neat_fetch c hk _ q s).advances hs
  | locate hk id => exact ((reads_neat c).locate _ hk _ id s).advances hs
  | regard hm h =>
    exact (Step.regard hm h).proceeds trivial fun _ hdeed => by cases hdeed
  | report event => exact reads_advances.report s event hs

/-- Looking at an entity leaves its value alike. -/
theorem alike_of_regarded {m m' : Entity model} (h : m.Regarded m') : Alike m m' := by
  refine ⟨h.kind, fun hlive => h.deleted.symm.trans hlive, ?_, ?_⟩
  · intro hopen
    rw [Open, h.published, hopen, Model.published, Model.published, h.encode]
  · rcases m' with ⟨k', v', published, temporary, deleted, filling, guard⟩
    obtain rfl : k' = m.kind := h.kind
    exact (congrArg Value.naturalKey? (Entity.value_self _)).trans (naturalKey?_of_encode h.encode)

theorem Tidy.save (scope : Scope) (htidy : Tidy scope.context s)
    (hkeys : ((scope.save (T := model)).outcome s).2.KeysLeft) :
    Tidy scope.context ((scope.save (T := model)).outcome s).2 := by
  rcases save_cases (T := model) scope s with ⟨fault, _, hfault⟩ | ⟨changes, hcollect, hsave⟩
  · rw [hfault]
    exact htidy
  · rw [hsave] at hkeys ⊢
    have hcommitted : (s.commit scope.context changes).2.KeysLeft :=
      (Step.report _ _).keysLeft hkeys
    have hordered := ((Step.save hcollect).run trivial).ordered htidy.ordered hcommitted
    exact (htidy.commit hcollect hordered).report _

theorem Call.tidy (h : Call c s s') (htidy : Tidy c s) (hkeys : s'.KeysLeft) : Tidy c s' := by
  cases h with
  | reconcile hk p g => exact ((neat_reconcile _ hk p g s).tidy htidy hkeys).1
  | syncSet hk ps g => exact ((neat_syncSet _ hk ps g s).tidy htidy hkeys).1
  | syncList hk ps g => exact ((neat_syncList _ hk ps g s).tidy htidy hkeys).1
  | delete h =>
    exact (((reads_neat c).delete (neat_markDeleted c) _ h s).tidy htidy hkeys).1
  | save => exact Tidy.save ⟨c, _⟩ htidy hkeys
  | fetch hk q => exact ((neat_fetch c hk _ q s).tidy htidy hkeys).1
  | locate hk id => exact (((reads_neat c).locate _ hk _ id s).tidy htidy hkeys).1
  | regard hm h =>
    refine htidy.modifyEntity ((Step.regard hm h).sound htidy.ordered.sound) ?_
    intro m hm'
    cases hm.symm.trans hm'
    exact alike_of_regarded h
  | report event => exact htidy.report event

/-- A store of blogs and folders. -/
def foldersOpen (settings : Settings) : Session model :=
  (Session.empty.openStore folderSchema settings).2

/-- The session is reached by calls of one context after another; this is the last one.  The earlier
ones may be dropped at any time. -/
inductive InTurn (settings : Settings) : ContextId → Session model → Prop where
  | start : InTurn settings ((foldersOpen settings).openContext ⟨0⟩).1
      ((foldersOpen settings).openContext ⟨0⟩).2
  | call {c : ContextId} {s s' : Session model} (h : InTurn settings c s) (hcall : Call c s s') :
      InTurn settings c s'
  | next {c : ContextId} {s : Session model} (h : InTurn settings c s) :
      InTurn settings (s.openContext ⟨0⟩).1 (s.openContext ⟨0⟩).2
  | close {c : ContextId} {s : Session model} (h : InTurn settings c s) (d : ContextId)
      (hd : c ≠ d) : InTurn settings c (s.closeContext d)

variable {settings : Settings}

theorem sound_foldersOpen : Sound (foldersOpen settings) :=
  Step.sound (Step.openStore .empty folderSchema settings) sound_empty

theorem InTurn.run (h : InTurn settings c s) : Run Deed.Native (foldersOpen settings) s := by
  induction h with
  | start => exact (Step.openContext _ ⟨0⟩ rfl).run trivial
  | call _ hcall ih => exact ih.trans (hcall.advances (ih.sound sound_foldersOpen)).run
  | next _ ih => exact ih.trans ((Step.openContext _ ⟨0⟩ (ih.store?_isSome rfl)).run trivial)
  | close _ d _ ih => exact ih.trans ((Step.closeContext _ d).run trivial)

theorem InTurn.ordered (h : InTurn settings c s) (hkeys : s.KeysLeft) : s.Ordered :=
  Run.ordered (((Step.openStore .empty folderSchema settings).run trivial).trans h.run)
    ordered_empty hkeys

theorem distinct_nothing {held : (k : Kind) → UInt64 → Value k → Prop}
    (h : ∀ k key v, ¬ held k key v) : Distinct held :=
  ⟨fun k key v _ hv => absurd hv (h k key v), fun k key _ v _ _ hv => absurd hv (h k key v)⟩

/-- Before anything is inserted there is nothing to keep apart. -/
theorem tidy_start (hpending : settings.includePending = true)
    (hordered : Ordered ((foldersOpen settings).openContext ⟨0⟩).2) :
    Tidy ((foldersOpen settings).openContext ⟨0⟩).1 ((foldersOpen settings).openContext ⟨0⟩).2 where
  ordered := hordered
  place := rfl
  store := ⟨_, rfl, rfl, hpending⟩
  blog key e he := by cases he
  shown key e m he := by cases he
  fresh key e he := by cases he
  written id row hrow := by cases hrow
  rows := distinct_nothing fun k key v hv => by
    rcases hv with ⟨row, hrow, _⟩
    cases hrow
  seen := distinct_nothing fun k key v hv => by cases hv

theorem InTurn.tidy (h : InTurn settings c s) (hpending : settings.includePending = true)
    (hkeys : s.KeysLeft) : Tidy c s := by
  -- keys that are left at the end were left before each call
  induction h with
  | start => exact tidy_start hpending (InTurn.start.ordered hkeys)
  | call h hcall ih =>
    have hleft := (hcall.advances (h.run.sound sound_foldersOpen)).run.keysLeft hkeys
    exact hcall.tidy (ih hleft) hkeys
  | next h ih => exact (ih hkeys).openContext (h.next.ordered hkeys)
  | close h d hd ih => exact (ih hkeys).closeContext hd ((h.close d hd).ordered hkeys)

/-- However contexts are used in turn, what the last one sees of a type has natural keys that
differ, and the key attributes of the rows differ. -/
theorem no_duplicates (h : InTurn settings c s) (hpending : settings.includePending = true)
    (hkeys : s.KeysLeft) {k : Kind} (hk : k.IsKeyed) :
    (∀ key key' v v', s.seen? c k key = some v → s.seen? c k key' = some v' →
      Value.naturalKey? v = Value.naturalKey? v' → key = key') ∧
    ∀ key key' row row', (s.rowsOf c).row? ⟨k.entityName, key⟩ = some row →
      (s.rowsOf c).row? ⟨k.entityName, key'⟩ = some row' →
      (row.payload.valueAt k.keyAttribute).same (row'.payload.valueAt k.keyAttribute) = true →
      key = key' := by
  have htidy := h.tidy hpending hkeys
  constructor
  · intro key key' v v' hv hv' hsame
    exact htidy.seen.apart k key key' v v' hk hv hv' hsame
  · intro key key' row row' hrow hrow' hsame
    rcases htidy.written_of_row hk.isBlog hrow with ⟨v, hencode⟩
    rcases htidy.written_of_row hk.isBlog hrow' with ⟨v', hencode'⟩
    have hfiles : Files (s.rowsOf c) k key v := ⟨row, hrow, hencode⟩
    rcases htidy.rows.keyed k key v hk hfiles with ⟨n, hn⟩
    have hn' := naturalKey?_of_attribute hk.isBlog hn hencode hencode' hsame
    exact htidy.rows.apart k key key' v v' hk hfiles ⟨row', hrow', hencode'⟩ (hn.trans hn'.symm)

/-- A context synchronizes two tags, one of them twice. -/
def tagsInTurn : Session model :=
  (mapping.syncSet (T := model) (k := Kind.tag) (.within ⟨1⟩)
    [(⟨"red", none⟩ : TagPlain), (⟨"blue", none⟩ : TagPlain), (⟨"red", some "r"⟩ : TagPlain)]
    (fun v => return v) ((foldersOpen .default).openContext ⟨0⟩).2).2

def tagsInTurnSaved : Session model :=
  (((Scope.within ⟨1⟩).save (T := model)).outcome tagsInTurn).2

/-- The next context synchronizes a post with the tag that came twice. -/
def postInTurn : Session model :=
  (mapping.reconcile (T := model) (k := Kind.post) (.within ⟨2⟩)
    (⟨"news", none, none, [⟨"red", none⟩], []⟩ : PostPlain) (fun v => return v)
    (tagsInTurnSaved.openContext ⟨0⟩).2).2

theorem inTurn_postInTurn : InTurn .default ⟨2⟩ postInTurn := by
  have htags : InTurn .default ⟨1⟩ tagsInTurn :=
    InTurn.start.call (.syncSet (k := Kind.tag) trivial _ id)
  have hsaved : InTurn .default ⟨1⟩ tagsInTurnSaved := htags.call .save
  have hnext : (tagsInTurnSaved.openContext ⟨0⟩).1 = ⟨2⟩ := by decide +kernel
  have hopened := hsaved.next
  rw [hnext] at hopened
  exact hopened.call (.reconcile (k := Kind.post) trivial _ id)

/-- The red tag that was saved is the only one that the next context sees, and has the only row. -/
theorem no_duplicates_postInTurn :
    (∀ key v, postInTurn.seen? ⟨2⟩ Kind.tag key = some v → Tag.name v = some "red" → key = 1) ∧
    ∀ key row, (postInTurn.rowsOf ⟨2⟩).row? ⟨"Tag", key⟩ = some row →
      (row.payload.valueAt "name").same (.string "red") = true → key = 1 := by
  have hkeys : postInTurn.KeysLeft := by decide +kernel
  rcases no_duplicates inTurn_postInTurn rfl hkeys (k := Kind.tag) trivial with ⟨hseen, hrows⟩
  constructor
  · intro key v hv hname
    have hred : (postInTurn.seen? ⟨2⟩ Kind.tag 1).bind Tag.name = some "red" := by decide +kernel
    rcases Option.bind_eq_some_iff.1 hred with ⟨w, hw, hname'⟩
    refine hseen key 1 v w hv hw ?_
    exact congrArg (Option.map fun name => NaturalKey.mk "name" (.string name))
      (hname.trans hname'.symm)
  · intro key row hrow hname
    have hred : ((postInTurn.rowsOf ⟨2⟩).row? ⟨"Tag", 1⟩).any (fun row =>
        (row.payload.valueAt "name").same (.string "red")) = true := by decide +kernel
    rcases (Option.any_eq_true _ _).1 hred with ⟨row', hrow', hname'⟩
    exact hrows key 1 row row' hrow hrow' (Json.same_trans hname (Json.same_symm hname'))

end Reconcile.Sample
