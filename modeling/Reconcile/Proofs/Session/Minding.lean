import Reconcile.Proofs.Session.Custody
import Reconcile.Proofs.Session.Reconciling

/-!
# Operations mind their own

Looking up, fetching, inserting, confirming, deleting and writing mind the entities of their context,
whether they succeed or not.  What they hand out belongs to the context.  A deletion can be asked for
with any genuine handle: one of another context is refused.
-/

namespace Reconcile

/-- Wherever the work starts, it minds its own. -/
def Work.Minds {T : Model} [Bonded T] {α : Type} (o : Purview) (pre : Prop) (P : α → Prop)
    (w : Work T α) : Prop := ∀ s, Session.Minds o pre P s (w s)

namespace Session

variable {T : Model} [Bonded T] {α β : Type} {s s' : Session T} {k : T.Kind} {o : Purview}
  {pre pre' : Prop} {P : α → Prop} {Q : β → Prop} {a : α} {scope : Scope}

namespace Minds

theorem imp {out : α × Session T} {P' : α → Prop} (h : Minds o pre P s out) (hpre : pre' → pre)
    (hP : pre' → ∀ a, P a → P' a) : Minds o pre' P' s out where
  runs := h.runs
  kept hpre' hkept hcalm := by
    rcases h.kept (hpre hpre') hkept hcalm with ⟨hkept', hapart, hresult⟩
    exact ⟨hkept', hapart, hP hpre' _ hresult⟩

/-- Work after work.  The first part is as calm as the whole, since saves are never undone. -/
theorem next {out : α × Session T} {out' : β × Session T} (h : Minds o pre P s out)
    (h' : Sound s → Minds o (pre ∧ s.Kept o ∧ Apart o.owners o.context s out.2 ∧ P out.1) Q out.2
      out') : Minds o pre Q s out' where
  runs hs := by
    have hrun := h.runs hs
    exact hrun.trans ((h' hs).runs (hrun.sound hs))
  kept hpre hkept hcalm := by
    have hs := hkept.sound
    have hrun := h.runs hs
    have hrun' := (h' hs).runs (hrun.sound hs)
    rcases hcalm.split hrun hrun' with ⟨hfirst, hsecond⟩
    rcases h.kept hpre hkept hfirst with ⟨hkept₁, hapart₁, hresult₁⟩
    rcases (h' hs).kept ⟨hpre, hkept, hapart₁, hresult₁⟩ hkept₁ hsecond with
      ⟨hkept₂, hapart₂, hresult₂⟩
    exact ⟨hkept₂, hapart₁.trans hapart₂, hresult₂⟩

theorem after {out : α × Session T} {out' : β × Session T} (h : Minds o pre P s out)
    (h' : Minds o (pre ∧ P out.1) Q out.2 out') : Minds o pre Q s out' :=
  h.next fun _ => h'.imp (fun hpre => ⟨hpre.1, hpre.2.2.2⟩) fun _ _ => id

theorem pure (ha : pre → P a) : Minds o pre P s (a, s) where
  runs _ := Run.refl s
  kept hpre hkept _ := ⟨hkept, Apart.refl _ _ s, ha hpre⟩

theorem ended {out : α × Session T} (h : Minds o pre P s out) :
    Minds o pre (fun _ => True) s ((), out.2) where
  runs := h.runs
  kept hpre hkept hcalm := by
    rcases h.kept hpre hkept hcalm with ⟨hkept', hapart, _⟩
    exact ⟨hkept', hapart, trivial⟩

/-- Nothing is said of what does not start from a sound session. -/
theorem sound {out : α × Session T} (h : Sound s → Minds o pre P s out) :
    Minds o pre P s out where
  runs hs := (h hs).runs hs
  kept hpre hkept hcalm := (h hkept.sound).kept hpre hkept hcalm

/-- What holds of the start may be used to show that the work minds its own. -/
theorem given {out : α × Session T} (hruns : Sound s → Run Deed.Native s out.2)
    (h : pre → s.Kept o → Minds o pre P s out) : Minds o pre P s out where
  runs := hruns
  kept hpre hkept hcalm := (h hpre hkept).kept hpre hkept hcalm

/-- A change that leaves entities, contexts and stores alone. -/
theorem quiet (hrun : Run Deed.Native s s') (hentities : s'.entities = s.entities)
    (hcontexts : s'.contexts = s.contexts) (hstores : s'.stores = s.stores) (ha : pre → P a) :
    Minds o pre P s (a, s') where
  runs _ := hrun
  kept hpre hkept hcalm := by
    have hapart : Apart o.owners o.context s s' := .of_quiet hentities hcontexts hstores
    refine ⟨hkept.next (hrun.mono fun _ _ => trivial) hcalm.keys hapart ?_ ?_, hapart,
      ha hpre⟩
    · intro d key e he
      have hcontext : s'.context? d = s.context? d := congrArg (·.get? d) hcontexts
      rw [registry_congr hcontext] at he
      exact Or.inl he
    · intro n m hm
      have hentity : s'.entity? n = s.entity? n := congrArg (·[n]?) hentities
      exact Or.inl (hentity ▸ hm)

theorem report (event : Event) (ha : pre → P a) : Minds o pre P s (a, s.report event) :=
  .quiet ((Step.report s event).run trivial) rfl rfl rfl ha

theorem note (remark : T.Remark) (ha : pre → P a) : Minds o pre P s (a, s.note remark) :=
  .quiet ((Step.note s remark).run trivial) rfl rfl rfl ha

/-- Work that keeps an entity pinned which is at home in the context. -/
theorem pin {out : α × Session T} {key : UInt64} {slot : Nat}
    (h : Minds { o with pins := (key, slot) :: o.pins } pre P s out)
    (hpin : pre → s.Kept o → (∃ e, (s.registry o.context).get? key = some e ∧ e.slot = slot) ∧
      ∃ m, s.entity? slot = some m ∧ m.filling = true ∧ HomeIn o.context m.state) :
    Minds o pre P s out where
  runs := h.runs
  kept hpre hkept hcalm := by
    have hpinned : s.Kept { o with pins := (key, slot) :: o.pins } := by
      refine ⟨hkept.run, hkept.keys, hkept.owned, hkept.fresh, hkept.genuine, ?_⟩
      intro key' slot' hmem
      rcases List.mem_cons.1 hmem with heq | hold
      · cases heq
        exact hpin hpre hkept
      · exact hkept.pinned key' slot' hold
    rcases h.kept hpre hpinned ⟨hcalm.keys, hcalm.saves, hcalm.size⟩ with ⟨hkept', hapart, hresult⟩
    refine ⟨?_, hapart, hresult⟩
    exact ⟨hkept'.run, hkept'.keys, hkept'.owned, hkept'.fresh, hkept'.genuine,
      fun key' slot' hmem => hkept'.pinned key' slot' (List.mem_cons_of_mem _ hmem)⟩

/-! ## Changing and adding entities -/

/-- A change of an entity of the context. -/
theorem modify {slot : Nat} {f : Entity T → Entity T}
    (hruns : Sound s → Run Deed.Native s (s.modifyEntity slot f))
    (howner : pre → o.owners[slot]? = some o.context)
    (hf : pre → s.Kept o → ∀ m, s.entity? slot = some m → Genuine o.owners (f m).state ∧
      ∀ key, (key, slot) ∈ o.pins → (f m).filling = true ∧ HomeIn o.context (f m).state)
    (ha : pre → P a) : Minds o pre P s (a, s.modifyEntity slot f) where
  runs := hruns
  kept hpre hkept hcalm := by
    have hapart : Apart o.owners o.context s (s.modifyEntity slot f) :=
      .modifyEntity (howner hpre) f
    have hrun := hruns hkept.sound
    refine ⟨hkept.next (hrun.mono fun _ _ => trivial) hcalm.keys hapart
      (fun _ _ _ he => Or.inl he) ?_, hapart, ha hpre⟩
    intro n m hm
    rcases entity?_of_modifyEntity hm with ⟨old, rfl, hold, rfl⟩ | ⟨_, hold⟩
    · exact Or.inr (hf hpre hkept old hold)
    · exact Or.inl hold

/-- A change of an entity of the context that does not concern its value. -/
theorem mark {slot : Nat} {f : Entity T → Entity T}
    (hruns : Sound s → Run Deed.Native s (s.modifyEntity slot f))
    (howner : pre → o.owners[slot]? = some o.context)
    (hgenuine : ∀ m : Entity T, Genuine o.owners m.state → Genuine o.owners (f m).state)
    (hhome : ∀ m : Entity T, m.filling = true → HomeIn o.context m.state →
      (f m).filling = true ∧ HomeIn o.context (f m).state)
    (ha : pre → P a) : Minds o pre P s (a, s.modifyEntity slot f) := by
  refine modify hruns howner ?_ ha
  intro _ hkept m hm
  refine ⟨hgenuine m (hkept.genuine _ m hm), ?_⟩
  intro key hpin
  rcases (hkept.pinned key slot hpin).2 with ⟨m', hm', hfilling, hhomely⟩
  cases hm.symm.trans hm'
  exact hhome m hfilling hhomely

/-- A new entity of the context under a key that is new to it. -/
theorem enrolled {t : Session T} (hrun : Run Deed.Native s s') (hentities : t.entities = s.entities)
    (hregistry : ∀ d, t.registry d = s.registry d) {ctx : Context T} {id : EntityId} {v : T.Value k}
    {pending : Bool} (hctx : t.context? o.context = some ctx)
    (henrolled : s'.entities = (t.enroll o.context k id v pending).entities)
    (hentered : ∀ d, s'.registry d = (t.enroll o.context k id v pending).registry d)
    (hapart : s.Kept o → Apart o.owners o.context s s') (hgenuine : Genuine o.owners v)
    (ha : pre → s.Kept o → s.entities.size < o.owners.length → P a) : Minds o pre P s (a, s') where
  runs _ := hrun
  kept hpre hkept hcalm := by
    have hapart := hapart hkept
    have hentity : ∀ n, s'.entity? n = (t.enroll o.context k id v pending).entity? n :=
      fun n => congrArg (·[n]?) henrolled
    have hold : ∀ n, t.entity? n = s.entity? n := fun n => congrArg (·[n]?) hentities
    have hsize : t.entities.size = s.entities.size := congrArg Array.size hentities
    have hgrown : s'.entities.size = s.entities.size + 1 := by
      rw [henrolled, size_enroll, hsize]
    have hlt : s.entities.size < o.owners.length :=
      Nat.lt_of_lt_of_le (hgrown ▸ Nat.lt_succ_self _) hcalm.size
    refine ⟨hkept.next (hrun.mono fun _ _ => trivial) hcalm.keys hapart ?_ ?_, hapart,
      ha hpre hkept hlt⟩
    · intro d key e he
      rw [hentered] at he
      rcases entry_of_enroll hctx he with ⟨rfl, _, rfl⟩ | hbefore
      · refine Or.inr ?_
        show o.owners[t.entities.size]? = some o.context
        rw [hsize]
        exact hkept.owner_new hlt
      · rw [hregistry] at hbefore
        exact Or.inl hbefore
    · intro n m hm
      -- the one new entity has the next slot, and pins are about slots in use
      by_cases hn : n < s.entities.size
      · rw [hentity, entity?_enroll_of_lt (hsize ▸ hn), hold] at hm
        exact Or.inl hm
      · have hn' : n = t.entities.size := by
          have hin : n < s'.entities.size := lt_size_of_entity? hm
          omega
        rw [hentity, hn', entity?_enroll_new] at hm
        cases hm
        refine Or.inr ⟨hgenuine, ?_⟩
        intro key hpin
        exact absurd (hkept.slot_lt hpin) hn

end Minds

/-! ## Reading -/

section Reading

variable (hscope : scope.context = o.context)
include hscope

/-- A row that is read. -/
theorem minds_enroll {row : Row} {v : T.Value k}
    (hrow : (s.rowsOf scope.context).row? row.id = some row)
    (hname : row.id.entity = T.entityName k)
    (hnew : (s.registry scope.context).get? row.id.key = none)
    (hdecode : T.decode k (some scope.context) row.payload = some v)
    (ha : pre → s.Kept o → s.entities.size < o.owners.length → P a) :
    Minds o pre P s (a, s.enroll scope.context k row.id v false) := by
  have hstep := Step.load hrow hname hnew hdecode
  rcases storeOf?_of_row? hrow with ⟨store, hstore, _⟩
  rcases isOpen_of_storeOf? hstore with ⟨ctx, hctx, _⟩
  rw [hscope] at hctx hnew
  rw [hscope] at hstep ⊢
  exact .enrolled (hstep.run trivial) rfl
    (fun _ => rfl) hctx rfl (fun _ => rfl) (fun _ => .enroll hnew)
    (genuine_of_decode o.owners hdecode) ha

theorem own_new {id : EntityId} (h : s.Kept o) (hlt : s.entities.size < o.owners.length) :
    (⟨s.entities.size, id, scope.context⟩ : Handle k).Own o := by
  refine ⟨?_, hscope⟩
  show o.owners[s.entities.size]? = some scope.context
  rw [hscope]
  exact h.owner_new hlt

/-- What is found under an id belongs to the context, and is what is pinned under the key. -/
theorem minds_locate (k : T.Kind) (id : EntityId) :
    Work.Minds (T := T) o pre (fun found => ∀ h, found = .ok h → h.Own o ∧
      ∀ slot, (id.key, slot) ∈ o.pins → h.slot = slot) (scope.locate k id).outcome := by
  intro s
  refine ⟨fun hs => (run_locate hs scope k id).mono fun _ => Deed.Reading.native, ?_⟩
  intro hpre hkept hcalm
  rcases locate_cases hkept.sound scope k id with ⟨fault, hout⟩ |
    ⟨e, h, _, hentry, _, hhandle, hout⟩ | ⟨row, v, rfl, hname, hrow, hnew, hdecode, hout⟩
  · rw [hout]
    exact ⟨hkept, Apart.refl _ _ s, fun h hh => by cases hh⟩
  · rw [hout]
    refine ⟨hkept, Apart.refl _ _ s, ?_⟩
    intro h' hh'
    cases hh'
    rw [hscope] at hentry
    refine ⟨hkept.own_of_entry hentry hhandle, ?_⟩
    intro slot hpin
    rcases (hkept.pinned _ slot hpin).1 with ⟨e', he', hslot⟩
    cases hentry.symm.trans he'
    rcases handle?_eq_some_iff.1 hhandle with ⟨_, rfl⟩
    exact hslot
  · rw [hout] at hcalm ⊢
    -- the key is new to the context, so nothing is pinned under it
    have hloaded : Minds o pre (fun found => ∀ h : Handle k, found = .ok h → h.Own o ∧
        ∀ slot, (row.id.key, slot) ∈ o.pins → h.slot = slot) s
        ((.ok ⟨s.entities.size, row.id, scope.context⟩ : Except Fault (Handle k)),
          s.enroll scope.context k row.id v false) := by
      refine minds_enroll hscope hrow hname hnew hdecode ?_
      intro _ hkept hlt h hh
      cases hh
      refine ⟨own_new hscope hkept hlt, ?_⟩
      intro slot hpin
      rcases (hkept.pinned _ slot hpin).1 with ⟨e, he, _⟩
      rw [hscope] at hnew
      cases he.symm.trans hnew
    exact hloaded.kept hpre hkept hcalm

theorem minds_adoptRows (k : T.Kind) (rows : List (UInt64 × Row)) {s : Session T}
    (hrows : s.RowsFor scope.context k rows) :
    Minds o pre (fun _ => True) s ((scope.adoptRows k rows).outcome s) := by
  induction rows generalizing s with
  | nil => exact .pure fun _ => trivial
  | cons entry rest ih =>
    rcases entry with ⟨key, row⟩
    have hrest : s.RowsFor scope.context k rest :=
      fun key row hrow => hrows key row (List.mem_cons_of_mem _ hrow)
    rcases hrows key row List.mem_cons_self with ⟨hid, hrow⟩
    cases hregistered : (s.registry scope.context).contains key with
    | true =>
      rw [adoptRows_cons_of_registered hregistered]
      exact ih hrest
    | false =>
      cases hdecode : T.decode k (some scope.context) row.payload with
      | none =>
        rw [adoptRows_cons_of_undecodable hregistered hdecode]
        exact .pure fun _ => trivial
      | some v =>
        rw [adoptRows_cons_of_decoded hregistered hdecode]
        have hnew : (s.registry scope.context).get? row.id.key = none := by
          rw [hid]
          exact SortedMap.contains_eq_false_iff.1 hregistered
        rcases storeOf?_of_row? hrow with ⟨store, hstore, _⟩
        rcases isOpen_of_storeOf? hstore with ⟨ctx, hctx, _⟩
        have hgrows := (loads_enroll hctx hnew hdecode).toGrows
        have hfirst : Minds o pre (fun _ => True) s
            ((), s.enroll scope.context k row.id v false) :=
          minds_enroll hscope hrow (congrArg EntityId.entity hid) hnew hdecode
            fun _ _ _ => trivial
        exact hfirst.after ((ih (hrest.grows hgrows)).imp And.left fun _ _ _ => trivial)

theorem minds_answer (k : T.Kind) (q : Query) {rows : List (UInt64 × Row)}
    (hrows : s.RowsFor scope.context k rows) :
    Minds o pre (fun _ => True) s ((answer scope k q rows).outcome s) := by
  have hadopt : Minds o pre (fun _ => True) s ((scope.adoptRows k rows).outcome s) :=
    minds_adoptRows hscope k rows hrows
  rcases hout : (scope.adoptRows k rows).outcome s with ⟨fault | _, s₁⟩
  · have hend : (answer scope k q rows).outcome s = (.error fault, s₁) :=
      Attempt.outcome_bind_of_error hout
    rw [hout] at hadopt
    rw [hend]
    exact hadopt.after (.pure fun _ => trivial)
  · rw [hout] at hadopt
    rcases answer_of_adopted (q := q) hout with ⟨hrun, journal, hquiet⟩
    rcases hanswer : (answer scope k q rows).outcome s with ⟨result, s₂⟩
    rw [hanswer] at hrun hquiet
    obtain rfl : s₂ = { s₁ with journal } := hquiet
    exact hadopt.after (.quiet (hrun.mono fun _ => Deed.Reading.native) rfl rfl rfl fun _ => trivial)

theorem minds_fetch (k : T.Kind) (q : Query) :
    Work.Minds (T := T) o pre (fun found => ∀ hs, found = .ok hs → ∀ h ∈ hs, h.Own o)
      (scope.fetch k q).outcome := by
  intro s
  refine ⟨fun hs => (run_fetch hs scope k q).mono fun _ => Deed.Reading.native, ?_⟩
  intro hpre hkept hcalm
  -- what is left in the session depends on the rows alone, however the fetch ends
  have hstate : (((scope.fetch k q).outcome s).2).Kept o ∧
      Apart o.owners o.context s ((scope.fetch k q).outcome s).2 := by
    by_cases haskable : s.Askable scope.context k q
    · rw [fetch_of_askable haskable] at hcalm ⊢
      have hminds : Minds o True (fun _ => True) s
          ((answer scope k q (s.rowsNamed scope.context k)).outcome s) :=
        minds_answer hscope k q (hkept.sound.rowsFor scope.context k)
      rcases hminds.kept trivial hkept hcalm with ⟨hkept', hapart, _⟩
      exact ⟨hkept', hapart⟩
    · rcases fetch_of_not_askable haskable with ⟨fault, hfault⟩
      rw [hfault s rfl]
      exact ⟨hkept, Apart.refl _ _ s⟩
  refine ⟨hstate.1, hstate.2, ?_⟩
  rintro found hfound h hmem
  rcases hout : (scope.fetch k q).outcome s with ⟨result, s'⟩
  rw [hout] at hfound hstate
  cases hfound
  have hfetches := (fetch_spec hkept.sound scope k q).2 found s' hout
  rcases (hfetches.mem_iff hstate.1.sound).1 hmem with ⟨e, payload, he, hmatch⟩
  rcases matchOf?_eq_some hmatch with ⟨hhandle, hkind, _⟩
  rw [hscope] at he
  exact hstate.1.own_of_entry he (handle?_eq_some_iff.2 ⟨hkind, hhandle⟩)

end Reading

/-! ## Works -/

end Session

namespace Work

variable {T : Model} [Bonded T] {α β : Type} {k : T.Kind} {o : Purview} {pre pre' : Prop}
  {P : α → Prop} {Q : β → Prop} {scope : Scope}

open Session

theorem Minds.imp {w : Work T α} {P' : α → Prop} (hw : w.Minds o pre P) (hpre : pre' → pre)
    (hP : pre' → ∀ a, P a → P' a) : w.Minds o pre' P' := fun s => (hw s).imp hpre hP

theorem minds_pure {a : α} (ha : pre → P a) : Work.Minds (T := T) o pre P (pure a) :=
  fun _ => .pure ha

theorem Minds.bind {w : Work T α} {f : α → Work T β} (hw : w.Minds o pre P)
    (hf : ∀ a, (f a).Minds o (pre ∧ P a) Q) : (w >>= f).Minds o pre Q :=
  fun s => (hw s).after (hf _ _)

/-- What follows a look at the session. -/
theorem minds_get {f : Session T → Work T β} (hf : ∀ s, (f s).Minds o pre Q) :
    (get >>= f).Minds o pre Q := fun s => hf s s

theorem minds_report (event : Event) :
    Work.Minds (T := T) o pre (fun _ => True) (modify (·.report event)) :=
  fun _ => .report event fun _ => trivial

theorem minds_note (remark : Session T → T.Remark) :
    Work.Minds o pre (fun _ => True) (modify fun s => s.note (remark s) : Work T Unit) :=
  fun s => .note (remark s) fun _ => trivial

/-! ### Finding and inserting -/

section Scope

variable (hscope : scope.context = o.context)
include hscope

theorem minds_fetchOrReport (k : T.Kind) (q : Query) :
    Work.Minds (T := T) o pre (fun found => ∀ hs, found = some hs → ∀ h ∈ hs, h.Own o)
      (scope.fetchOrReport k q) := by
  refine (minds_fetch hscope k q).bind ?_
  intro found
  cases found with
  | ok found =>
    refine minds_pure ?_
    rintro ⟨_, hfound⟩ hs hhs
    cases hhs
    exact hfound found rfl
  | error fault =>
    refine (minds_report _).bind fun _ => minds_pure ?_
    intro _ hs hhs
    cases hhs

theorem minds_findByKey (k : T.Kind) (key : Option NaturalKey) :
    Work.Minds (T := T) o pre (fun found => ∀ h, found = some h → h.Own o)
      (scope.findByKey k key) := by
  cases key with
  | none => exact minds_pure fun _ h hh => by cases hh
  | some key =>
    refine (minds_fetchOrReport hscope k _).bind fun found => minds_pure ?_
    rintro ⟨_, hfound⟩ h hh
    rcases Option.bind_eq_some_iff.1 hh with ⟨hs, rfl, hlast⟩
    exact hfound hs rfl h (List.mem_of_getLast? hlast)

/-- An entity that is inserted belongs to the context. -/
theorem minds_insert (k : T.Kind) :
    Work.Minds (T := T) o pre (fun made => ∀ h, made = .ok h → h.Own o)
      (scope.insert k).outcome := by
  intro s
  have hruns := fun hs => (advances_insert scope k s hs).run
  refine ⟨hruns, ?_⟩
  intro hpre hkept hcalm
  rcases insert_cases scope k s with ⟨fault, hfault, _⟩ | ⟨store, hstore, hinsert⟩
  · rw [hfault]
    exact ⟨hkept, Apart.refl _ _ s, fun h hh => by cases hh⟩
  · have hrun := hruns hkept.sound
    rw [hinsert] at hcalm hrun ⊢
    have hnew := (hkept.numbered.unused hkept.sound hstore).1
    rcases isOpen_of_storeOf? hstore with ⟨ctx, hctx, _⟩
    rw [hscope] at hcalm hrun hnew hctx ⊢
    have hmade : Session.Minds o pre (fun made => ∀ h : Handle k, made = .ok h → h.Own o) s
        ((.ok ⟨s.entities.size, ⟨T.entityName k, store.nextKey⟩, o.context⟩ :
          Except Fault (Handle k)), s.insertUnder o.context k store.nextKey) := by
      refine .enrolled hrun entities_modifyStoreOf (fun _ => registry_modifyStoreOf)
        (context?_modifyStoreOf.trans hctx) rfl (fun _ => rfl) (fun _ => .insertUnder hnew)
        (genuine_blank o.owners k) ?_
      intro _ hkept hlt h hh
      cases hh
      have hown : (⟨s.entities.size, ⟨T.entityName k, store.nextKey⟩, scope.context⟩ :
          Handle k).Own o := own_new hscope hkept hlt
      rwa [hscope] at hown
    exact hmade.kept hpre hkept hcalm

theorem minds_insertOrReport (k : T.Kind) :
    Work.Minds (T := T) o pre (fun made => ∀ h, made = some h → h.Own o)
      (scope.insertOrReport k) := by
  refine (minds_insert hscope k).bind ?_
  intro made
  cases made with
  | ok h =>
    refine minds_pure ?_
    rintro ⟨_, hmade⟩ h' hh'
    cases hh'
    exact hmade h rfl
  | error fault =>
    refine (minds_report _).bind fun _ => minds_pure ?_
    intro _ h hh
    cases hh

theorem minds_findOrInsert (k : T.Kind) (filter : Option Filter) :
    Work.Minds (T := T) o pre (fun made => ∀ h, made = some h → h.Own o)
      (scope.findOrInsert k filter) := by
  have hlast : ∀ found : Option (List (Handle k)), Work.Minds (T := T) o
      (pre ∧ ∀ hs, found = some hs → ∀ h ∈ hs, h.Own o)
      (fun made => ∀ h, made = some h → h.Own o) (scope.lastOrInsert found) := by
    intro found
    unfold Scope.lastOrInsert
    split
    · next h hh =>
      refine minds_pure ?_
      rintro ⟨_, hfound⟩ h' hh'
      cases hh'
      rcases Option.bind_eq_some_iff.1 hh with ⟨hs, rfl, hlast⟩
      exact hfound hs rfl h (List.mem_of_getLast? hlast)
    · exact minds_insertOrReport hscope k
  cases filter with
  | none => exact (minds_fetchOrReport hscope k (.all (T.entityName k))).bind hlast
  | some filter =>
    exact (minds_fetchOrReport hscope k (.matching (T.entityName k) filter)).bind hlast

theorem minds_tryFindByKey (k : T.Kind) (key : Option NaturalKey) :
    Work.Minds (T := T) o pre (fun _ => True) (scope.tryFindByKey k key).outcome := by
  cases key with
  | none => exact minds_pure fun _ => trivial
  | some key =>
    intro s
    have hfetch : Session.Minds o pre _ s
        ((scope.fetch k (.matching (T.entityName k) key.filter)).outcome s) :=
      minds_fetch hscope k _ s
    unfold Scope.tryFindByKey
    dsimp only
    rcases hout : (scope.fetch k (.matching (T.entityName k) key.filter)).outcome s with
      ⟨fault | found, s₁⟩
    · rw [hout] at hfetch
      rw [Attempt.outcome_bind_of_error hout]
      exact hfetch.after (.pure fun _ => trivial)
    · rw [hout] at hfetch
      rw [Attempt.outcome_bind_of_ok hout]
      exact hfetch.after (.pure fun _ => trivial)

/-! ### Flags -/

omit [Bonded T] in
theorem owner_of_registered {s : Session T} {h : Handle k}
    (hregistered : s.isRegistered scope.context h = true) (hgenuine : h.bond.Genuine o.owners) :
    o.owners[h.slot]? = some o.context := by
  rw [isRegistered, Bool.and_eq_true] at hregistered
  have hcontext : h.context = scope.context := of_decide_eq_true hregistered.1
  have howner : o.owners[h.slot]? = some h.context := hgenuine
  rw [howner, hcontext, hscope]

/-- An entity of another context is refused. -/
theorem minds_delete (h : Handle k) :
    Work.Minds (T := T) o (h.bond.Genuine o.owners) (fun _ => True)
      (scope.delete h).outcome := by
  intro s
  unfold Scope.delete
  rw [Attempt.outcome_bind_of_ok (Attempt.outcome_get s)]
  split
  · next hregistered =>
    exact .mark (fun _ => (Step.delete s h.slot).run trivial) (owner_of_registered hscope hregistered)
      (fun _ hgenuine => hgenuine) (fun _ hfilling hhome => ⟨hfilling, hhome⟩) fun _ => trivial
  · exact .pure fun _ => trivial

theorem minds_makePermanent (h : Handle k) :
    Work.Minds (T := T) o (h.bond.Genuine o.owners) (fun _ => True)
      (scope.makePermanent h).outcome := by
  intro s
  unfold Scope.makePermanent
  rw [Attempt.outcome_bind_of_ok (Attempt.outcome_get s)]
  split
  · next hregistered =>
    exact .mark (fun _ => (Step.confirm s h.slot).run trivial) (owner_of_registered hscope hregistered) (fun _ hgenuine => hgenuine)
      (fun _ hfilling hhome => ⟨hfilling, hhome⟩) fun _ => trivial
  · exact .pure fun _ => trivial

theorem minds_deleteOrReport (h : Handle k) :
    Work.Minds (T := T) o (h.bond.Genuine o.owners) (fun _ => True)
      (scope.deleteOrReport h) := by
  refine (minds_delete hscope h).bind ?_
  intro removed
  cases removed with
  | ok removed => exact minds_pure fun _ => trivial
  | error fault => exact (minds_report _).bind fun _ => minds_pure fun _ => trivial

theorem minds_deleteEach (hs : List (Handle k)) :
    Work.Minds (T := T) o (∀ h ∈ hs, h.bond.Genuine o.owners) (fun _ => True)
      (scope.deleteEach hs) := by
  induction hs with
  | nil => exact minds_pure fun _ => trivial
  | cons h rest ih =>
    refine ((minds_deleteOrReport hscope h).imp
      (fun hgenuine => hgenuine h List.mem_cons_self) fun _ _ => id).bind fun removed => ?_
    refine (ih.imp (fun hpre h hh => hpre.1 h (List.mem_cons_of_mem _ hh))
      fun _ _ => id).bind fun others => ?_
    exact minds_pure fun _ => trivial

omit hscope in
/-- A save that is refused leaves no trace, and of one that succeeds nothing is promised. -/
theorem minds_save : Work.Minds (T := T) o pre (fun _ => True) (scope.save (T := T)).outcome := by
  intro s
  refine ⟨fun hs => (advances_save scope s hs).run, ?_⟩
  intro _ hkept hcalm
  rcases save_cases scope s with ⟨fault, _, hfault⟩ | ⟨changes, hcollect, hsave⟩
  · rw [hfault]
    exact ⟨hkept, Apart.refl _ _ s, trivial⟩
  · rw [hsave] at hcalm
    have hcounted := hcalm.saves
    have hcommit := (Step.save hcollect).saves_le
    rw [saves_report, Event.isSave, if_pos rfl] at hcounted
    omega

end Scope

end Work

end Reconcile
