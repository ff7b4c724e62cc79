import Reconcile.Proofs.Session.Inserting
import Reconcile.Proofs.Session.Isolation
import Reconcile.Proofs.Session.Numbering
import Reconcile.Proofs.Session.Operations

/-!
# Saves that are refused

A live entity is *obstructed* if its value is hidden, has no payload, or has one that the schema
refuses (`Obstacle`).  A save fails exactly if its context has an obstructed entity, with the fault
of the first one in key order (`Refused`), and then it has done nothing.

What the refused save would have committed is not lost.  After steps that touch, of the entities of
the context, only obstructed ones (`Spares`), and that leave none obstructed, a save commits
the rest as it was.
-/

namespace Reconcile

theorem Entity.isHeld_eq_false_iff {T : Model} {m : Entity T} :
    m.isHeld = false ↔ m.guard = .free := by
  unfold Entity.isHeld
  cases m.guard <;> simp

namespace Session

variable {T : Model} {s s' : Session T} {c : ContextId} {e : Entry T} {fault : Fault}

/-! ## What stands in the way of one entity -/

/-- Why a save cannot write an entity.  A value that is hidden has no other fault. -/
inductive Obstacle (s : Session T) (c : ContextId) (e : Entry T) : Fault → Prop where
  | hidden {m : Entity T} (hm : s.entity? e.slot = some m)
      (h : m.filling = true ∨ m.guard ≠ .free) : Obstacle s c e (.objectLocked e.id)
  | unwritable {m : Entity T} {detail : String} (hm : s.entity? e.slot = some m)
      (hfilling : m.filling = false) (hguard : m.guard = .free)
      (h : T.encode m.state = .error detail) : Obstacle s c e (.serialization detail)
  | invalid {payload : Json} {fault : Fault} (h : s.Savable e payload)
      (hchecked : (s.settingsOf c).validateOnSave = true)
      (hfault : (s.schemaOf c).require e.id.entity = .error fault ∨
        ∃ d, (s.schemaOf c).require e.id.entity = .ok d ∧ d.check payload = .error fault) :
      Obstacle s c e fault

/-- A live entity that a save cannot write. -/
def Obstructed (s : Session T) (c : ContextId) (e : Entry T) : Prop :=
  s.entryDeleted e = false ∧ ∃ fault, s.Obstacle c e fault

/-- A payload that the context checks when it saves passes the check. -/
def Passes (s : Session T) (c : ContextId) (entity : String) (payload : Json) : Prop :=
  (s.settingsOf c).validateOnSave = true →
    ∃ d, (s.schemaOf c).require entity = .ok d ∧ d.check payload = .ok ()

theorem Savable.live {payload : Json} (h : s.Savable e payload) :
    (s.entity? e.slot).bind Entity.live? = some (.ok payload) := by
  rcases h.entity with ⟨m, hm, hfilling, hguard, hencode⟩
  rw [hm, Option.bind_some, Entity.live?, hfilling, Entity.isHeld_eq_false_iff.2 hguard,
    Model.payload, hencode]
  rfl

theorem Savable.unique {payload payload' : Json} (h : s.Savable e payload)
    (h' : s.Savable e payload') : payload = payload' :=
  Except.ok.inj (Option.some.inj (h.live.symm.trans h'.live))

theorem collectWrite_of_passes {payload : Json} (h : s.Savable e payload)
    (hpasses : s.Passes c e.id.entity payload) : s.collectWrite c e = .ok (e.id, payload) := by
  unfold collectWrite
  rw [h.live]
  cases hchecked : (s.settingsOf c).validateOnSave with
  | false => rfl
  | true =>
    rcases hpasses hchecked with ⟨d, hrequire, hcheck⟩
    rw [hrequire]
    simp only [if_pos, bind, Except.bind, hcheck]
    rfl

theorem collectWrite_of_obstacle (h : s.Obstacle c e fault) :
    s.collectWrite c e = .error fault := by
  unfold collectWrite
  -- the order of the checks is that of `Obstacle`: hidden first, then the payload, then the schema
  cases h with
  | @hidden m hm hhidden =>
    have hlive : m.live? = none := by
      refine if_pos ?_
      rcases hhidden with hfilling | hguard
      · rw [hfilling, Bool.true_or]
      · cases hheld : m.isHeld with
        | false => exact absurd (Entity.isHeld_eq_false_iff.1 hheld) hguard
        | true => rw [Bool.or_true]
    rw [hm, Option.bind_some, hlive]
    rfl
  | unwritable hm hfilling hguard hencode =>
    rw [hm, Option.bind_some, Entity.live?, hfilling, Entity.isHeld_eq_false_iff.2 hguard,
      Model.payload, hencode]
    rfl
  | invalid hsavable hchecked hfault =>
    rw [hsavable.live, hchecked]
    rcases hfault with hrequire | ⟨d, hrequire, hcheck⟩
    · rw [hrequire]
      rfl
    · rw [hrequire]
      simp only [if_pos, bind, Except.bind, hcheck]

/-- An entity in memory is written with a payload that passes, or something stands in the way. -/
theorem savable_or_obstacle {m : Entity T} (hm : s.entity? e.slot = some m) (c : ContextId) :
    (∃ payload, s.Savable e payload ∧ s.Passes c e.id.entity payload) ∨
      ∃ fault, s.Obstacle c e fault := by
  cases hfilling : m.filling with
  | true => exact Or.inr ⟨_, .hidden hm (Or.inl hfilling)⟩
  | false =>
    by_cases hguard : m.guard = .free
    · cases hencode : T.encode m.state with
      | error detail => exact Or.inr ⟨_, .unwritable hm hfilling hguard hencode⟩
      | ok payload =>
        have hsavable : s.Savable e payload := ⟨m, hm, hfilling, hguard, hencode⟩
        cases hchecked : (s.settingsOf c).validateOnSave with
        | false =>
          exact Or.inl ⟨payload, hsavable, fun htrue => by cases hchecked.symm.trans htrue⟩
        | true =>
          cases hrequire : (s.schemaOf c).require e.id.entity with
          | error fault => exact Or.inr ⟨fault, .invalid hsavable hchecked (Or.inl hrequire)⟩
          | ok d =>
            cases hcheck : d.check payload with
            | error fault =>
              exact Or.inr ⟨fault, .invalid hsavable hchecked (Or.inr ⟨d, hrequire, hcheck⟩)⟩
            | ok _ => exact Or.inl ⟨payload, hsavable, fun _ => ⟨d, hrequire, hcheck⟩⟩
    · exact Or.inr ⟨_, .hidden hm (Or.inr hguard)⟩

/-! ## What stands in the way of a save -/

variable {entries : List (Entry T)} {changes : Changes}

theorem exists_collect
    (h : ∀ e ∈ entries, s.entryDeleted e = false → ∃ write, s.collectWrite c e = .ok write) :
    ∃ changes, s.collect c entries = .ok changes := by
  induction entries with
  | nil => exact ⟨_, rfl⟩
  | cons first rest ih =>
    rcases ih fun e he => h e (List.mem_cons_of_mem _ he) with ⟨tail, htail⟩
    unfold collect
    rw [htail]
    cases hdeleted : s.entryDeleted first with
    | true => exact ⟨_, rfl⟩
    | false =>
      rcases h first List.mem_cons_self hdeleted with ⟨write, hwrite⟩
      rw [hwrite]
      exact ⟨_, rfl⟩

theorem collectWrite_of_collect (h : s.collect c entries = .ok changes) {e : Entry T}
    (he : e ∈ entries) (hlive : s.entryDeleted e = false) :
    ∃ write ∈ changes.writes, s.collectWrite c e = .ok write := by
  induction entries generalizing changes with
  | nil => cases he
  | cons first rest ih =>
    unfold collect at h
    cases hdeleted : s.entryDeleted first with
    | true =>
      rw [if_pos hdeleted] at h
      rcases Outcome.bind_eq_ok.1 h with ⟨tail, htail, hpure⟩
      -- the first entry is deleted, so it is not the live one that is asked for
      have hrest : e ∈ rest := by
        refine (List.mem_cons.1 he).resolve_left ?_
        rintro rfl
        rw [hlive] at hdeleted
        cases hdeleted
      rcases ih htail hrest with ⟨write, hmem, hwrite⟩
      refine ⟨write, ?_, hwrite⟩
      cases Except.ok.inj hpure
      split <;> exact hmem
    | false =>
      rw [if_neg (by simp [hdeleted])] at h
      rcases Outcome.bind_eq_ok.1 h with ⟨write, hwrite, hrest⟩
      rcases Outcome.bind_eq_ok.1 hrest with ⟨tail, htail, hpure⟩
      cases Except.ok.inj hpure
      rcases List.mem_cons.1 he with rfl | hmem
      · exact ⟨write, List.mem_cons_self, hwrite⟩
      · rcases ih htail hmem with ⟨write', hmem', hwrite'⟩
        exact ⟨write', List.mem_cons_of_mem _ hmem', hwrite'⟩

/-- What is collected fails at the first live entity that cannot be written. -/
theorem collectWrite_of_collect_error (h : s.collect c entries = .error fault) :
    ∃ before e after, entries = before ++ e :: after ∧ s.entryDeleted e = false ∧
      s.collectWrite c e = .error fault ∧
      ∀ e' ∈ before, s.entryDeleted e' = false → ∃ write, s.collectWrite c e' = .ok write := by
  induction entries with
  | nil => cases h
  | cons first rest ih =>
    -- a fault of the rest is one of the whole, if the first entry is no obstacle
    have hrest : s.collect c rest = .error fault →
        (s.entryDeleted first = false → ∃ write, s.collectWrite c first = .ok write) →
        ∃ before e after, first :: rest = before ++ e :: after ∧ s.entryDeleted e = false ∧
          s.collectWrite c e = .error fault ∧
          ∀ e' ∈ before, s.entryDeleted e' = false → ∃ write, s.collectWrite c e' = .ok write := by
      intro htail hfirst
      rcases ih htail with ⟨before, e, after, heq, hlive, hfault, hbefore⟩
      refine ⟨first :: before, e, after, by rw [heq]; rfl, hlive, hfault, ?_⟩
      intro e' he'
      rcases List.mem_cons.1 he' with rfl | hmem
      · exact hfirst
      · exact hbefore e' hmem
    unfold collect at h
    cases hdeleted : s.entryDeleted first with
    | true =>
      rw [if_pos hdeleted] at h
      rcases Outcome.bind_eq_error.1 h with htail | ⟨tail, _, hpure⟩
      · exact hrest htail fun hlive => by rw [hdeleted] at hlive; cases hlive
      · cases hpure
    | false =>
      rw [if_neg (by simp [hdeleted])] at h
      rcases Outcome.bind_eq_error.1 h with hfault | ⟨write, hwrite, h⟩
      · exact ⟨[], first, rest, rfl, hdeleted, hfault, fun _ hmem => by cases hmem⟩
      · rcases Outcome.bind_eq_error.1 h with htail | ⟨tail, _, hpure⟩
        · exact hrest htail fun _ => ⟨write, hwrite⟩
        · cases hpure

/-- The fault of the first obstructed entity of the context, in key order. -/
def Refused (s : Session T) (c : ContextId) (fault : Fault) : Prop :=
  ∃ key e, (s.registry c).get? key = some e ∧ s.entryDeleted e = false ∧ s.Obstacle c e fault ∧
    ∀ key' e', key' < key → (s.registry c).get? key' = some e' → ¬ s.Obstructed c e'

theorem Sound.collectWrite_cases (hs : Sound s) {key : UInt64}
    (he : (s.registry c).get? key = some e) :
    (∃ payload, s.collectWrite c e = .ok (e.id, payload) ∧ s.Savable e payload ∧
      s.Passes c e.id.entity payload) ∨
    ∃ fault, s.collectWrite c e = .error fault ∧ s.Obstacle c e fault := by
  rcases (hs.lodged he).entity with ⟨m, hm, _⟩
  rcases savable_or_obstacle hm c with ⟨payload, hsavable, hpasses⟩ | ⟨fault, hobstacle⟩
  · exact Or.inl ⟨payload, collectWrite_of_passes hsavable hpasses, hsavable, hpasses⟩
  · exact Or.inr ⟨fault, collectWrite_of_obstacle hobstacle, hobstacle⟩

theorem Sound.exists_collect_iff (hs : Sound s) :
    (∃ changes, s.collect c (s.registry c).values = .ok changes) ↔
      ∀ key e, (s.registry c).get? key = some e → ¬ s.Obstructed c e := by
  constructor
  · rintro ⟨changes, hcollect⟩ key e he ⟨hlive, fault, hobstacle⟩
    rcases collectWrite_of_collect hcollect (SortedMap.mem_values_iff.2 ⟨key, he⟩) hlive with
      ⟨write, _, hwrite⟩
    rw [collectWrite_of_obstacle hobstacle] at hwrite
    cases hwrite
  · intro hfree
    refine exists_collect ?_
    intro e hmem hlive
    have he := hs.entry_of_mem hmem
    rcases hs.collectWrite_cases he with ⟨payload, hwrite, _⟩ | ⟨fault, _, hobstacle⟩
    · exact ⟨_, hwrite⟩
    · exact absurd ⟨hlive, fault, hobstacle⟩ (hfree _ e he)

theorem Sound.passes_of_collect (hs : Sound s)
    (h : s.collect c (s.registry c).values = .ok changes) {key : UInt64}
    (he : (s.registry c).get? key = some e) (hlive : s.entryDeleted e = false) {payload : Json}
    (hsavable : s.Savable e payload) : s.Passes c e.id.entity payload := by
  rcases hs.collectWrite_cases he with ⟨payload', _, hsavable', hpasses⟩ | ⟨fault, _, hobstacle⟩
  · rw [hsavable.unique hsavable']
    exact hpasses
  · exact absurd ⟨hlive, fault, hobstacle⟩ (hs.exists_collect_iff.1 ⟨changes, h⟩ key e he)

theorem Sound.refused_of_collect (hs : Sound s)
    (h : s.collect c (s.registry c).values = .error fault) : s.Refused c fault := by
  rcases collectWrite_of_collect_error h with ⟨before, e, after, heq, hlive, hfault, hbefore⟩
  rcases List.map_eq_append_iff.1 heq with ⟨front, back, hentries, hfront, hback⟩
  rcases List.map_eq_cons_iff.1 hback with ⟨⟨key, e'⟩, tail, rfl, rfl, _⟩
  have hmem : (key, e') ∈ (s.registry c).toList := by
    rw [SortedMap.toList, hentries]
    exact List.mem_append_right _ List.mem_cons_self
  have he := SortedMap.mem_toList_iff.1 hmem
  refine ⟨key, e', he, hlive, ?_, ?_⟩
  · rcases hs.collectWrite_cases he with ⟨payload, hwrite, _⟩ | ⟨fault', hfault', hobstacle⟩
    · cases hwrite.symm.trans hfault
    · cases hfault'.symm.trans hfault
      exact hobstacle
  · rintro key' e'' hlt he'' ⟨hlive', fault', hobstacle⟩
    -- an entry with a smaller key stands before, since entries are sorted
    have hin : (key', e'') ∈ front := by
      have hmem' : (key', e'') ∈ front ++ (key, e') :: tail := by
        rw [← hentries]
        exact SortedMap.mem_toList_iff.2 he''
      have hsorted : Entries.Sorted (front ++ (key, e') :: tail) := hentries ▸ (s.registry c).sorted
      rcases List.mem_append.1 hmem' with hin | hnot
      · exact hin
      · exfalso
        rcases List.mem_cons.1 hnot with heq' | htail
        · cases heq'
          exact UInt64.lt_irrefl _ hlt
        · have hgt := (List.pairwise_cons.1 (List.pairwise_append.1 hsorted).2.1).1 _ htail
          exact UInt64.lt_irrefl _ (UInt64.lt_trans hlt (Std.compare_eq_lt.1 hgt))
    have hwritable := hbefore e'' (by rw [← hfront]; exact List.mem_map.2 ⟨_, hin, rfl⟩) hlive'
    rcases hwritable with ⟨write, hwrite⟩
    rw [collectWrite_of_obstacle hobstacle] at hwrite
    cases hwrite

/-! ## Steps that spare what can be saved -/

/-- Of the entities that the context has in the session `s`, the step touches only obstructed ones,
and it does not save the context. -/
def Spares (s : Session T) (c : ContextId) : Deed → Prop
  | .changed slot | .deleted slot =>
    ∀ key e, (s.registry c).get? key = some e → e.slot = slot → s.Obstructed c e
  | .saved d => d ≠ c
  | _ => True

variable {deed : Deed}

/-- An entity that a step neither changes nor deletes keeps its mark and its payload. -/
theorem Step.untouched (h : Step s deed s') {n : Nat} {m : Entity T} (hm : s.entity? n = some m)
    (hchanged : deed ≠ .changed n) (hdeleted : deed ≠ .deleted n) :
    ∃ m', s'.entity? n = some m' ∧ m'.deleted = m.deleted ∧
      T.encode m'.state = T.encode m.state := by
  rcases h.entityFate hm with ⟨m', hm', hfate⟩
  refine ⟨m', hm', ?_⟩
  cases hfate with
  | regarded hregarded => exact ⟨hregarded.deleted, hregarded.encode⟩
  | confirmed => exact ⟨rfl, rfl⟩
  | edited => exact absurd rfl hchanged
  | deleted => exact absurd rfl hdeleted

/-- A step of a context that stays open takes nothing off its registry, unless it saves it. -/
theorem Step.registered (h : Step s deed s') (hs : Sound s) (hnumbered : Numbered s)
    (hsaved : deed ≠ .saved c) (hopen : (s'.context? c).isSome) {key : UInt64} {e : Entry T}
    (he : (s.registry c).get? key = some e) : (s'.registry c).get? key = some e := by
  -- a new entry replaces no other one, as its key is not registered
  have henroll : ∀ {a : Session T} {d : ContextId} {k : T.Kind} {id : EntityId} {v : T.Value k}
      {pending : Bool} {ctx : Context T}, a.context? d = some ctx →
      (a.registry c).get? key = some e → (d = c → id.key ≠ key) →
      ((a.enroll d k id v pending).registry c).get? key = some e := by
    intro a d k id v pending ctx hctx he hkey
    exact (get?_registry_enroll_of_ne hctx fun hd => (hkey hd.symm).symm).trans he
  cases h with
  | openContext i hi =>
    rw [registry, context?_openContext, if_neg]
    · exact he
    · rintro rfl
      rcases isOpen_of_registry he with ⟨ctx, hctx, _⟩
      exact Nat.lt_irrefl _ (hs.opened hctx).1
  | closeContext d =>
    have hne : c ≠ d := by
      rintro rfl
      rw [context?_closeContext, if_pos rfl] at hopen
      cases hopen
    rw [registry, context?_closeContext, if_neg hne]
    exact he
  | @insert d store k hstore =>
    rcases isOpen_of_storeOf? hstore with ⟨ctx, hctx, hget⟩
    refine henroll (context?_modifyStoreOf.trans hctx) (registry_modifyStoreOf.symm ▸ he) ?_
    rintro rfl hkey
    -- the key is the next key of the store, and those in use lie below
    have huse : s.InUse ctx.store e.id := by
      refine Or.inr ⟨d, key, e, ?_, he, rfl⟩
      rw [storeIdOf?, hctx]
      rfl
    have hlt := hnumbered _ _ _ hget huse
    rw [(hs.lodged he).key, ← hkey] at hlt
    exact UInt64.lt_irrefl _ hlt
  | @load d k row v hrow hname hnew hdecode =>
    rcases storeOf?_of_row? hrow with ⟨store, hstore, _⟩
    rcases isOpen_of_storeOf? hstore with ⟨ctx, hctx, _⟩
    refine henroll hctx he ?_
    rintro rfl hkey
    rw [hkey, he] at hnew
    cases hnew
  | @save d changes hcollect =>
    rw [registry_commit_of_ne s (d := c) fun hc => hsaved (by rw [hc])]
    exact he
  | _ => exact he

theorem isSome_context? (s : Session T) (c : ContextId) :
    (s.context? c).isSome = (s.storeIdOf? c).isSome := by
  rw [storeIdOf?, Option.isSome_map]

theorem Step.opened_le (h : Step s deed s') : s.opened ≤ s'.opened := by
  cases h with
  | openContext i hi => exact Nat.le_succ _
  | insert k hstore => exact Nat.le_of_eq (opened_enroll.trans opened_modifyStoreOf).symm
  | load hrow hname hnew hdecode => exact Nat.le_of_eq opened_enroll.symm
  | save hcollect =>
    rw [(settles_commit _ _ _).opened, opened_modifyStoreOf]
  | _ => exact Nat.le_refl _

/-- A context that is open after a step, and whose number was given out before, was open on the
same store. -/
theorem Step.storeIdOf? (h : Step s deed s') (hc : c.number ≤ s.opened) {i : StoreId}
    (hi : s'.storeIdOf? c = some i) : s.storeIdOf? c = some i := by
  cases h with
  | openContext j hj =>
    -- the number that is given out now is a new one
    have hne : c ≠ ⟨s.opened + 1⟩ := by
      rintro rfl
      exact Nat.lt_irrefl _ hc
    simpa [Session.storeIdOf?, context?_openContext, hne] using hi
  | closeContext d =>
    rw [Session.storeIdOf?, context?_closeContext] at hi
    split at hi
    · cases hi
    · exact hi
  | insert k hstore => simpa [storeIdOf?_insertUnder] using hi
  | load hrow hname hnew hdecode => simpa using hi
  | save hcollect => simpa [storeIdOf?_commit] using hi
  | _ => exact hi

theorem Step.was_open (h : Step s deed s') (hc : c.number ≤ s.opened)
    (hopen : (s'.context? c).isSome) : (s.context? c).isSome := by
  rw [isSome_context?] at hopen ⊢
  rcases Option.isSome_iff_exists.1 hopen with ⟨i, hi⟩
  simp [h.storeIdOf? hc hi]

/-- What was not obstructed has kept its mark and its payload. -/
def Spared (s s' : Session T) (c : ContextId) : Prop :=
  ∀ key e m, (s.registry c).get? key = some e → s.entity? e.slot = some m →
    ¬ s.Obstructed c e → ∃ m', s'.entity? e.slot = some m' ∧ m'.deleted = m.deleted ∧
      T.encode m'.state = T.encode m.state

theorem Spared.step {a b : Session T} (h : Spared s a c) (hstep : Step a deed b)
    (hspares : s.Spares c deed) : Spared s b c := by
  intro key e m he hm hfree
  rcases h key e m he hm hfree with ⟨m', hm', hdeleted, hencode⟩
  -- the steps spare what is not obstructed
  have hother : deed ≠ .changed e.slot ∧ deed ≠ .deleted e.slot := by
    constructor <;>
      rintro rfl <;>
      exact hfree (hspares key e he rfl)
  rcases hstep.untouched hm' hother.1 hother.2 with ⟨m'', hm'', hdeleted', hencode'⟩
  exact ⟨m'', hm'', hdeleted'.trans hdeleted, hencode'.trans hencode⟩

theorem Run.spared (h : Run (s.Spares c) s s') : Spared s s' c :=
  h.induct (P := fun a => Spared s a c) (fun hspares hstep ih => Spared.step ih hstep hspares)
    fun _ _ m _ hm _ => ⟨m, hm, rfl, rfl⟩

/-! ## Saving again -/

/-- What a save at `s'` that led to `s''` made of an entry that the context had at `s`. -/
structure Delivered (s s' s'' : Session T) (c : ContextId) (e : Entry T) : Prop where
  written : s'.entryDeleted e = false → ∃ payload row, s'.Savable e payload ∧
    (¬ s.Obstructed c e → s.Savable e payload) ∧
    (s''.rowsOf c).row? e.id = some row ∧ row.payload.same payload = true
  removed : s'.entryDeleted e = true →
    (s''.rowsOf c).row? e.id = if e.pending then (s'.rowsOf c).row? e.id else none
  spared : ¬ s.Obstructed c e → s'.entryDeleted e = s.entryDeleted e

theorem Spared.entryDeleted (h : Spared s s' c) (hs : Sound s) {key : UInt64}
    (he : (s.registry c).get? key = some e) (hfree : ¬ s.Obstructed c e) :
    s'.entryDeleted e = s.entryDeleted e := by
  rcases (hs.lodged he).entity with ⟨m, hm, _⟩
  rcases h key e m he hm hfree with ⟨m', hm', hdeleted, _⟩
  rw [entryDeleted_of_entity? hm, entryDeleted_of_entity? hm', hdeleted]

theorem Spared.savable (h : Spared s s' c) (hs : Sound s) {key : UInt64}
    (he : (s.registry c).get? key = some e) (hfree : ¬ s.Obstructed c e)
    (hlive : s.entryDeleted e = false) {payload : Json} (h' : s'.Savable e payload) :
    s.Savable e payload := by
  rcases (hs.lodged he).entity with ⟨m, hm, _⟩
  rcases h key e m he hm hfree with ⟨m', hm', _, hencode⟩
  -- an entity that was live and not obstructed had a payload, and it has kept it
  rcases savable_or_obstacle hm c with ⟨old, hsavable, _⟩ | hobstacle
  · rcases hsavable.entity with ⟨n, hn, hfilling, hguard, _⟩
    rcases h'.entity with ⟨n', hn', _, _, hpayload⟩
    cases hn.symm.trans hm
    cases hn'.symm.trans hm'
    exact ⟨m, hm, hfilling, hguard, hencode.symm.trans hpayload⟩
  · exact absurd ⟨hlive, hobstacle⟩ hfree

theorem Spared.delivered (h : Spared s s' c) (hs : Sound s) (hs' : Sound s') {changes : Changes}
    (hcollect : s'.collect c (s'.registry c).values = .ok changes) {key : UInt64}
    (he : (s.registry c).get? key = some e) (he' : (s'.registry c).get? key = some e) :
    Delivered s s' (s'.commit c changes).2 c e := by
  have hkey : (s'.registry c).get? e.id.key = some e := by
    rw [(hs'.lodged he').key]
    exact he'
  rcases storeOf?_of_registry hs' he' with ⟨store, hstore⟩
  constructor
  case written =>
    intro hlive
    rcases row?_commit_of_live hs' hstore hcollect hkey rfl hlive with ⟨payload, hsavable, hrow⟩
    refine ⟨payload, _, hsavable, ?_, hrow, same_written _ _ payload⟩
    intro hfree
    exact h.savable hs he hfree ((h.entryDeleted hs he hfree).symm.trans hlive) hsavable
  case removed => exact row?_commit_of_deleted hs' hstore hcollect hkey rfl
  case spared => exact h.entryDeleted hs he

theorem Delivered.of_rows {a b : Session T} (h : Delivered s s' a c e)
    (hrows : b.rowsOf c = a.rowsOf c) : Delivered s s' b c e := by
  constructor
  case written =>
    rw [hrows]
    exact h.written
  case removed =>
    rw [hrows]
    exact h.removed
  case spared => exact h.spared

/-- A save is all or nothing.  It fails exactly if an entity of its context is obstructed, and then
with the fault of the first such entity and without a trace.  When nothing is obstructed any more,
nothing but what was obstructed has been touched and everything is registered still, a save commits
all that was there to commit, and what has become of the obstructed entities.

An open context keeps what it has registered until it saves, as long as there are keys left.  A key
that is handed out again takes the place of the entity that had it. -/
theorem save_all_or_nothing (scope : Scope) (h : Run (fun _ => True) .empty s) :
    ((∃ fault s', (scope.save (T := T)).outcome s = (.error fault, s')) ↔
      ∃ key e, (s.registry scope.context).get? key = some e ∧ s.Obstructed scope.context e) ∧
    (∀ fault s', (scope.save (T := T)).outcome s = (.error fault, s') →
      s.Refused scope.context fault ∧ s' = s) ∧
    (∀ s', Run (s.Spares scope.context) s s' →
      (∀ key e, (s.registry scope.context).get? key = some e →
        (s'.registry scope.context).get? key = some e) →
      (∀ key e, (s'.registry scope.context).get? key = some e →
        ¬ s'.Obstructed scope.context e) →
      ∃ summary s'', (scope.save (T := T)).outcome s' = (.ok summary, s'') ∧
        ∀ key e, (s.registry scope.context).get? key = some e →
          Delivered s s' s'' scope.context e) := by
  have hs : Sound s := h.sound sound_empty
  -- only collecting can fail, and that changes nothing
  have hcollected : ∀ {fault a a'}, (scope.save (T := T)).outcome a = (.error fault, a') →
      a.collect scope.context (a.registry scope.context).values = .error fault ∧ a' = a := by
    intro fault a a' hfails
    rcases save_cases scope a with ⟨fault', hcollect, hfault⟩ | ⟨changes, hcollect, hsave⟩
    · cases hfails.symm.trans hfault
      exact ⟨hcollect, rfl⟩
    · cases hfails.symm.trans hsave
  refine ⟨⟨?_, ?_⟩, ?_, ?_⟩
  · rintro ⟨fault, s', hfails⟩
    rcases hs.refused_of_collect (hcollected hfails).1 with ⟨key, e, he, hlive, hobstacle, _⟩
    exact ⟨key, e, he, hlive, fault, hobstacle⟩
  · rintro ⟨key, e, he, hobstructed⟩
    rcases save_cases scope s with ⟨fault, _, hfault⟩ | ⟨changes, hcollect, _⟩
    · exact ⟨fault, s, hfault⟩
    · exact absurd hobstructed (hs.exists_collect_iff.1 ⟨changes, hcollect⟩ key e he)
  · intro fault s' hfails
    exact ⟨hs.refused_of_collect (hcollected hfails).1, (hcollected hfails).2⟩
  · intro s' hrun hregistered hfree
    have hs' : Sound s' := hrun.sound hs
    have hspared : Spared s s' scope.context := hrun.spared
    rcases save_cases scope s' with ⟨fault, hcollect, _⟩ | ⟨changes, hcollect, hsave⟩
    · rcases hs'.exists_collect_iff.2 hfree with ⟨changes, hok⟩
      cases hcollect.symm.trans hok
    · refine ⟨_, _, hsave, ?_⟩
      intro key e he
      exact (hspared.delivered hs hs' hcollect he (hregistered key e he)).of_rows rfl

/-! ## A tag that somebody holds

Somebody holds the new red tag, so it cannot be saved.  When they let go of it, it can.
-/

section Holding

open Sample

def redHeld : Session model :=
  redWritten.modifyEntity 0 fun _ => (tagNamed (some "red") true).hold

def redReleased : Session model :=
  redHeld.modifyEntity 0 fun _ => tagNamed (some "red") true

theorem run_redHeld : Run (fun _ => True) .empty redHeld := by
  rcases tracked_redWritten with ⟨L, hwritten⟩
  have hstep : Step redWritten .quiet redHeld := Step.regard rfl (Entity.regarded_hold rfl)
  exact (hwritten.run.mono fun _ _ => trivial).trans (hstep.run trivial)

theorem save_of_held_tag :
    ((Scope.within ⟨1⟩).save (T := model)).outcome redHeld =
      (.error (.objectLocked tagId), redHeld) ∧
    ∃ summary s'', ((Scope.within ⟨1⟩).save (T := model)).outcome redReleased =
        (.ok summary, s'') ∧ ∃ row, (s''.rowsOf ⟨1⟩).row? tagId = some row := by
  have hentry : (redHeld.registry ⟨1⟩).get? 1 = some ⟨Kind.tag, ⟨0, tagId, ⟨1⟩⟩, true⟩ := rfl
  have hheld : (tagNamed (some "red") true).hold.Regarded (tagNamed (some "red") true) :=
    ⟨rfl, rfl, rfl, rfl, rfl, rfl, fun hguard => by cases hguard⟩
  have hrelease : Step redHeld .quiet redReleased := Step.regard rfl hheld
  have hrun : Run (redHeld.Spares ⟨1⟩) redHeld redReleased := hrelease.run trivial
  have hsound : Sound redReleased := (run_redHeld.trans (hrelease.run trivial)).sound sound_empty
  have hcollect : redReleased.collect ⟨1⟩ (redReleased.registry ⟨1⟩).values =
      .ok (tagChanges "red") := rfl
  rcases save_all_or_nothing (.within ⟨1⟩) run_redHeld with ⟨_, _, hagain⟩
  rcases hagain redReleased hrun (fun _ _ he => he)
    (hsound.exists_collect_iff.1 ⟨_, hcollect⟩) with ⟨summary, s'', hsave, hdelivered⟩
  refine ⟨rfl, summary, s'', hsave, ?_⟩
  rcases (hdelivered 1 _ hentry).written rfl with ⟨payload, row, _, _, hrow, _⟩
  exact ⟨row, hrow⟩

end Holding

end Session

end Reconcile
