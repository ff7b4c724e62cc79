import Reconcile.Proofs.Mapping.Minding

/-!
# Operations leave other contexts alone

The owners of entities are no part of a session; they are kept beside it, and grow with the memory.
It is in their `Custody` if everything in a registry belongs to its context and all handles in values
are genuine.  Handles can only be had from the session, so this is so in every session that programs
get to (`Reached`).

Every operation of a context with handles and fields of its own (`Operation`) minds the entities of
the context.  So it keeps apart from the others, as long as no save in the midst of it succeeds.
-/

namespace Reconcile

namespace Session

variable {T : Model} [Bonded T] {s s' : Session T} {owners : Owners} {c : ContextId}

/-! ## Custody -/

/-- It is known who owns the entities in memory, and no handle in a value lies about it. -/
structure Custody (owners : Owners) (s : Session T) : Prop where
  length : owners.length = s.entities.size
  owned : Owned owners s
  genuine : ∀ n m, s.entity? n = some m → Genuine owners m.state

/-- The owners after the context worked. -/
def ownersAfter (owners : Owners) (c : ContextId) (s s' : Session T) : Owners :=
  owners ++ List.replicate (s'.entities.size - s.entities.size) c

theorem custody_empty : Custody (T := T) [] .empty where
  length := rfl
  owned c key e he := by
    have hnone : (empty : Session T).registry c = .empty := rfl
    rw [hnone] at he
    cases he
  genuine n m hm := by cases hm

namespace Custody

theorem kept (h : s.Custody owners) (hrun : Run (fun _ => True) .empty s) (hkeys : s.KeysLeft)
    (more : Nat) : s.Kept ⟨owners ++ List.replicate more c, c, []⟩ where
  run := hrun
  keys := hkeys
  owned d key e he := by
    have howner := h.owned d key e he
    rcases List.getElem?_eq_some_iff.1 howner with ⟨hlt, _⟩
    exact (List.getElem?_append_left hlt).trans howner
  fresh n d hn hd := by
    have hd : (owners ++ List.replicate more c)[n]? = some d := hd
    rw [List.getElem?_append_right (h.length ▸ hn)] at hd
    exact (List.mem_replicate.1 (List.mem_of_getElem? hd)).2
  genuine n m hm := (h.genuine n m hm).mono _
  pinned _ _ hpin := absurd hpin List.not_mem_nil

theorem of_kept {o : Purview} (h : s.Kept o) (hlength : o.owners.length = s.entities.size) :
    s.Custody o.owners := ⟨hlength, h.owned, h.genuine⟩

/-- What adds nothing and puts nothing into values keeps custody. -/
theorem of_same (h : s.Custody owners) (hsize : s'.entities.size = s.entities.size)
    (hentry : ∀ d key e, (s'.registry d).get? key = some e →
      ∃ e₀, (s.registry d).get? key = some e₀ ∧ e.slot = e₀.slot)
    (hentity : ∀ n m, s'.entity? n = some m → ∃ m₀, s.entity? n = some m₀ ∧
      (Genuine owners m₀.state → Genuine owners m.state)) : s'.Custody owners where
  length := h.length.trans hsize.symm
  owned d key e he := by
    rcases hentry d key e he with ⟨e₀, he₀, hslot⟩
    rw [hslot]
    exact h.owned d key e₀ he₀
  genuine n m hm := by
    rcases hentity n m hm with ⟨m₀, hm₀, hgenuine⟩
    exact hgenuine (h.genuine n m₀ hm₀)

theorem openStore (h : s.Custody owners) (schema : Schema) (settings : Settings) :
    (s.openStore schema settings).2.Custody owners :=
  h.of_same rfl (fun _ _ e he => ⟨e, he, rfl⟩) fun _ m hm => ⟨m, hm, id⟩

theorem openContext (h : s.Custody owners) (i : StoreId) :
    (s.openContext i).2.Custody owners :=
  h.of_same rfl (fun _ _ e he => ⟨e, registry_of_openContext he, rfl⟩) fun _ m hm => ⟨m, hm, id⟩

theorem closeContext (h : s.Custody owners) (c : ContextId) :
    (s.closeContext c).Custody owners :=
  h.of_same rfl (fun _ _ e he => ⟨e, registry_of_closeContext he, rfl⟩) fun _ m hm => ⟨m, hm, id⟩

theorem restore (h : s.Custody owners) (i : StoreId) (store : Store) :
    (s.modifyStore i fun _ => store).Custody owners :=
  h.of_same rfl (fun _ _ e he => ⟨e, he, rfl⟩) fun _ m hm => ⟨m, hm, id⟩

theorem report (h : s.Custody owners) (event : Event) : (s.report event).Custody owners :=
  h.of_same rfl (fun _ _ e he => ⟨e, he, rfl⟩) fun _ m hm => ⟨m, hm, id⟩

/-- A save takes entities off registries, but nothing out of memory. -/
theorem save (h : s.Custody owners) (c : ContextId) (changes : Changes) :
    (s.commit c changes).2.Custody owners := by
  have hentity := entity?_commit s c changes
  refine h.of_same (Nat.le_antisymm (size_le_of_entity? ?_) (size_le_of_entity? ?_)) ?_ ?_
  · intro n m hm
    rcases hentity n with ⟨kept, hkept⟩
    rw [hkept] at hm
    rcases Option.map_eq_some_iff.1 hm with ⟨m₀, hm₀, _⟩
    exact ⟨m₀, hm₀⟩
  · intro n m hm
    rcases hentity n with ⟨kept, hkept⟩
    rw [hkept, hm]
    exact ⟨_, rfl⟩
  · intro d key e he
    rcases entry_of_commit he with ⟨pending, hold⟩
    exact ⟨_, hold, rfl⟩
  · intro n m hm
    rcases hentity n with ⟨kept, hkept⟩
    rw [hkept] at hm
    rcases Option.map_eq_some_iff.1 hm with ⟨m₀, hm₀, rfl⟩
    exact ⟨m₀, hm₀, id⟩

end Custody

end Session

/-! ## Operations -/

/-- A hook of a program that works in the context, with handles of which the owners are known. -/
def Hook.Confined {T : Model} [Bonded T] {k : T.Kind} (owners : Owners) (c : ContextId)
    (hook : Hook T k) : Prop := ∀ more, hook.Minds ⟨owners ++ more, c, []⟩ True

namespace Mapping

variable {T : Model} [Bonded T] {M : Mapping T} {owners : Owners} {scope : Scope}
  {s s' : Session T}

open Session

/-- What a context can do with handles and fields of its own, by where it ends. -/
inductive Operation (M : Mapping T) (owners : Owners) (scope : Scope) (s : Session T) :
    Session T → Prop
  | insert (k : T.Kind) : Operation M owners scope s ((scope.insert k).outcome s).2
  | insertOrReport (k : T.Kind) : Operation M owners scope s (scope.insertOrReport k s).2
  | findOrInsert (k : T.Kind) (filter : Option Filter) :
      Operation M owners scope s (scope.findOrInsert k filter s).2
  | fetch (k : T.Kind) (q : Query) : Operation M owners scope s ((scope.fetch k q).outcome s).2
  | fetchOrReport (k : T.Kind) (q : Query) :
      Operation M owners scope s (scope.fetchOrReport k q s).2
  | findUnique {k : T.Kind} (p : M.Plain k) : Operation M owners scope s (M.findUnique scope p s).2
  | tryFindUnique {k : T.Kind} (p : M.Plain k) :
      Operation M owners scope s ((M.tryFindUnique scope p).outcome s).2
  | findOrInsertUnique {k : T.Kind} (p : M.Plain k) :
      Operation M owners scope s (M.findOrInsertUnique scope p s).2
  | locate (k : T.Kind) (id : EntityId) :
      Operation M owners scope s ((scope.locate k id).outcome s).2
  | resolveOne {k : T.Kind} (r : ToOne k) (hr : Vouched owners r.bonds) :
      Operation M owners scope s (r.resolveIn scope s).2
  | resolveIn {k : T.Kind} {R : T.Kind → Type} [ToMany R] (r : R k)
      (hr : Vouched owners (ToMany.bonds r)) :
      Operation M owners scope s (ToMany.resolveIn scope r s).2
  | target {k : T.Kind} (r : ToOne k) (hr : Vouched owners r.bonds)
      (hsource : ∀ d ∈ r.source, d = scope.context) : Operation M owners scope s (r.target s).2
  | handles {k : T.Kind} {R : T.Kind → Type} [ToMany R] (r : R k)
      (hr : Vouched owners (ToMany.bonds r)) (hsource : ∀ d ∈ ToMany.source r, d = scope.context) :
      Operation M owners scope s (ToMany.handles r s).2
  | makePermanent {k : T.Kind} (h : Handle k) (hh : h.bond.Genuine owners) :
      Operation M owners scope s ((scope.makePermanent h).outcome s).2
  | delete {k : T.Kind} (h : Handle k) (hh : h.bond.Genuine owners) :
      Operation M owners scope s ((scope.delete h).outcome s).2
  | deleteOrReport {k : T.Kind} (h : Handle k) (hh : h.bond.Genuine owners) :
      Operation M owners scope s (scope.deleteOrReport h s).2
  | deleteAll {k : T.Kind} {R : T.Kind → Type} [ToMany R] (r : R k)
      (hr : Vouched owners (ToMany.bonds r)) : Operation M owners scope s (scope.deleteAll r s).2
  | deleteCascade {k : T.Kind} {R : T.Kind → Type} [ToMany R] (field : Option (R k))
      (hfield : ∀ r, field = some r → Vouched owners (ToMany.bonds r)) :
      Operation M owners scope s (scope.deleteCascade field s).2
  | hold {k : T.Kind} {h : Handle k} (hh : h.Own ⟨owners, scope.context, []⟩) {m : Entity T}
      (hm : s.entity? h.slot = some m) (hfree : m.guard = .free) :
      Operation M owners scope s (s.hold h)
  | write {k : T.Kind} {h : Handle k} (hh : h.Own ⟨owners, scope.context, []⟩) (hholds : s.Holds h)
      {v : T.Value k} (hv : Genuine owners v) : Operation M owners scope s (s.write h v)
  | release {k : T.Kind} {h : Handle k} (hh : h.Own ⟨owners, scope.context, []⟩)
      (hholds : s.Holds h) : Operation M owners scope s (s.release h)
  | save : Operation M owners scope s ((scope.save (T := T)).outcome s).2
  | reconcile {k : T.Kind} (p : M.Plain k) {hook : Hook T k}
      (hhook : hook.Confined owners scope.context) :
      Operation M owners scope s (M.reconcile scope p hook s).2
  | syncSet {k : T.Kind} (ps : List (M.Plain k)) {hook : Hook T k}
      (hhook : hook.Confined owners scope.context) :
      Operation M owners scope s (M.syncSet scope ps hook s).2
  | syncList {k : T.Kind} (ps : List (M.Plain k)) {hook : Hook T k}
      (hhook : hook.Confined owners scope.context) :
      Operation M owners scope s (M.syncList scope ps hook s).2
  | syncOne {k : T.Kind} (field : Option (ToOne k)) (p : Option (M.Plain k)) :
      Operation M owners scope s (M.syncOne scope field p s).2
  | replaceSet {k : T.Kind} (field : Option (MemberSet k))
      (hfield : ∀ r, field = some r → Vouched owners (ToMany.bonds r))
      (ps : Option (List (M.Plain k))) {hook : Hook T k}
      (hhook : hook.Confined owners scope.context) :
      Operation M owners scope s (M.replaceSet scope field ps hook s).2
  | replaceList {k : T.Kind} (field : Option (MemberList k))
      (hfield : ∀ r, field = some r → Vouched owners (ToMany.bonds r))
      (ps : Option (List (M.Plain k))) {hook : Hook T k}
      (hhook : hook.Confined owners scope.context) :
      Operation M owners scope s (M.replaceList scope field ps hook s).2
  | replaceOne {k : T.Kind} (field : Option (ToOne k))
      (hfield : ∀ r, field = some r → Vouched owners r.bonds) (p : Option (M.Plain k)) :
      Operation M owners scope s (M.replaceOne scope field p s).2

theorem Minds.reconcile (hM : M.Minds) {o : Purview} (hscope : scope.context = o.context)
    {k : T.Kind} (p : M.Plain k) {hook : Hook T k} (hhook : hook.Minds o True) :
    Work.Minds o True (fun found => ∀ h, found = some h → h.Own o) (M.reconcile scope p hook) :=
  hM.reconcileBelow hscope _ k p _ hook hhook

theorem Operation.minds (hM : M.Minds) (h : M.Operation owners scope s s') (more : Owners) :
    Session.Minds ⟨owners ++ more, scope.context, []⟩ True (fun _ => True) s ((), s') := by
  have hpure : ∀ {k : T.Kind}, Hook.Minds (k := k) ⟨owners ++ more, scope.context, []⟩ True pure :=
    Hook.minds_of_function fun _ _ => id
  cases h with
  | insert k => exact (Work.minds_insert rfl k s).ended
  | insertOrReport k => exact (Work.minds_insertOrReport rfl k s).ended
  | findOrInsert k filter => exact (Work.minds_findOrInsert rfl k filter s).ended
  | fetch k q => exact (minds_fetch rfl k q s).ended
  | fetchOrReport k q => exact (Work.minds_fetchOrReport rfl k q s).ended
  | findUnique p => exact (Work.minds_findByKey rfl _ _ s).ended
  | tryFindUnique p => exact (Work.minds_tryFindByKey rfl _ _ s).ended
  | findOrInsertUnique p => exact (minds_findOrInsertUnique rfl p s).ended
  | locate k id => exact (minds_locate rfl k id s).ended
  | resolveOne r hr =>
    exact ((Work.minds_resolveOne rfl r s).imp (fun _ => hr.mono more) fun _ _ => id).ended
  | resolveIn r hr =>
    exact ((Work.minds_resolveIn rfl r s).imp (fun _ => hr.mono more) fun _ _ => id).ended
  | target r hr hsource =>
    exact ((Work.minds_target hsource s).imp (fun _ => hr.mono more) fun _ _ => id).ended
  | handles r hr hsource =>
    exact ((Work.minds_bindAll hsource _ s).imp
      (fun _ => vouched_toMany_iff.1 (hr.mono more)) fun _ _ => id).ended
  | makePermanent h hh =>
    exact ((Work.minds_makePermanent rfl h s).imp (fun _ => hh.mono more) fun _ _ => id).ended
  | delete h hh =>
    exact ((Work.minds_delete rfl h s).imp (fun _ => hh.mono more) fun _ _ => id).ended
  | deleteOrReport h hh =>
    exact ((Work.minds_deleteOrReport rfl h s).imp (fun _ => hh.mono more) fun _ _ => id).ended
  | deleteAll r hr =>
    exact ((Work.minds_deleteAll rfl r s).imp (fun _ => hr.mono more) fun _ _ => id).ended
  | deleteCascade field hfield =>
    exact (Work.minds_deleteCascade rfl (fun _ r hr => (hfield r hr).mono more) s).ended
  | hold hh hm hfree =>
    exact .mark (fun _ => (proceeds_hold hm hfree).run) (fun _ => (hh.mono more).owner)
      (fun _ => id) (fun _ hfilling hhome => ⟨hfilling, hhome⟩) fun _ => trivial
  | write hh hholds hv =>
    refine .modify (fun _ => (proceeds_write hholds _).run) (fun _ => (hh.mono more).owner)
      ?_ fun _ => trivial
    intro _ _ m _
    refine ⟨?_, fun _ hpin => absurd hpin List.not_mem_nil⟩
    unfold Entity.write
    split <;> exact hv.mono more
  | release hh hholds =>
    refine .modify (fun _ => (proceeds_release hholds).run) (fun _ => (hh.mono more).owner)
      ?_ fun _ => trivial
    intro _ hkept m hm
    refine ⟨?_, fun _ hpin => absurd hpin List.not_mem_nil⟩
    have hgenuine := hkept.genuine _ m hm
    rcases m with ⟨kind, state, published, temporary, deleted, filling, _ | touched⟩
    · exact hgenuine
    · cases touched <;> exact hgenuine
  | save => exact (Work.minds_save s).ended
  | reconcile p hhook => exact (hM.reconcile rfl p (hhook more) s).ended
  | syncSet ps hhook =>
    exact (Work.minds_buildSet (fun p _ => hM.reconcile rfl p (hhook more)) s).ended
  | syncList ps hhook =>
    exact (Work.minds_buildList (fun p _ => hM.reconcile rfl p (hhook more)) s).ended
  | syncOne field p =>
    cases p with
    | none => exact .pure fun _ => trivial
    | some p =>
      exact ((hM.reconcile rfl p hpure).bind
        (fun _ => Work.minds_pure fun _ => trivial : ∀ found, Work.Minds _ _ (fun _ => True) _) s).ended
  | replaceSet field hfield ps hhook =>
    refine (Work.minds_replaceAll rfl (fun _ r hr => (hfield r hr).mono more)
      (P := fun _ => True) ?_ s).ended
    intro build hbuild
    rcases Option.map_eq_some_iff.1 hbuild with ⟨ps, _, rfl⟩
    exact (Work.minds_buildSet fun p _ => hM.reconcile rfl p (hhook more)).imp id
      fun _ _ _ => trivial
  | replaceList field hfield ps hhook =>
    refine (Work.minds_replaceAll rfl (fun _ r hr => (hfield r hr).mono more)
      (P := fun _ => True) ?_ s).ended
    intro build hbuild
    rcases Option.map_eq_some_iff.1 hbuild with ⟨ps, _, rfl⟩
    exact (Work.minds_buildList fun p _ => hM.reconcile rfl p (hhook more)).imp id
      fun _ _ _ => trivial
  | replaceOne field hfield p =>
    refine (Work.minds_replaceOne rfl (fun _ r hr => (hfield r hr).mono more) ?_ s).ended
    intro build hbuild
    rcases Option.map_eq_some_iff.1 hbuild with ⟨p, _, rfl⟩
    exact hM.reconcile rfl p hpure

/-- An operation in which no save succeeds keeps apart, and what it adds belongs to its context. -/
theorem Operation.apart (hM : M.Minds) (h : M.Operation owners scope s s')
    (hrun : Run (fun _ => True) .empty s) (hcustody : s.Custody owners) (hkeys : s'.KeysLeft)
    (hsaves : s'.saves = s.saves) :
    s'.Custody (ownersAfter owners scope.context s s') ∧
      Apart (ownersAfter owners scope.context s s') scope.context s s' := by
  have hminds := h.minds hM (List.replicate (s'.entities.size - s.entities.size) scope.context)
  have hrun' := hminds.runs (hrun.sound sound_empty)
  have hlength : (ownersAfter owners scope.context s s').length = s'.entities.size := by
    have hsize : s.entities.size ≤ s'.entities.size := hrun'.size_le
    rw [ownersAfter, List.length_append, List.length_replicate, hcustody.length]
    omega
  have hkept := hcustody.kept (c := scope.context) hrun (hrun'.keysLeft hkeys)
    (s'.entities.size - s.entities.size)
  rcases hminds.kept trivial hkept ⟨hkeys, hsaves, Nat.le_of_eq hlength.symm⟩ with
    ⟨hkept', hapart, _⟩
  exact ⟨.of_kept hkept' hlength, hapart⟩

/-- The sessions that programs get to, with the owners of what is in memory.  What is saved is saved
between operations, not in the midst of a fill. -/
inductive Reached (M : Mapping T) : Owners → Session T → Prop
  | empty : Reached M [] .empty
  | openStore {owners : Owners} {s : Session T} (h : Reached M owners s) (schema : Schema)
      (settings : Settings) : Reached M owners (s.openStore schema settings).2
  | openContext {owners : Owners} {s : Session T} (h : Reached M owners s) {i : StoreId}
      (hi : (s.store? i).isSome) : Reached M owners (s.openContext i).2
  | closeContext {owners : Owners} {s : Session T} (h : Reached M owners s) (c : ContextId) :
      Reached M owners (s.closeContext c)
  | restore {owners : Owners} {s : Session T} (h : Reached M owners s) {i : StoreId}
      {store store' : Store} {snapshot : Snapshot} (hstore : s.store? i = some store)
      (hrestore : store.restore snapshot = .ok store') :
      Reached M owners (s.modifyStore i fun _ => store')
  | save {owners : Owners} {s : Session T} (h : Reached M owners s) (scope : Scope) :
      Reached M owners ((scope.save (T := T)).outcome s).2
  | operate {owners : Owners} {s s' : Session T} {scope : Scope} (h : Reached M owners s)
      (hoperation : M.Operation owners scope s s') (hsaves : s'.saves = s.saves) :
      Reached M (ownersAfter owners scope.context s s') s'

theorem Reached.run (hM : M.Minds) (h : M.Reached owners s) : Run (fun _ => True) .empty s := by
  induction h with
  | empty => exact Run.refl _
  | openStore _ schema settings ih => exact ih.trans ((Step.openStore _ schema settings).run trivial)
  | openContext _ hi ih => exact ih.trans ((Step.openContext _ _ hi).run trivial)
  | closeContext _ c ih => exact ih.trans ((Step.closeContext _ c).run trivial)
  | restore _ hstore hrestore ih => exact ih.trans ((Step.restore hstore hrestore).run trivial)
  | save _ scope ih =>
    have hsave := (advances_save (T := T) scope _ (ih.sound sound_empty)).run
    exact ih.trans (hsave.mono fun _ _ => trivial)
  | operate _ hoperation _ ih =>
    have hrun := (hoperation.minds hM []).runs (ih.sound sound_empty)
    exact ih.trans (hrun.mono fun _ _ => trivial)

/-- Programs come by genuine handles only. -/
theorem Reached.custody (hM : M.Minds) (h : M.Reached owners s) (hkeys : s.KeysLeft) :
    s.Custody owners := by
  induction h with
  | empty => exact custody_empty
  | openStore _ schema settings ih => exact (ih hkeys).openStore schema settings
  | openContext _ _ ih => exact (ih hkeys).openContext _
  | closeContext _ c ih => exact (ih hkeys).closeContext c
  | restore _ _ _ ih => exact (ih hkeys).restore _ _
  | @save owners s h scope ih =>
    have hbefore : s.KeysLeft :=
      (advances_save (T := T) scope s ((h.run hM).sound sound_empty)).run.keysLeft hkeys
    rcases save_cases scope s with ⟨_, _, hsave⟩ | ⟨changes, _, hsave⟩
    · rw [hsave]
      exact ih hbefore
    · rw [hsave]
      exact ((ih hbefore).save scope.context changes).report _
  | operate h hoperation hsaves ih =>
    have hrun := (hoperation.minds hM []).runs ((h.run hM).sound sound_empty)
    exact (hoperation.apart hM (h.run hM) (ih (hrun.keysLeft hkeys)) hkeys hsaves).1

end Mapping

end Reconcile
