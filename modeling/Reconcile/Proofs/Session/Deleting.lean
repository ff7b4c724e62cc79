import Reconcile.Proofs.Session.Removing

/-!
# Deleting an entity by its handle

A delete goes by the context and the key of a handle, and marks the object of the handle.  If the
context has this object registered, then nothing in the context answers to the id any more, and the
next save takes its row off the store (`Gone`).

The registration can be of another object.  A save drops what is deleted from the registry, another
context may write the row again, and the next fetch registers a new object under the old id.  The
old handle then still passes for registered.  If it was not registered again, a second delete by the
old handle is refused.

A save writes nothing of a pending insert that was deleted.  So a row stays that an import has put
under the key in the meantime.  Without imports, and as long as keys are left, there is no such row
(`Vouched`).
-/

namespace Reconcile

namespace Session

variable {T : Model} {k : T.Kind} {s s₁ s' : Session T} {scope : Scope} {c : ContextId}
  {h : Handle k} {id : EntityId}

/-! ## Entities that are gone -/

/-- The context answers no fetch and no lookup with this id. -/
structure Unfound (s : Session T) (c : ContextId) (id : EntityId) : Prop where
  fetched : ∀ (binding : Bool) (k : T.Kind) (q : Query) (found : List (Handle k)) (s' : Session T),
    ((Scope.mk c binding).fetch k q).outcome s = (.ok found, s') → ∀ x ∈ found, x.id ≠ id
  located : ∀ (binding : Bool) (k : T.Kind) (id' : EntityId) (x : Handle k) (s' : Session T),
    ((Scope.mk c binding).locate k id').outcome s = (.ok x, s') → x.id ≠ id

/-- The context answers no fetch and no lookup with this id, and a save of it leaves no row. -/
structure Gone (s : Session T) (c : ContextId) (id : EntityId) : Prop extends s.Unfound c id where
  saved : ∀ (binding : Bool) (summary : Summary) (s' : Session T),
    ((Scope.mk c binding).save (T := T)).outcome s = (.ok summary, s') →
      (s'.rowsOf c).row? id = none

/-- The registry vouches for the row of the id, if the store has one: the object of the id is registered
and is no pending insert.  Only an import brings rows under keys that are in use already. -/
def Vouched (s : Session T) (c : ContextId) (id : EntityId) : Prop :=
  ((s.rowsOf c).row? id).isSome →
    ∃ e, (s.registry c).get? id.key = some e ∧ e.id = id ∧ e.pending = false

/-- What is handed out after some reading was not registered as deleted before. -/
theorem Delivers.id_ne {allow : Deed → Prop} {x : Handle k} (hdelivers : s'.Delivers c x)
    {e : Entry T} (he : (s.registry c).get? id.key = some e)
    (hdeleted : e.id = id → s.entryDeleted e = true) (hgrows : Grows s s')
    (hrun : Run allow s s') : x.id ≠ id := by
  intro hid
  rcases hdelivers.enrolled with ⟨pending, hentry⟩
  rw [hdelivers.context, hid] at hentry
  -- the entry under the key is still the one from before
  cases (hgrows.registry c _ _ he).symm.trans hentry
  have hgone : s'.isDeleted x = true := hrun.deleted (hdeleted hid)
  rw [hdelivers.live] at hgone
  cases hgone

/-- What a context has registered as deleted is not found. -/
theorem unfound_of_deleted (hsound : Sound s) {e : Entry T}
    (he : (s.registry c).get? id.key = some e) (hdeleted : e.id = id → s.entryDeleted e = true) :
    s.Unfound c id := by
  constructor
  case fetched =>
    intro binding k q found s' hfetch x hx
    have hgrows : Grows s s' := by simpa [hfetch] using (loads_fetch hsound ⟨c, binding⟩ k q).toGrows
    have hrun : Run Deed.Reading s s' := by simpa [hfetch] using run_fetch hsound ⟨c, binding⟩ k q
    exact (delivers_fetch hsound hfetch hx).id_ne he hdeleted hgrows hrun
  case located =>
    intro binding k id' x s' hlocate
    have hlocates := locates hsound ⟨c, binding⟩ k id'
    rw [hlocate] at hlocates
    exact (delivers_locate hsound hlocate).1.id_ne he hdeleted hlocates.loads.toGrows hlocates.run

/-- What is live in the registry is found by its id. -/
theorem Unfound.deleted (hunfound : s.Unfound c id) (hsound : Sound s) {e : Entry T}
    (he : (s.registry c).get? id.key = some e) (hid : e.id = id) : s.entryDeleted e = true := by
  rcases (hsound.lodged he).entity with ⟨m, hm, _⟩
  rw [entryDeleted_of_entity? hm]
  by_contra hlive
  subst hid
  have hlocate : ((⟨c, true⟩ : Scope).locate e.kind e.handle.id).outcome s = (.ok e.handle, s) :=
    locate_of_entry hsound he hm (by simpa using hlive)
  exact hunfound.located true e.kind e.id e.handle s hlocate rfl

/-- A save takes the row of what is not found any more, if the registry vouches for the row. -/
theorem Unfound.row?_commit (hunfound : s.Unfound c id) (hsound : Sound s) (hvouched : s.Vouched c id)
    {changes : Changes} (hcollect : s.collect c (s.registry c).values = .ok changes) :
    ((s.commit c changes).2.rowsOf c).row? id = none := by
  by_cases hentry : ∃ e, (s.registry c).get? id.key = some e ∧ e.id = id
  · rcases hentry with ⟨e, he, hid⟩
    have hdeleted := hunfound.deleted hsound he hid
    cases hstore : s.storeOf? c with
    | none =>
      rw [rowsOf_commit_of_none hstore, rowsOf, hstore]
      rfl
    | some store =>
      rw [row?_commit_of_deleted hsound hstore hcollect he hid hdeleted]
      split
      · next hpending =>
        -- the save writes nothing of a pending insert, which has no row
        cases hrow : (s.rowsOf c).row? id with
        | none => rfl
        | some row =>
          rcases hvouched (by simp [hrow]) with ⟨e', he', _, hcommitted⟩
          cases he.symm.trans he'
          cases hpending.symm.trans hcommitted
      · rfl
  · have hother : ∀ e, (s.registry c).get? id.key = some e → e.id ≠ id :=
      fun e he hid => hentry ⟨e, he, hid⟩
    rw [row?_commit_of_unregistered hsound hcollect hother]
    cases hrow : (s.rowsOf c).row? id with
    | none => rfl
    | some row =>
      rcases hvouched (by simp [hrow]) with ⟨e, he, hid, _⟩
      exact absurd ⟨e, he, hid⟩ hentry

theorem Unfound.gone (hunfound : s.Unfound c id) (hsound : Sound s) (hvouched : s.Vouched c id) :
    s.Gone c id := by
  refine ⟨hunfound, ?_⟩
  intro binding summary s' hsave
  rcases save_ok hsave with ⟨changes, hcollect, _, rfl⟩
  rw [rowsOf_report]
  exact hunfound.row?_commit hsound hvouched hcollect

/-- Where nothing is imported and keys are left, rows are of what is registered under their keys. -/
theorem vouched_of_native (hnative : Run Deed.Native .empty s) (hkeys : s.KeysLeft) {e : Entry T}
    (he : (s.registry c).get? id.key = some e) : s.Vouched c id := by
  intro hrow
  have hid : e.id = id := by
    by_contra hother
    have hnone := (hnative.unambiguous hkeys).row?_of_taken (hnative.sound sound_empty) he hother
    simp [hnone] at hrow
  refine ⟨e, he, hid, ?_⟩
  by_contra hpending
  -- an entity that was not saved since it was inserted has no row
  have hreserved := hnative.reserved sound_empty numbered_empty reserved_empty hkeys
  have hnone := hreserved.row?_of_pending he (by simpa using hpending)
  simp [← hid, hnone] at hrow

/-- Without imports and with keys left, what a context has registered as deleted is gone. -/
theorem gone_of_deleted (hnative : Run Deed.Native .empty s) (hkeys : s.KeysLeft) {e : Entry T}
    (he : (s.registry c).get? id.key = some e) (hdeleted : e.id = id → s.entryDeleted e = true) :
    s.Gone c id := by
  have hsound : Sound s := hnative.sound sound_empty
  exact (unfound_of_deleted hsound he hdeleted).gone hsound (vouched_of_native hnative hkeys he)

/-! ## Handles that were handed out -/

/-- The context handed the handle out at some time, whatever was done before and since. -/
def HandedOut (s : Session T) (c : ContextId) (h : Handle k) : Prop :=
  ∃ a b given, Run (fun _ => True) .empty a ∧ HandsOut c a b given ∧ ⟨k, h⟩ ∈ given ∧
    Run (fun _ => True) b s

/-- What a context has registered stays registered while it is live. -/
theorem Run.enrolled {allow : Deed → Prop} (hrun : Run allow s s') (hsound : Sound s)
    (hnumbered : Numbered s) (hkeys : s'.KeysLeft) (hopen : (s'.context? h.context).isSome)
    (hlive : s'.isDeleted h = false) (henrolled : s.Enrolled h) : s'.Enrolled h := by
  rcases henrolled with ⟨pending, hentry⟩
  rcases isOpen_of_registry hentry with ⟨ctx, hctx, _⟩
  have hnumber : h.context.number ≤ s.opened := (hsound.opened hctx).1
  -- as for what is registered at all, but a save that keeps the entity is no exception
  have hkept := hrun.induct
    (P := fun a => Sound a ∧ s.opened ≤ a.opened ∧ (a.KeysLeft → Numbered a ∧
      ((a.context? h.context).isSome → a.isDeleted h = false → a.Enrolled h))) ?_
    ⟨hsound, Nat.le_refl _, fun _ => ⟨hnumbered, fun _ _ => ⟨pending, hentry⟩⟩⟩
  · exact (hkept.2.2 hkeys).2 hopen hlive
  · intro a b deed hdeed hstep ih
    rcases ih with ⟨ha, hopened, ih⟩
    refine ⟨hstep.sound ha, Nat.le_trans hopened hstep.opened_le, ?_⟩
    intro hleft
    rcases ih (hstep.keysLeft hleft) with ⟨hnumbered, hregistered⟩
    refine ⟨hstep.numbered ha hleft hnumbered, ?_⟩
    intro hstill hlive
    have hwas := hstep.was_open (Nat.le_trans hnumber hopened) hstill
    have hbefore : a.isDeleted h = false := by
      by_contra hdeleted
      simp [hstep.deleted (by simpa using hdeleted)] at hlive
    exact hstep.enrolled ha hnumbered hstill hbefore (hregistered hwas hbefore)

theorem HandedOut.enrolled (hgiven : s.HandedOut c h) (hkeys : s.KeysLeft)
    (hopen : (s.context? c).isSome) (hlive : s.isDeleted h = false) : s.Enrolled h := by
  rcases hgiven with ⟨a, b, given, hbefore, hcall, hmem, hsince⟩
  have hsound : Sound a := hbefore.sound sound_empty
  have hrun : Run (fun _ => True) .empty b :=
    hbefore.trans ((hcall.run hsound).mono fun _ _ => trivial)
  have hnumbered : Numbered b :=
    hrun.numbered sound_empty numbered_empty (hsince.keysLeft hkeys)
  have hdelivers := hcall.delivers hsound hmem
  have hcontext : h.context = c := hdelivers.context
  exact hsince.enrolled (hrun.sound sound_empty) hnumbered hkeys (hcontext ▸ hopen) hlive
    hdelivers.enrolled

theorem HandedOut.run {allow : Deed → Prop} (hgiven : s.HandedOut c h) (hrun : Run allow s s') :
    s'.HandedOut c h := by
  rcases hgiven with ⟨a, b, given, hbefore, hcall, hmem, hsince⟩
  exact ⟨a, b, given, hbefore, hcall, hmem, hsince.trans (hrun.mono fun _ _ => trivial)⟩

theorem Received.handedOut {i : StoreId} {given : List ((k : T.Kind) × Handle k)}
    (hreceived : Received c i s given) : ∀ a ∈ given, s.HandedOut c a.2 := by
  induction hreceived with
  | empty =>
    intro a ha
    cases ha
  | step hbefore hstep _ ih =>
    intro a ha
    have hrun : Run (fun _ => True) _ _ := hstep.run trivial
    exact (ih a ha).run hrun
  | @call s s' given hs hbefore hplace hcall ih =>
    intro a ha
    rcases List.mem_append.1 ha with hnew | hold
    · have hrun : Run (fun _ => True) .empty s := hbefore.run.mono fun _ _ => trivial
      exact ⟨s, s', given, hrun, hcall, hnew, Run.refl _⟩
    · exact (ih a hold).run (hcall.run (hbefore.run.sound sound_empty))

/-! ## Deleting -/

/-- What is deleted stays as it is. -/
theorem markDeleted_of_deleted (hdeleted : s.isDeleted h = true) : s.markDeleted h = s := by
  refine modifyEntity_of_fixed ?_
  intro m hm
  have htrue : m.deleted = true := by simpa [isDeleted, hm] using hdeleted
  rw [← htrue]

/-- A delete marks the object of the handle if the context has something registered under its key,
and is refused otherwise.  When it ends well, the entity of the id is found no more exactly if what is
registered under the id is deleted then.  So it is if the object of the handle is registered, and
that is always so, while keys are left, when the context has handed the handle out and the entity was
live.  The next save takes the row of what is not found, unless an import brought it. -/
theorem delete_iff_gone (hrun : Run (fun _ => True) .empty s) (scope : Scope) (h : Handle k) :
    (s.isRegistered scope.context h = false →
      (scope.delete h).outcome s = (.error (.foreignObject h.id scope.context), s)) ∧
    (s.isRegistered scope.context h = true → (scope.delete h).outcome s =
      (.ok !s.isDeleted h, s.markDeleted h)) ∧
    ∀ removed s', (scope.delete h).outcome s = (.ok removed, s') → (removed = false → s' = s) ∧
      (s'.Unfound scope.context h.id ↔ ∀ e, (s.registry scope.context).get? h.id.key = some e →
        e.id = h.id → s'.entryDeleted e = true) ∧
      (s.Enrolled h → s'.Unfound scope.context h.id) ∧
      (s.HandedOut scope.context h → s.KeysLeft → removed = true → s.Enrolled h) ∧
      (s'.Unfound scope.context h.id → s.Vouched scope.context h.id →
        s'.Gone scope.context h.id) ∧
      (Run Deed.Native .empty s → s.KeysLeft → s.Vouched scope.context h.id) := by
  have hsound : Sound s := hrun.sound sound_empty
  refine ⟨delete_of_unregistered, delete_of_registered, ?_⟩
  intro removed s' hdelete
  cases hregistered : s.isRegistered scope.context h with
  | false => cases (delete_of_unregistered hregistered).symm.trans hdelete
  | true =>
    cases (delete_of_registered hregistered).symm.trans hdelete
    have hsound' : Sound (s.markDeleted h) := (Step.delete s h.slot).sound hsound
    have hcontains : h.context = scope.context ∧
        ((s.registry scope.context).get? h.id.key).isSome := by
      simpa [isRegistered, SortedMap.contains] using hregistered
    rcases Option.isSome_iff_exists.1 hcontains.2 with ⟨e, he⟩
    have hiff : (s.markDeleted h).Unfound scope.context h.id ↔
        ∀ e, (s.registry scope.context).get? h.id.key = some e → e.id = h.id →
          (s.markDeleted h).entryDeleted e = true := by
      constructor
      · intro hunfound e' he' hid
        exact hunfound.deleted hsound' he' hid
      · intro hdeleted
        exact unfound_of_deleted hsound' he (hdeleted e he)
    refine ⟨?_, hiff, ?_, ?_, fun hunfound hvouched => hunfound.gone hsound' hvouched,
      fun hnative hkeys => vouched_of_native hnative hkeys he⟩
    · intro hfalse
      exact markDeleted_of_deleted (by simpa using hfalse)
    · rintro ⟨pending, hentry⟩
      refine hiff.2 ?_
      intro e' he' _
      rw [hcontains.1] at hentry
      cases hentry.symm.trans he'
      rcases (hsound.lodged hentry).entity with ⟨m, hm, _⟩
      have hslot : s.entity? h.slot = some m := hm
      show (s.markDeleted h).isDeleted h = true
      rw [isDeleted, markDeleted, entity?_modifyEntity, if_pos rfl, hslot]
      rfl
    · intro hgiven hkeys hremoved
      rcases isOpen_of_registry he with ⟨ctx, hctx, _⟩
      exact hgiven.enrolled hkeys (by simp [hctx]) (by simpa using hremoved)

section Stale

open Sample

/-- The first context deleted the tag and saved, the second one wrote it again. -/
def redRewritten : Session model :=
  ((((redLoaded.markDeleted redHandle).commit ⟨1⟩ ⟨[tagId], []⟩).2).commit ⟨2⟩ (tagChanges "red")).2

/-- The first context has read the tag again, as another object. -/
def redReread : Session model :=
  redRewritten.enroll ⟨1⟩ Kind.tag tagId (⟨some "red", none⟩ : Tag) false

theorem received_redLoaded : Received ⟨1⟩ ⟨0⟩ redLoaded [⟨Kind.tag, redHandle⟩] := by
  have hrow : (redSaved.rowsOf ⟨2⟩).row? tagId = some ⟨tagId, 1, tagPayload "red"⟩ := rfl
  have hload : Step redSaved (.loaded 1 ⟨tagId, 1, tagPayload "red"⟩) redLoaded :=
    Step.load hrow rfl rfl rfl
  exact received_redSaved.step hload trivial

theorem received_redReread : Received ⟨1⟩ ⟨0⟩ redReread [⟨Kind.tag, redHandle⟩] := by
  have hdeleted := received_redLoaded.step (Step.delete redLoaded 0) trivial
  have hcollect : (redLoaded.markDeleted redHandle).collect ⟨1⟩
      ((redLoaded.markDeleted redHandle).registry ⟨1⟩).values = .ok ⟨[tagId], []⟩ := rfl
  have hdropped := hdeleted.step (Step.save hcollect) trivial
  have hwrite : (((redLoaded.markDeleted redHandle).commit ⟨1⟩ ⟨[tagId], []⟩).2).collect ⟨2⟩
      ((((redLoaded.markDeleted redHandle).commit ⟨1⟩ ⟨[tagId], []⟩).2).registry ⟨2⟩).values =
      .ok (tagChanges "red") := rfl
  have hrewritten := hdropped.step (Step.save hwrite) trivial
  have hrow : (redRewritten.rowsOf ⟨1⟩).row? tagId = some ⟨tagId, 1, tagPayload "red"⟩ := rfl
  have hload : Step redRewritten (.loaded 2 ⟨tagId, 1, tagPayload "red"⟩) redReread :=
    Step.load hrow rfl rfl rfl
  exact hrewritten.step hload trivial

/-- A live tag that the context has handed out is gone once it was deleted. -/
theorem delete_red :
    ((Scope.within ⟨1⟩).delete redHandle).outcome redLoaded =
      (.ok true, redLoaded.markDeleted redHandle) ∧
    (redLoaded.markDeleted redHandle).Gone ⟨1⟩ tagId := by
  have hnative : Run Deed.Native .empty redLoaded := received_redLoaded.run
  have hkeys : redLoaded.KeysLeft := by decide +kernel
  have hgiven : redLoaded.HandedOut ⟨1⟩ redHandle :=
    received_redLoaded.handedOut _ (List.mem_singleton_self _)
  have hdelete := delete_iff_gone (hnative.mono fun _ _ => trivial) (Scope.within ⟨1⟩) redHandle
  have hremoved := hdelete.2.1 rfl
  rcases hdelete.2.2 _ _ hremoved with ⟨_, _, hunfound, henrolled, hgone, hvouched⟩
  exact ⟨hremoved, hgone (hunfound (henrolled hgiven hkeys rfl)) (hvouched hnative hkeys)⟩

/-- The context has inserted a tag, and an import brings a red one under its id. -/
def redImported : Session model :=
  (bothOpen.insertUnder ⟨1⟩ Kind.tag 1).modifyStore ⟨0⟩ fun _ =>
    ⟨blogSchema, .default, 2, .file .empty "Tag" 1 ⟨tagId, 1, tagPayload "red"⟩⟩

theorem handedOut_redImported : redImported.HandedOut ⟨1⟩ redHandle := by
  have hstore : (bothOpen.insertUnder ⟨1⟩ Kind.tag 1).store? ⟨0⟩ =
      some ⟨blogSchema, .default, 2, .empty⟩ := rfl
  have hcheck : (⟨1, 1, 2, .file .empty "Tag" 1 ⟨tagId, 1, tagPayload "red"⟩⟩ : Snapshot).check
      blogSchema = .ok () := rfl
  have hrun : Run (fun _ => True) _ redImported := (Step.imports hstore hcheck).run trivial
  exact (received_inserted.handedOut _ (List.mem_singleton_self _)).run hrun

/-- The context has inserted a tag, and an import leaves a single key. -/
def lastKeyLeft : Session model :=
  (bothOpen.insertUnder ⟨1⟩ Kind.tag 1).modifyStore ⟨0⟩ fun _ =>
    ⟨blogSchema, .default, 18446744073709551615, .empty⟩

/-- Three tags more, and the last of them has the key of the first. -/
def keySpent : Session model :=
  ((lastKeyLeft.insertUnder ⟨1⟩ Kind.tag 18446744073709551615).insertUnder ⟨1⟩ Kind.tag 0).insertUnder
    ⟨1⟩ Kind.tag 1

theorem handedOut_keySpent : keySpent.HandedOut ⟨1⟩ redHandle := by
  have hstore : (bothOpen.insertUnder ⟨1⟩ Kind.tag 1).store? ⟨0⟩ =
      some ⟨blogSchema, .default, 2, .empty⟩ := rfl
  have hcheck : (⟨1, 1, 18446744073709551615, .empty⟩ : Snapshot).check blogSchema = .ok () := rfl
  have hlast : lastKeyLeft.storeOf? ⟨1⟩ =
      some ⟨blogSchema, .default, 18446744073709551615, .empty⟩ := rfl
  have hfirst : (lastKeyLeft.insertUnder ⟨1⟩ Kind.tag 18446744073709551615).storeOf? ⟨1⟩ =
      some ⟨blogSchema, .default, 0, .empty⟩ := rfl
  have hagain : ((lastKeyLeft.insertUnder ⟨1⟩ Kind.tag 18446744073709551615).insertUnder ⟨1⟩
      Kind.tag 0).storeOf? ⟨1⟩ = some ⟨blogSchema, .default, 1, .empty⟩ := rfl
  have hrun : Run (fun _ => True) _ lastKeyLeft := (Step.imports hstore hcheck).run trivial
  have hrun₁ := hrun.trans ((Step.insert Kind.tag hlast).run trivial)
  have hrun₂ := hrun₁.trans ((Step.insert Kind.tag hfirst).run trivial)
  have hrun₃ := hrun₂.trans ((Step.insert Kind.tag hagain).run trivial)
  exact (received_inserted.handedOut _ (List.mem_singleton_self _)).run hrun₃

/-- Three ways for a tag to outlast a delete.  The old handle passes for registered, but another
object of the tag is, and goes on being found.  So it is when the key was handed out again after the
last one.  And a save takes no row of a pending insert, also when an import has brought one. -/
theorem delete_stale_red :
    (Received ⟨1⟩ ⟨0⟩ redReread [⟨Kind.tag, redHandle⟩] ∧
      ((Scope.within ⟨1⟩).delete redHandle).outcome redReread = (.ok false, redReread) ∧
      ∃ s', ((Scope.within ⟨1⟩).fetch (T := model) Kind.tag (.all "Tag")).outcome redReread =
        (.ok [⟨2, tagId, ⟨1⟩⟩], s')) ∧
    (keySpent.HandedOut ⟨1⟩ redHandle ∧
      ((Scope.within ⟨1⟩).delete redHandle).outcome keySpent =
        (.ok true, keySpent.markDeleted redHandle) ∧
      ∃ s', ((Scope.within ⟨1⟩).locate (T := model) Kind.tag tagId).outcome
        (keySpent.markDeleted redHandle) = (.ok ⟨3, tagId, ⟨1⟩⟩, s')) ∧
    redImported.HandedOut ⟨1⟩ redHandle ∧
      ((Scope.within ⟨1⟩).delete redHandle).outcome redImported =
        (.ok true, redImported.markDeleted redHandle) ∧
      ∃ s', ((Scope.within ⟨1⟩).save (T := model)).outcome (redImported.markDeleted redHandle) =
        (.ok .zero, s') ∧ ((s'.rowsOf ⟨1⟩).row? tagId).isSome := by
  have hstale : ((Scope.within ⟨1⟩).delete redHandle).outcome redReread = (.ok false, redReread) := by
    have hdeleted : redReread.isDeleted redHandle = true := rfl
    have hregistered : redReread.isRegistered ⟨1⟩ redHandle = true := rfl
    rw [delete_of_registered hregistered, hdeleted, markDeleted_of_deleted hdeleted]
    rfl
  exact ⟨⟨received_redReread, hstale, _, rfl⟩, ⟨handedOut_keySpent, rfl, _, rfl⟩,
    handedOut_redImported, rfl, _, rfl, rfl⟩

end Stale

/-! ## Deleting again -/

/-- Once a delete has taken an entity away, deletes by its handle change nothing and count nothing.
They are accepted for as long as the context has the key registered, which it has until it is saved
or closed.  When its save has dropped the entity, they are refused, and the refusal is reported. -/
theorem delete_again (hrun : Run (fun _ => True) .empty s) (hholds : s.Holds h)
    (hdelete : (scope.delete h).outcome s = (.ok true, s₁)) :
    (∀ s', Run (fun _ => True) s₁ s' →
      (s'.isRegistered scope.context h = true → (scope.delete h).outcome s' = (.ok false, s') ∧
        scope.deleteOrReport h s' = (false, s')) ∧
      (s'.isRegistered scope.context h = false →
        (scope.delete h).outcome s' = (.error (.foreignObject h.id scope.context), s') ∧
        scope.deleteOrReport h s' = (false, s'.report (.deleteFailed h.id scope.context
          (.foreignObject h.id scope.context))))) ∧
    (∀ s', Run (fun deed => deed ≠ .saved scope.context) s₁ s' → s'.KeysLeft →
      (s'.context? scope.context).isSome → s'.isRegistered scope.context h = true ∧
        ∀ pending summary s₂,
          (s.registry scope.context).get? h.id.key = some ⟨k, h, pending⟩ →
          (scope.save (T := T)).outcome s' = (.ok summary, s₂) →
            s₂.isRegistered scope.context h = false) := by
  have hsound : Sound s := hrun.sound sound_empty
  cases hregistered : s.isRegistered scope.context h with
  | false => cases (delete_of_unregistered hregistered).symm.trans hdelete
  | true =>
    rcases Prod.mk.inj ((delete_of_registered hregistered).symm.trans hdelete) with ⟨_, rfl⟩
    have hstep : Step s (.deleted h.slot) (s.markDeleted h) := Step.delete s h.slot
    have hdeleted : (s.markDeleted h).isDeleted h = true := by
      rcases hholds with ⟨m, hm, _⟩
      rw [isDeleted, markDeleted, entity?_modifyEntity, if_pos rfl, hm]
      rfl
    have hcontains : h.context = scope.context ∧
        ((s.registry scope.context).get? h.id.key).isSome := by
      simpa [isRegistered, SortedMap.contains] using hregistered
    constructor
    · intro s' hlater
      have hstill : s'.isDeleted h = true := hlater.deleted hdeleted
      constructor
      · intro hregistered'
        have hagain : (scope.delete h).outcome s' = (.ok false, s') := by
          rw [delete_of_registered hregistered', hstill, markDeleted_of_deleted hstill]
          rfl
        refine ⟨hagain, ?_⟩
        rw [Scope.deleteOrReport, Work.bind_apply, hagain]
        rfl
      · intro hregistered'
        have hrefused := delete_of_unregistered hregistered'
        refine ⟨hrefused, ?_⟩
        rw [Scope.deleteOrReport, Work.bind_apply, hrefused]
        rfl
    · intro s' hlater hkeys hopen
      have hsound₁ : Sound (s.markDeleted h) := hstep.sound hsound
      have hnumbered₁ : Numbered (s.markDeleted h) :=
        (hrun.trans (hstep.run trivial)).numbered sound_empty numbered_empty (hlater.keysLeft hkeys)
      have hkept : ∀ e, (s.registry scope.context).get? h.id.key = some e →
          (s'.registry scope.context).get? h.id.key = some e := by
        intro e he
        exact hlater.registered (fun _ hdeed => hdeed) hsound₁ hnumbered₁ hkeys hopen he
      constructor
      · rcases Option.isSome_iff_exists.1 hcontains.2 with ⟨e, he⟩
        simp [isRegistered, SortedMap.contains, hcontains.1, hkept e he]
      · intro pending summary s₂ hentry hsave
        have hstill : s'.isDeleted h = true := hlater.deleted hdeleted
        rcases save_ok hsave with ⟨changes, _, _, rfl⟩
        -- the save keeps only what is live
        have hnone : ((s'.commit scope.context changes).2.registry scope.context).get? h.id.key =
            none := by
          cases he : ((s'.commit scope.context changes).2.registry scope.context).get? h.id.key with
          | none => rfl
          | some e =>
            rcases get?_registry_commit.1 he with ⟨old, hold, hlive, _⟩
            cases (hkept _ hentry).symm.trans hold
            cases hstill.symm.trans hlive
        have hregistry : ((s'.commit scope.context changes).2.report
            (.saved scope.context summary)).registry scope.context =
            (s'.commit scope.context changes).2.registry scope.context := rfl
        simp [isRegistered, SortedMap.contains, hregistry, hnone]

section

open Sample

/-- Until the context is saved, a second delete of a tag is accepted, and the save drops the tag. -/
theorem delete_red_again :
    ((Scope.within ⟨1⟩).delete redHandle).outcome redLoaded =
      (.ok true, redLoaded.markDeleted redHandle) ∧
    ((Scope.within ⟨1⟩).delete redHandle).outcome (redLoaded.markDeleted redHandle) =
      (.ok false, redLoaded.markDeleted redHandle) := by
  have hrun : Run (fun _ => True) .empty redLoaded :=
    received_redLoaded.run.mono fun _ _ => trivial
  have hholds : redLoaded.Holds redHandle := ⟨_, rfl, rfl⟩
  have hdelete : ((Scope.within ⟨1⟩).delete redHandle).outcome redLoaded =
      (.ok true, redLoaded.markDeleted redHandle) := rfl
  rcases delete_again hrun hholds hdelete with ⟨hagain, hkept⟩
  have hregistered := (hkept _ (Run.refl _) (by decide +kernel) rfl).1
  exact ⟨hdelete, ((hagain _ (Run.refl _)).1 hregistered).1⟩

/-- After the save the handle of a tag that is deleted already counts as foreign. -/
theorem delete_saved_red_again : ∃ s₁ s₂ : Session model,
    ((Scope.within ⟨1⟩).delete redHandle).outcome redSaved = (.ok true, s₁) ∧
      ((Scope.within ⟨1⟩).save (T := model)).outcome s₁ = (.ok ⟨0, 0, 1⟩, s₂) ∧
      ((Scope.within ⟨1⟩).delete redHandle).outcome s₂ = (.error (.foreignObject tagId ⟨1⟩), s₂) :=
  ⟨_, _, rfl, rfl, rfl⟩

end

end Session

end Reconcile
