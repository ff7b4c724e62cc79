import Reconcile.Proofs.Session.Removing

/-!
# Rehosting

Rehosting confirms the id of an entity and then looks for that id in the target context.  Only the
value of the id counts: the target finds what it sees under it, and nothing in the search asks
whether the two contexts share a store.
-/

namespace Reconcile

namespace Session

variable {T : Model} {k : T.Kind} {s s' : Session T} {scope : Scope} {c : ContextId} {h : Handle k}

/-! ## Looking up an id -/

/-- An id is found if and only if the context sees an entity of the type under its key. -/
theorem isSome_seen?_iff (hs : Sound s) (scope : Scope) {id : EntityId} (hname : id.entity = T.entityName k) :
    (s.seen? scope.context k id.key).isSome = true ↔
      ∃ found, ((scope.locate k id).outcome s).1 = .ok found := by
  constructor
  · intro hseen
    rcases Option.isSome_iff_exists.1 hseen with ⟨v, hv⟩
    rcases locate_of_seen? hname hv with ⟨found, s₁, hok⟩
    exact ⟨found, by rw [hok]⟩
  · rintro ⟨found, hfound⟩
    have hlocate : (scope.locate k id).outcome s =
        (.ok found, ((scope.locate k id).outcome s).2) := Prod.ext hfound rfl
    have hlocates := locates hs scope k id
    rcases delivers_locate hs hlocate with ⟨hdelivers, hid⟩
    rcases hdelivers.enrolled with ⟨pending, he⟩
    rw [hdelivers.context] at he
    rcases hdelivers.holds with ⟨m, hm, _⟩
    have hdeleted := entryDeleted_of_entity? (T := T) (e := ⟨k, found, pending⟩) hm
    have hseen := seen?_of_entry (k := k) he rfl hm (hdeleted.symm.trans hdelivers.live)
    rw [hid] at hseen
    rw [← hlocates.loads.seen?_eq hs, hseen]
    rfl

/-- An id that is not found leaves no trace. -/
theorem locate_error (hs : Sound s) {id : EntityId} {fault : Fault}
    (hlocate : ((scope.locate k id).outcome s).1 = .error fault) :
    ((scope.locate k id).outcome s).2 = s := by
  rcases locate_cases hs scope k id with ⟨_, hout⟩ | ⟨_, _, _, _, _, _, hout⟩ |
    ⟨_, _, _, _, _, _, _, hout⟩
  · rw [hout]
  · rw [hout]
  · rw [hout] at hlocate
    cases hlocate

theorem registry_locate_of_ne (hs : Sound s) (id : EntityId) (hc : c ≠ scope.context) :
    ((scope.locate k id).outcome s).2.registry c = s.registry c := by
  rcases locate_cases hs scope k id with ⟨_, hout⟩ | ⟨_, _, _, _, _, _, hout⟩ |
    ⟨_, _, _, _, _, _, _, hout⟩
  · rw [hout]
  · rw [hout]
  · rw [hout]
    exact registry_enroll_of_ne hc

/-- Confirming an id changes nothing about what is seen. -/
theorem seen?_markPermanent (hs : Sound s) (l : T.Kind) (key : UInt64) :
    (s.markPermanent h).seen? c l key = s.seen? c l key := by
  cases he : (s.registry c).get? key with
  | none =>
    have he' : ((s.markPermanent h).registry c).get? key = none := he
    rw [seen?_of_row he, seen?_of_row he']
    rfl
  | some e =>
    have he' : ((s.markPermanent h).registry c).get? key = some e := he
    rcases (hs.lodged he).entity with ⟨m, hm, _⟩
    by_cases hslot : h.slot = e.slot
    · have hm' : (s.markPermanent h).entity? e.slot = some { m with temporary := false } := by
        rw [markPermanent, hslot]
        exact entity?_modifyEntity_self hm _
      unfold seen?
      rw [he, he']
      dsimp only
      rw [entryDeleted_of_entity? hm', entryDeleted_of_entity? hm, hm', hm]
      rfl
    · exact seen?_congr he he' (entity?_modifyEntity_of_ne s (Ne.symm hslot) _)

/-! ## Rehosting a handle -/

/-- The id stays: it is confirmed, or can be confirmed in this context. -/
def Confirmable (s : Session T) (c : ContextId) (h : Handle k) : Prop :=
  s.isTemporary h = true → s.isRegistered c h = true

/-- What looking up the id of a handle gives after a failure has been reported. -/
def located (h : Handle k) (target : Scope) :
    Except Fault (Handle k) × Session T → Option (Handle k) × Session T
  | (.ok found, s) => (some found, s)
  | (.error fault, s) => (none, s.report (.rehostFailed h.id target.context fault))

theorem located_apply (h : Handle k) (target : Scope) (s : Session T) : (do
    match ← (target.locate k h.id).outcome with
    | .ok found => return some found
    | .error fault =>
      modify (·.report (.rehostFailed h.id target.context fault))
      return none : Work T (Option (Handle k))) s =
    located h target ((target.locate k h.id).outcome s) := by
  rw [Work.bind_apply]
  rcases (target.locate k h.id).outcome s with ⟨fault | found, s'⟩ <;> rfl

theorem rehost_of_confirmable (hconfirm : s.Confirmable scope.context h) (target : Scope) :
    ∃ s₁, (s₁ = s ∨ s₁ = s.markPermanent h) ∧
      scope.rehost h target s = located h target ((target.locate k h.id).outcome s₁) := by
  cases htemporary : s.isTemporary h with
  | false =>
    refine ⟨s, Or.inl rfl, ?_⟩
    rw [← located_apply, Scope.rehost, Work.bind_apply]
    show (if s.isTemporary h = true then (_ : Work T (Option (Handle k))) else _) s = _
    rw [htemporary]
    rfl
  | true =>
    refine ⟨s.markPermanent h, Or.inr rfl, ?_⟩
    have hmark : (scope.makePermanent h).outcome s = (.ok (), s.markPermanent h) := by
      unfold Scope.makePermanent
      rw [Attempt.outcome_bind_of_ok (Attempt.outcome_get s), if_pos (hconfirm htemporary)]
      rfl
    rw [← located_apply, Scope.rehost, Work.bind_apply]
    show (if s.isTemporary h = true then (_ : Work T (Option (Handle k))) else _) s = _
    rw [if_pos htemporary, Work.bind_apply]
    generalize (scope.makePermanent h).outcome s = outcome at hmark ⊢
    subst hmark
    rfl

theorem rehost_of_not_confirmable (hconfirm : ¬ s.Confirmable scope.context h) (target : Scope) :
    ∃ event, scope.rehost h target s = (none, s.report event) := by
  rw [Confirmable, Classical.not_imp] at hconfirm
  rcases hconfirm with ⟨htemporary, hregistered⟩
  refine ⟨.permanentFailed h.id scope.context (.foreignObject h.id scope.context), ?_⟩
  have hrefused : (scope.makePermanent h).outcome s =
      (.error (.foreignObject h.id scope.context), s) := by
    unfold Scope.makePermanent
    rw [Attempt.outcome_bind_of_ok (Attempt.outcome_get s), if_neg hregistered]
    rfl
  rw [Scope.rehost, Work.bind_apply]
  show (if s.isTemporary h = true then (_ : Work T (Option (Handle k))) else _) s = _
  rw [if_pos htemporary, Work.bind_apply, hrefused]
  rfl

/-- Rehosting finds an entity if and only if the id stays and the target context sees an entity of
the type under its key, be it of the same store or of another.  It changes no store, and apart from
the entity that it finds it registers nothing. -/
theorem rehost_by_id (hrun : Run (fun _ => True) .empty s) (hname : h.id.entity = T.entityName k)
    (scope target : Scope) :
    ((scope.rehost h target s).1.isSome = true ↔ s.Confirmable scope.context h ∧
      (s.seen? target.context k h.id.key).isSome = true) ∧
    (∀ found, (scope.rehost h target s).1 = some found →
      found.id = h.id ∧ (scope.rehost h target s).2.Delivers target.context found) ∧
    (∀ c, (scope.rehost h target s).1 = none ∨ c ≠ target.context →
      (scope.rehost h target s).2.registry c = s.registry c) ∧
    ∀ i, (scope.rehost h target s).2.store? i = s.store? i := by
  have hs : Sound s := hrun.sound sound_empty
  by_cases hconfirm : s.Confirmable scope.context h
  · rcases rehost_of_confirmable hconfirm target with ⟨s₁, hs₁, hrehost⟩
    have hsound : Sound s₁ := by
      rcases hs₁ with rfl | rfl
      · exact hs
      · exact (Step.confirm s h.slot).sound hs
    have hregistry : ∀ c, s₁.registry c = s.registry c := by
      rcases hs₁ with rfl | rfl <;> exact fun _ => rfl
    have hstore : ∀ i, s₁.store? i = s.store? i := by
      rcases hs₁ with rfl | rfl <;> exact fun _ => rfl
    have hseen : s₁.seen? target.context k h.id.key = s.seen? target.context k h.id.key := by
      rcases hs₁ with rfl | rfl
      · rfl
      · exact seen?_markPermanent hs k _
    have hiff := isSome_seen?_iff hsound target hname
    have hothers : ∀ c, c ≠ target.context →
        ((target.locate k h.id).outcome s₁).2.registry c = s₁.registry c :=
      fun _ => registry_locate_of_ne hsound h.id
    have hlocates := locates hsound target k h.id
    rw [hseen] at hiff
    rw [hrehost]
    rcases hlocate : (target.locate k h.id).outcome s₁ with ⟨fault | found, s₂⟩
    · have hsame : s₂ = s₁ := by
        have hfailed : ((target.locate k h.id).outcome s₁).1 = .error fault := by rw [hlocate]
        have hkept := locate_error hsound hfailed
        rwa [hlocate] at hkept
      rw [hlocate] at hiff
      refine ⟨⟨?_, ?_⟩, ?_, ?_, ?_⟩
      · intro hsome
        cases hsome
      · rintro ⟨_, hsome⟩
        rcases hiff.1 hsome with ⟨found, hfound⟩
        cases hfound
      · intro found hfound
        cases hfound
      · exact fun c _ => hsame ▸ hregistry c
      · exact fun i => hsame ▸ hstore i
    · rw [hlocate] at hiff hlocates hothers
      refine ⟨⟨fun _ => ⟨hconfirm, hiff.2 ⟨found, rfl⟩⟩, fun _ => rfl⟩, ?_, ?_, ?_⟩
      · rintro _ ⟨⟩
        exact (delivers_locate hsound hlocate).symm
      · rintro c (hnone | hc)
        · cases hnone
        · exact (hothers c hc).trans (hregistry c)
      · intro i
        have hstores : s₂.stores = s₁.stores := hlocates.loads.stores
        exact (congrArg (·[i.number]?) hstores).trans (hstore i)
  · rcases rehost_of_not_confirmable hconfirm target with ⟨event, hrehost⟩
    rw [hrehost]
    refine ⟨⟨?_, ?_⟩, ?_, fun _ _ => rfl, fun _ => rfl⟩
    · intro hsome
      cases hsome
    · exact fun hboth => absurd hboth.1 hconfirm
    · intro found hfound
      cases hfound

/-! ## Two stores that handed out one key

The first context has a red tag on the first store.  On a second store of the same schema another
context commits a tag of its own, which gets the same key.
-/

section Twins

open Sample

/-- The saved red tag, beside a second store with two contexts. -/
def twoStores : Session model :=
  ((redSaved.openStore blogSchema .default).2.openContext ⟨1⟩).2.openContext ⟨1⟩ |>.2

def blueThere : Session model :=
  (twoStores.insertUnder ⟨3⟩ Kind.tag 1).modifyEntity 1 fun _ => tagNamed (some "blue") true

/-- The second store has a blue tag under the key that the red one has in the first. -/
def blueSavedThere : Session model := (blueThere.commit ⟨3⟩ (tagChanges "blue")).2

theorem run_twoStores : Run Deed.Native .empty twoStores := by
  rcases tracked_redSaved with ⟨L, htracked⟩
  have hstore := Step.openStore redSaved blogSchema .default
  have hfirst := Step.openContext (redSaved.openStore blogSchema .default).2 ⟨1⟩ rfl
  have hsecond := Step.openContext
    ((redSaved.openStore blogSchema .default).2.openContext ⟨1⟩).2 ⟨1⟩ rfl
  exact ((htracked.run.trans (hstore.run trivial)).trans (hfirst.run trivial)).trans
    (hsecond.run trivial)

theorem run_blueSavedThere : Run Deed.Native .empty blueSavedThere := by
  have hstore : twoStores.storeOf? ⟨3⟩ = some (Store.new blogSchema .default) := rfl
  have hinsert := Step.insert Kind.tag hstore
  have hedited : (tagNamed none true).Edited (tagNamed (some "blue") true) :=
    Entity.edited_write (e := tagNamed none true) (⟨some "blue", none⟩ : Tag)
  have hedit : Step (twoStores.insertUnder ⟨3⟩ Kind.tag 1) (.changed 1) blueThere :=
    Step.edit rfl hedited
  have hcollect : blueThere.collect ⟨3⟩ (blueThere.registry ⟨3⟩).values =
      .ok (tagChanges "blue") := rfl
  have hsave := Step.save hcollect
  exact ((run_twoStores.trans (hinsert.run trivial)).trans (hedit.run trivial)).trans
    (hsave.run trivial)

/-- A store without the row does not know the tag. -/
theorem rehost_to_empty_store :
    ((Scope.within ⟨1⟩).rehost redHandle (.within ⟨4⟩) twoStores).1 = none ∧
      ((Scope.within ⟨1⟩).rehost redHandle (.within ⟨4⟩) twoStores).2.registry ⟨4⟩ = .empty := by
  have hrun : Run (fun _ => True) .empty twoStores := run_twoStores.mono fun _ _ => trivial
  have hunseen : twoStores.seen? (T := model) ⟨4⟩ Kind.tag 1 = none := rfl
  rcases rehost_by_id (h := redHandle) hrun rfl (.within ⟨1⟩) (.within ⟨4⟩) with
    ⟨hiff, _, hregistry, _⟩
  have hnone : ((Scope.within ⟨1⟩).rehost redHandle (.within ⟨4⟩) twoStores).1 = none := by
    rw [← Option.not_isSome_iff_eq_none, hiff]
    rintro ⟨_, hseen⟩
    cases hseen
  exact ⟨hnone, (hregistry ⟨4⟩ (Or.inl hnone)).trans rfl⟩

/-- A store with a row of its own under the key takes the red tag for its blue one. -/
theorem rehost_to_twin : Run Deed.Native .empty blueSavedThere ∧
    blueSavedThere.storeIdOf? ⟨1⟩ = some ⟨0⟩ ∧ blueSavedThere.storeIdOf? ⟨4⟩ = some ⟨1⟩ ∧
    (blueSavedThere.registry ⟨1⟩).get? 1 = some ⟨Kind.tag, redHandle, false⟩ ∧
    (blueSavedThere.value redHandle : Tag) = ⟨some "red", none⟩ ∧
    ∃ found : Handle Kind.tag,
      ((Scope.within ⟨1⟩).rehost redHandle (.within ⟨4⟩) blueSavedThere).1 = some found ∧
      (((Scope.within ⟨1⟩).rehost redHandle (.within ⟨4⟩) blueSavedThere).2.value found : Tag) =
        ⟨some "blue", none⟩ ∧
      ((Scope.within ⟨1⟩).rehost redHandle (.within ⟨4⟩) blueSavedThere).2.registeredCount ⟨4⟩ =
        1 :=
  ⟨run_blueSavedThere, rfl, rfl, rfl, rfl, ⟨2, tagId, ⟨4⟩⟩, rfl, rfl, rfl⟩

end Twins

end Session

end Reconcile
