import Reconcile.Proofs.Session.Identity
import Reconcile.Proofs.Session.Reconciling

/-!
# Entities are of the types of their handles

A handle says the type of its entity, and what is looked up, reconciled or bound as an entity of a
type is of the type.  So if the members of an owned relationship that are bound are bound to
entities of their type (`Member.Held`), deleting them deletes nothing of any other type.
-/

namespace Reconcile

open Session

variable {T : Model} {k : T.Kind} {s s' : Session T} {scope : Scope} {m : Member k}
  {ms : List (Member k)} {h : Handle k} {hs : List (Handle k)} {allow : Deed → Prop}

/-- What the member is bound to, if anything, is of its type. -/
def Member.Held (s : Session T) (m : Member k) : Prop := ∀ h, m.bound = some h → s.Holds h

theorem Member.Held.run (hheld : m.Held s) (hrun : Run allow s s') : m.Held s' :=
  fun h hbound => (hheld h hbound).run hrun

namespace Session

/-! ## Finding -/

theorem holds_bindIn (scope : Scope) (hsound : Sound s) (hheld : m.Held s)
    (hfound : (m.bindIn scope s).1.1 = some h) : (m.bindIn scope s).2.Holds h := by
  unfold Member.bindIn at hfound ⊢
  cases hbound : m.bound with
  | some h' =>
    rw [hbound] at hfound
    cases hfound
    exact hheld h hbound
  | none =>
    rw [hbound] at hfound
    rcases hlocate : (scope.locate k m.id).outcome s with ⟨fault | h', s₁⟩
    · simp only [Work.bind_apply, hlocate] at hfound
      cases hfound
    · simp only [Work.bind_apply, hlocate] at hfound ⊢
      cases hfound
      exact (delivers_locate hsound hlocate).1.holds

theorem holds_bindDistinctIn (scope : Scope) (hsound : Sound s) (seen : List EntityId)
    (hheld : ∀ m ∈ ms, m.Held s) :
    ∀ h ∈ (Member.bindDistinctIn scope seen ms s).1.1,
      (Member.bindDistinctIn scope seen ms s).2.Holds h := by
  induction ms generalizing s seen with
  | nil => exact fun h hh => absurd hh List.not_mem_nil
  | cons m rest ih =>
    have hreads : Reads (fun _ => True) (Reaches (T := T) Deed.Reading) :=
      reads_reaches fun _ hdeed => hdeed
    have hrest : ∀ m' ∈ rest, m'.Held s := fun m' hm' => hheld m' (List.mem_cons_of_mem _ hm')
    unfold Member.bindDistinctIn
    by_cases hseen : m.id ∈ seen
    · rw [if_pos hseen]
      exact ih hsound seen hrest
    · rw [if_neg hseen]
      have hrun := hreads.bindIn (k := k) trivial scope m s hsound
      have hfirst := fun h => holds_bindIn (h := h) scope hsound (hheld m List.mem_cons_self)
      rcases hbind : m.bindIn scope s with ⟨⟨found, m'⟩, s₁⟩
      rw [hbind] at hrun hfirst
      have hsound₁ : Sound s₁ := hrun.sound hsound
      have hrun' := hreads.bindDistinctIn (k := k) trivial scope (m.id :: seen) rest s₁ hsound₁
      have hothers := ih hsound₁ (m.id :: seen) fun m' hm' => (hrest m' hm').run hrun
      rcases hbound : Member.bindDistinctIn scope (m.id :: seen) rest s₁ with ⟨⟨others, ms'⟩, s₂⟩
      rw [hbound] at hrun' hothers
      intro h hh
      simp only [Work.bind_apply, hbind, hbound] at hh ⊢
      rcases List.mem_append.1 hh with hnew | hold
      · exact (hfirst h (Option.mem_toList.1 hnew)).run hrun'
      · exact hothers h hold

/-! ## Deleting -/

namespace Reads

variable {kinds : T.Kind → Prop} {R : Session T → Session T → Prop} (hR : Reads kinds R)
  (hdelete : ∀ (s : Session T) (h : Handle k), s.Holds h → R s (s.markDeleted h))
include hR hdelete

theorem deleteOrReport_held (scope : Scope) (hholds : s.Holds h) :
    R s (scope.deleteOrReport h s).2 := by
  have hstep : R s ((scope.delete h).outcome s).2 := by
    unfold Scope.delete
    rw [Attempt.outcome_bind_of_ok (Attempt.outcome_get s)]
    split
    · exact hdelete s h hholds
    · exact hR.refl s
  rcases hresult : (scope.delete h).outcome s with ⟨fault | removed, s₁⟩
  · rw [hresult] at hstep
    simp only [Scope.deleteOrReport, Work.bind_apply, hresult]
    exact hR.trans hstep (hR.report s₁ _)
  · rw [hresult] at hstep
    simp only [Scope.deleteOrReport, Work.bind_apply, hresult]
    exact hstep

theorem deleteEach_held (scope : Scope) (hsound : Sound s) (hholds : ∀ h ∈ hs, s.Holds h) :
    R s (scope.deleteEach hs s).2 := by
  induction hs generalizing s with
  | nil => exact hR.refl s
  | cons h rest ih =>
    have hfirst := hR.deleteOrReport_held hdelete scope (hholds h List.mem_cons_self)
    -- whatever is deleted, every entity keeps its type
    have hrun := (reads_advances.deleteOrReport advances_markDeleted scope h s hsound).run
    refine hR.trans hfirst (ih (hrun.sound hsound) ?_)
    exact fun h' hh' => (hholds h' (List.mem_cons_of_mem _ hh')).run hrun

theorem deleteCascade_held (hk : kinds k) {F : T.Kind → Type} [ToMany F] (scope : Scope)
    (hsound : Sound s) {field : Option (F k)}
    (hheld : ∀ r, field = some r → ∀ m ∈ ToMany.members r, m.Held s) :
    R s (scope.deleteCascade field s).2 := by
  cases field with
  | none => exact hR.refl s
  | some r =>
    have hfirst := hR.bindDistinctIn hk scope [] (ToMany.members r) s
    have hrun := (reads_reaches fun _ hdeed => hdeed).bindDistinctIn (k := k) trivial scope []
      (ToMany.members r) s hsound
    have hholds := holds_bindDistinctIn scope hsound [] (hheld r rfl)
    rcases hbound : Member.bindDistinctIn scope [] (ToMany.members r) s with ⟨⟨found, ms⟩, s₁⟩
    rw [hbound] at hfirst hrun hholds
    have hcascade : (scope.deleteCascade (some r) s).2 = (scope.deleteEach found s₁).2.report
        (.cascaded (T.entityName k) scope.context (scope.deleteEach found s₁).1) := by
      simp only [Scope.deleteCascade, Scope.deleteAll, ToMany.resolveIn, Work.bind_apply, hbound]
      rfl
    rw [hcascade]
    have heach := hR.deleteEach_held hdelete scope (hrun.sound hsound) hholds
    exact hR.trans hfirst (hR.trans heach (hR.report _ _))

end Reads

end Session

/-! ## Reconciling -/

/-- What is looked up for each of a list is of the type. -/
theorem holds_resolveEach {α : Type} {ps : List α}
    {step : (p : α) → p ∈ ps → Work T (Option (Handle k))}
    (hadvances : ∀ p hp, (step p hp).Leads Advances)
    (hstep : ∀ p hp s, Sound s → ∀ h, (step p hp s).1 = some h → (step p hp s).2.Holds h)
    (hsound : Sound s) : ∀ h ∈ (resolveEach ps step s).1, (resolveEach ps step s).2.Holds h := by
  induction ps generalizing s with
  | nil => exact fun h hh => absurd hh List.not_mem_nil
  | cons p rest ih =>
    have hfirst := hstep p List.mem_cons_self s hsound
    have hrun := (hadvances p List.mem_cons_self s hsound).run
    have hrest : ∀ q (hq : q ∈ rest), (step q (List.mem_cons_of_mem _ hq)).Leads Advances :=
      fun q hq => hadvances q _
    rcases hresult : step p List.mem_cons_self s with ⟨found, s₁⟩
    rw [hresult] at hfirst hrun
    have hsound₁ : Sound s₁ := hrun.sound hsound
    have hothers := ih hrest (fun q hq => hstep q _) hsound₁
    have hrun' := (reads_advances.resolveEach hrest s₁ hsound₁).run
    rcases hmore : resolveEach rest (fun q hq => step q (List.mem_cons_of_mem _ hq)) s₁ with
      ⟨others, s₂⟩
    rw [hmore] at hothers hrun'
    intro h hh
    simp only [resolveEach, Work.bind_apply, hresult, hmore] at hh ⊢
    rcases List.mem_append.1 hh with hnew | hold
    · exact (hfirst h (Option.mem_toList.1 hnew)).run hrun'
    · exact hothers h hold

/-- The members of a list that is built are bound to entities of their type. -/
theorem held_buildList {α : Type} {ps : List α}
    {step : (p : α) → p ∈ ps → Work T (Option (Handle k))}
    (hadvances : ∀ p hp, (step p hp).Leads Advances)
    (hstep : ∀ p hp s, Sound s → ∀ h, (step p hp s).1 = some h → (step p hp s).2.Holds h)
    (hsound : Sound s) :
    ∀ m ∈ (MemberList.build ps step s).1.members, m.Held (MemberList.build ps step s).2 := by
  have hholds := holds_resolveEach hadvances hstep hsound
  intro m hm h hbound
  rcases hresult : resolveEach ps step s with ⟨found, s₁⟩
  rw [hresult] at hholds
  simp only [MemberList.build, Work.bind_apply, hresult] at hm ⊢
  rcases List.mem_map.1 hm with ⟨h', hh', rfl⟩
  cases hbound
  exact hholds h hh'

namespace Mapping

variable {M : Mapping T} {p : M.Plain k}

/-- What is found by the key of a plain value is in the registry. -/
theorem entry_of_findUnique (hsound : Sound s) {s₁ : Session T}
    (hfind : M.findUnique scope p s = (some h, s₁)) :
    ∃ key e, (s₁.registry scope.context).get? key = some e ∧ e.slot = h.slot ∧ e.kind = k := by
  rcases findUnique_eq_some hfind with ⟨n, found, _, hfetch, hlast⟩
  have hspec := fetch_spec hsound scope k (.matching (T.entityName k) n.filter)
  rw [hfetch] at hspec
  have hmem := List.mem_of_getLast? hlast
  rcases ((hspec.2 found s₁ rfl).mem_iff (hspec.1.sound hsound)).1 hmem with
    ⟨e, payload, he, hmatch⟩
  rcases matchOf?_eq_some hmatch with ⟨hhandle, hkind, _⟩
  exact ⟨_, e, he, (congrArg Handle.slot hhandle).symm, hkind⟩

/-- The entity of a plain value is of the type. -/
theorem Lawful.holds_reconcileBelow (hM : M.Lawful) (scope : Scope) (bound : Nat)
    (hp : M.weight p < bound) (hook : Hook T k) (hhook : ∀ v, (hook v).Leads Advances)
    (hsound : Sound s) (hresult : (M.reconcileBelow scope bound k p hp hook s).1 = some h) :
    (M.reconcileBelow scope bound k p hp hook s).2.Holds h := by
  cases bound with
  | zero => exact absurd hp (Nat.not_lt_zero _)
  | succ bound =>
    rcases reconcileBelow_cases hsound scope hp hook with ⟨s₁, hfound, hend⟩ |
      ⟨h', s₁, m, hfound, hm, hkind, _, hend⟩ | ⟨h', s₁, m, hfound, hm, rfl, _, hend⟩
    · rw [hend] at hresult
      cases hresult
    · rw [hend] at hresult ⊢
      cases hresult
      exact ⟨m, hm, hkind⟩
    · rw [hend] at hresult ⊢
      cases hresult
      have hsound₁ : Sound s₁ := (proceeds_findOrInsertUnique hsound hfound).run.sound hsound
      have hentity := entity?_modifyEntity_self hm fun _ =>
        { m.withState (T.blank m.kind) with filling := true }
      have hsound₂ := hsound₁.replaceEntity hm (Entity.edited_checkOut m (T.blank m.kind))
      have hrefill := hM.refill scope hp hsound₂ ⟨_, hentity, rfl, rfl⟩ hhook
        (fun l q hq hook hhook => hM.reconcileBelow scope bound l q _ hook hhook)
        (m.value m.kind)
      have hholds : Session.Holds _ h := ⟨_, hentity, rfl⟩
      exact hholds.run hrefill.1

end Mapping

end Reconcile
