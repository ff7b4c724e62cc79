import Reconcile.Mapping.Relationships
import Reconcile.Proofs.Session.Fetching

/-!
# What reading leads to

A relation between sessions that is kept by looking up entities (`Reads`) is kept by everything that
is built on that: binding members, going through relationships, reading plain values.  The same
holds of deleting, for relations that a deletion keeps.

The relation that matters most is to be reached by steps that only read (`Reaches`).
-/

namespace Reconcile

variable {T : Model} {α β : Type} {k : T.Kind}

/-- Wherever the work starts, it ends at a session that the start is related to. -/
def Work.Leads (R : Session T → Session T → Prop) (w : Work T α) : Prop := ∀ s, R s (w s).2

namespace Session

/-- A preorder of sessions that is kept by looking up entities of these types. -/
structure Reads (kinds : T.Kind → Prop) (R : Session T → Session T → Prop) : Prop where
  refl : ∀ s, R s s
  trans : ∀ {s s' s''}, R s s' → R s' s'' → R s s''
  report : ∀ s event, R s (s.report event)
  locate : ∀ k, kinds k → ∀ (scope : Scope) (id : EntityId),
    Work.Leads R (scope.locate k id).outcome

namespace Reads

variable {kinds : T.Kind → Prop} {R : Session T → Session T → Prop} (hR : Reads kinds R)
include hR

theorem mono {kinds' : T.Kind → Prop} (hkinds : ∀ k, kinds' k → kinds k) : Reads kinds' R :=
  ⟨hR.refl, hR.trans, hR.report, fun k hk => hR.locate k (hkinds k hk)⟩

theorem pure (a : α) : Work.Leads R (Pure.pure a : Work T α) := fun s => hR.refl s

theorem get : Work.Leads R (MonadState.get : Work T (Session T)) := fun s => hR.refl s

theorem bind {w : Work T α} {f : α → Work T β} (hw : w.Leads R) (hf : ∀ a, (f a).Leads R) :
    Work.Leads R (w >>= f) := fun s => hR.trans (hw s) (hf _ _)

theorem modifyReport (event : Event) :
    Work.Leads R (modify (·.report event) : Work T Unit) := fun s => hR.report s event

/-! ## Binding members -/

section Binding

variable (hk : kinds k)
include hk

theorem bindIn (scope : Scope) (m : Member k) : Work.Leads R (m.bindIn scope) := by
  unfold Member.bindIn
  split
  · exact hR.pure _
  · refine hR.bind (hR.locate k hk scope m.id) ?_
    intro found
    cases found with
    | ok h => exact hR.pure _
    | error fault => exact hR.bind (hR.modifyReport _) fun _ => hR.pure _

theorem bindMember (source : Option ContextId) (m : Member k) : Work.Leads R (m.bind source) := by
  unfold Member.bind
  split
  · exact hR.pure _
  · refine hR.bind hR.get ?_
    intro s
    split
    · exact hR.bindIn hk _ m
    · exact hR.bind (hR.modifyReport _) fun _ => hR.pure _

theorem bindAll (source : Option ContextId) (ms : List (Member k)) :
    Work.Leads R (Member.bindAll (T := T) source ms) := by
  induction ms with
  | nil => exact hR.pure _
  | cons m rest ih =>
    refine hR.bind (hR.bindMember hk source m) ?_
    intro found
    exact hR.bind ih fun _ => hR.pure _

theorem bindDistinctIn (scope : Scope) (seen : List EntityId) (ms : List (Member k)) :
    Work.Leads R (Member.bindDistinctIn (T := T) scope seen ms) := by
  induction ms generalizing seen with
  | nil => exact hR.pure _
  | cons m rest ih =>
    unfold Member.bindDistinctIn
    split
    · exact hR.bind (ih seen) fun _ => hR.pure _
    · refine hR.bind (hR.bindIn hk scope m) ?_
      intro found
      exact hR.bind (ih _) fun _ => hR.pure _

theorem resolveOne (scope : Scope) (r : ToOne k) : Work.Leads R (r.resolveIn scope) :=
  hR.bind (hR.bindIn hk scope _) fun _ => hR.pure _

variable {F : T.Kind → Type} [ToMany F]

theorem handles (r : F k) : Work.Leads R (ToMany.handles r) :=
  hR.bind (hR.bindAll hk _ _) fun _ => hR.pure _

theorem resolveIn (scope : Scope) (r : F k) : Work.Leads R (ToMany.resolveIn scope r) :=
  hR.bind (hR.bindDistinctIn hk scope [] _) fun _ => hR.pure _

end Binding

/-! ## Deleting -/

/-- The end of a replacement: the reference points to what was built in its place, if anything. -/
theorem pointToRebuilt {rebuild : Option (Work T (Option (Handle k)))} :
    (∀ build, rebuild = some build → build.Leads R) → Work.Leads R (match rebuild with
      | some build => do
        let found ← build
        return (found, ToOne.pointTo none found)
      | none => return (none, none) : Work T (Option (Handle k) × Option (ToOne k))) := by
  intro hrebuild
  cases rebuild with
  | none => exact hR.pure _
  | some build => exact hR.bind (hrebuild build rfl) fun _ => hR.pure _

section Deleting

variable (hdelete : ∀ (s : Session T) (slot : Nat),
  R s (s.modifyEntity slot fun e => { e with deleted := true }))
include hdelete

theorem delete (scope : Scope) (h : Handle k) : Work.Leads R (scope.delete h).outcome := by
  intro s
  unfold Scope.delete
  rw [Attempt.outcome_bind_of_ok (Attempt.outcome_get s)]
  split
  · exact hdelete s h.slot
  · exact hR.refl s

theorem deleteOrReport (scope : Scope) (h : Handle k) :
    Work.Leads R (scope.deleteOrReport h) := by
  refine hR.bind (hR.delete hdelete scope h) ?_
  intro removed
  cases removed with
  | ok removed => exact hR.pure _
  | error fault => exact hR.bind (hR.modifyReport _) fun _ => hR.pure _

theorem deleteEach (scope : Scope) (hs : List (Handle k)) :
    Work.Leads R (scope.deleteEach hs) := by
  induction hs with
  | nil => exact hR.pure _
  | cons h rest ih =>
    refine hR.bind (hR.deleteOrReport hdelete scope h) ?_
    intro removed
    exact hR.bind ih fun _ => hR.pure _

variable (hk : kinds k) {F : T.Kind → Type} [ToMany F]
include hk

theorem deleteAll (scope : Scope) (r : F k) : Work.Leads R (scope.deleteAll r) := by
  refine hR.bind (hR.resolveIn hk scope r) ?_
  intro found
  exact hR.bind (hR.deleteEach hdelete scope _) fun _ => hR.pure _

theorem deleteCascade (scope : Scope) (field : Option (F k)) :
    Work.Leads R (scope.deleteCascade field) := by
  cases field with
  | none => exact hR.pure _
  | some r =>
    refine hR.bind (hR.deleteAll hdelete hk scope r) ?_
    intro deleted
    exact hR.modifyReport _

theorem replaceAll (scope : Scope) (field : Option (F k)) {rebuild : Option (Work T (F k))}
    (hrebuild : ∀ build, rebuild = some build → build.Leads R) :
    Work.Leads R (scope.replaceAll field rebuild) := by
  refine hR.bind (hR.deleteCascade hdelete hk scope field) ?_
  intro _
  cases rebuild with
  | none => exact hR.pure _
  | some build => exact hR.bind (hrebuild build rfl) fun _ => hR.pure _

theorem replaceOne (scope : Scope) (field : Option (ToOne k))
    {rebuild : Option (Work T (Option (Handle k)))}
    (hrebuild : ∀ build, rebuild = some build → build.Leads R) :
    Work.Leads R (scope.replaceOne field rebuild) := by
  have hrest := hR.pointToRebuilt hrebuild
  cases field with
  | none => exact hrest
  | some r =>
    refine hR.bind (hR.resolveOne hk scope r) ?_
    intro previous
    rcases previous with ⟨previous, _⟩
    cases previous with
    | none => exact hrest
    | some h =>
      refine hR.bind (hR.deleteOrReport hdelete scope h) ?_
      intro _
      exact hrest

end Deleting

/-! ## Building -/

section Building

theorem resolveEach {γ δ : Type} {ps : List γ} {step : (p : γ) → p ∈ ps → Work T (Option δ)}
    (hstep : ∀ p hp, (step p hp).Leads R) : Work.Leads R (Reconcile.resolveEach ps step) := by
  induction ps with
  | nil => exact hR.pure _
  | cons p rest ih =>
    refine hR.bind (hstep p List.mem_cons_self) ?_
    intro found
    refine hR.bind (ih fun q hq => hstep q (List.mem_cons_of_mem _ hq)) ?_
    intro others
    exact hR.pure _

variable {γ : Type} {ps : List γ} {step : (p : γ) → p ∈ ps → Work T (Option (Handle k))}
  (hstep : ∀ p hp, (step p hp).Leads R)
include hstep

theorem buildSet : Work.Leads R (MemberSet.build ps step) := by
  refine hR.bind (hR.resolveEach hstep) ?_
  intro found
  exact hR.bind (hR.modifyReport _) fun _ => hR.pure _

theorem buildList : Work.Leads R (MemberList.build ps step) := by
  refine hR.bind (hR.resolveEach hstep) ?_
  intro found
  exact hR.bind (hR.modifyReport _) fun _ => hR.pure _

end Building

end Reads

end Session

end Reconcile
