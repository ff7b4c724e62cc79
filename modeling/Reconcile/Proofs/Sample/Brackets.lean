import Reconcile.Proofs.Mapping.Courses
import Reconcile.Proofs.Sample.Filling
import Reconcile.Sample.Schema

/-!
# Fills are well bracketed

Synchronizing with plain values of the sample model begins and ends fills as brackets open and
close, however the plain values nest, whatever the probes of nodes do in between, and with every hook
that keeps to this itself (`synchronize_bracketed`).

The proof goes along the fills: reading, deleting, saving and reconciling take a course
(`Mapping.Course`), so every fill that is made of them does.
-/

namespace Reconcile.Sample

open Session

variable {s s' : Session model} {allow : Deed → Prop} {slots : List Nat}

theorem fares_follows (hallow : ∀ deed, deed.Aside → allow deed) :
    Fares (mapping.Follows allow) where
  sound h hs := h hs hs
  trans h h' := (Mapping.reads_follows hallow).trans h h'
  run h hs := by
    rcases Stack.exists_stack _ with ⟨slots, hstack⟩
    exact ((h hs slots hstack).spec hs).1
  reading hrun _ _ _ := Mapping.course_of_reading hallow hrun
  delete := Mapping.follows_markDeleted hallow
  save := Mapping.follows_save hallow

theorem orderly (hallow : ∀ deed, deed.Aside → allow deed) : mapping.Orderly allow := by
  constructor
  intro k p nested scope this v hnested
  exact leads_fillAny (fares_follows hallow) p
    (fun l _ q hq g => hnested l q hq _ fun v => (fares_follows hallow).reads.pure (g v)) scope this v

/-- How a call that synchronizes leaves a session in which these fills are in progress. -/
structure Bracketed (allow : Deed → Prop) (slots : List Nat) (s s' : Session model) : Prop where
  /-- Every fill of the call begins at an entity that does not fill, and ends there. -/
  course : mapping.Course allow slots s s'
  /-- The same fills are in progress, and nothing was done to what stands in for their entities. -/
  brackets : Brackets s s'
  stack : s'.Stack slots
  /-- What was taken out has come back filled. -/
  sourced : (∀ deed, allow deed → deed.Aside) → mapping.Sourced allow slots s s'
  idle : s.Idle → s'.Idle
  /-- What is published is the payload of the value. -/
  published : s.Idle → ∀ n m, s'.entity? n = some m → m.guard ≠ .held true →
    m.published = Model.published m.state
  live : s.Idle → ∀ n m, s'.entity? n = some m → m.guard = .free →
    m.live? = some (Model.payload m.state)
  /-- Whatever a save is refused for, it is not a fill. -/
  saves : s.Idle → ∀ (scope : Scope) (fault : Fault),
    ((scope.save (T := model)).outcome s').1 = .error fault →
      ∃ key e m, (s'.registry scope.context).get? key = some e ∧ s'.entity? e.slot = some m ∧
        m.filling = false ∧ s'.Obstacle scope.context e fault

theorem bracketed_of_course (hs : Sound s) (hstack : s.Stack slots)
    (hcourse : mapping.Course allow slots s s') : Bracketed allow slots s s' := by
  rcases hcourse.spec hs with ⟨hrun, hbrackets⟩
  have hs' := hrun.sound hs
  constructor
  case course => exact hcourse
  case brackets => exact hbrackets
  case stack => exact hstack.brackets hbrackets
  case sourced => exact hcourse.sourced hs hstack
  case idle => exact fun hidle => hidle.brackets hbrackets
  case published =>
    intro hidle n m hm hguard
    exact (hidle.brackets hbrackets).published hs' hm hguard
  case live =>
    intro hidle n m hm hfree
    exact (hidle.brackets hbrackets).live hm hfree
  case saves =>
    intro hidle scope fault hfault
    exact (hidle.brackets hbrackets).refused hs' hfault

/-- From whatever state a session can be in, every call that synchronizes begins and ends fills as
brackets open and close, and a plain value that resolves to an entity that fills already leads to
that entity as it is, with no hook run and no fill. -/
theorem synchronize_bracketed (hrun : Run (fun _ => True) .empty s)
    (hallow : ∀ deed, deed.Aside → allow deed) (hstack : s.Stack slots) :
    (∀ scope s', mapping.Syncs (mapping.Follows allow) scope s s' → Bracketed allow slots s s') ∧
    ∀ (scope : Scope) (k : Kind) (p : Plain k) (h : Handle k) (s₁ : Session model),
      mapping.findOrInsertUnique scope p s = (some h, s₁) → h.slot ∈ slots →
        s₁.entity? h.slot = s.entity? h.slot ∧
        ∀ (bound : Nat) (hp : Plain.weight p < bound + 1) (hook : Hook model k),
          mapping.reconcileBelow scope (bound + 1) k p hp hook s =
            (some h, s₁.report (.alreadyFilling h.id)) := by
  have hs : Sound s := hrun.sound sound_empty
  constructor
  · intro scope s' hcall
    exact bracketed_of_course hs hstack ((orderly hallow).syncs hallow hcall hs slots hstack)
  · intro scope k p h s₁ hfound hmem
    rcases (hstack.mem_iff _).1 hmem with ⟨m, hm, hfills⟩
    have hm₁ := Mapping.entity?_findOrInsertUnique hs hfound hm
    have hout : s₁.checkOut? h = none := Mapping.checkOut?_of_filling hm₁ hfills
    exact ⟨hm₁.trans hm.symm, fun bound hp hook => Mapping.reconcileBelow_of_filling hfound hout⟩

/-! ## A node that resolves to itself -/

/-- Asks for itself and for a save while it is filled, and then has itself for a child. -/
def selfNode : NodePlain :=
  ⟨some 7, some "outer", none, some [.leaf (some 7) (some "inner")], none, none, [.refill, .save]⟩

def nodesOpen : Session model :=
  let s : Session model := (Session.empty.openStore standardSchema .default).2
  (s.openContext ⟨0⟩).2

theorem run_nodesOpen : Run (fun _ => True) .empty nodesOpen :=
  ((Step.openStore .empty standardSchema .default).run trivial).trans
    ((Step.openContext _ ⟨0⟩ rfl).run trivial)

/-- The node is one entity, which is filled once. -/
theorem synchronize_bracketed_selfNode : ∃ s', Bracketed Deed.Aside [] nodesOpen s' ∧ s'.Idle ∧
    s'.entities.size = 1 ∧
    s' = (mapping.reconcile (T := model) (k := Kind.node) (.within ⟨1⟩) selfNode pure nodesOpen).2 := by
  have hempty : nodesOpen.entities = #[] := rfl
  have hidle : nodesOpen.Idle := by
    intro n m hm
    rw [entity?, hempty] at hm
    cases hm
  have hstack : nodesOpen.Stack [] := by
    refine ⟨List.nodup_nil, ?_⟩
    intro n
    constructor
    · exact fun hn => absurd hn List.not_mem_nil
    · rintro ⟨m, hm, hfills⟩
      cases (hidle n m hm).symm.trans hfills
  have hcall : mapping.Syncs (mapping.Follows Deed.Aside) (.within ⟨1⟩) nodesOpen
      (mapping.reconcile (T := model) (k := Kind.node) (.within ⟨1⟩) selfNode pure nodesOpen).2 :=
    Mapping.Syncs.reconcile (M := mapping) (k := Kind.node) selfNode
      fun v => (fares_follows fun _ hdeed => hdeed).reads.pure v
  have hbracketed := (synchronize_bracketed run_nodesOpen (fun _ hdeed => hdeed) hstack).1 _ _ hcall
  exact ⟨_, hbracketed, hbracketed.idle hidle, by decide +kernel, rfl⟩

end Reconcile.Sample
