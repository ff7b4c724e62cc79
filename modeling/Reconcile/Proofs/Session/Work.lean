import Reconcile.Session.Lookup
import Reconcile.Proofs.Session.Step

/-!
# Running work on a session

Equations for running work step by step: what a sequence of two works does, and what an attempt does
when a part of it fails.
-/

namespace Reconcile

variable {T : Model} {α β : Type} {s s' : Session T}

namespace Work

theorem bind_apply (w : Work T α) (f : α → Work T β) (s : Session T) :
    (w >>= f) s = f (w s).1 (w s).2 := rfl

@[simp]
theorem pure_apply (a : α) (s : Session T) : (pure a : Work T α) s = (a, s) := rfl

@[simp]
theorem get_apply (s : Session T) : (get : Work T (Session T)) s = (s, s) := rfl

@[simp]
theorem set_apply (s s' : Session T) : (set s' : Work T Unit) s = ((), s') := rfl

@[simp]
theorem modify_apply (f : Session T → Session T) (s : Session T) :
    (modify f : Work T Unit) s = ((), f s) := rfl

end Work

namespace Attempt

@[simp]
theorem outcome_pure (a : α) (s : Session T) : (pure a : Attempt T α).outcome s = (.ok a, s) := rfl

@[simp]
theorem outcome_throw (fault : Fault) (s : Session T) :
    (throw fault : Attempt T α).outcome s = (.error fault, s) := rfl

@[simp]
theorem outcome_get (s : Session T) : (get : Attempt T (Session T)).outcome s = (.ok s, s) := rfl

@[simp]
theorem outcome_set (s s' : Session T) : (set s' : Attempt T Unit).outcome s = (.ok (), s') := rfl

@[simp]
theorem outcome_modify (f : Session T → Session T) (s : Session T) :
    (modify f : Attempt T Unit).outcome s = (.ok (), f s) := rfl

@[simp]
theorem outcome_modifyGet (f : Session T → α × Session T) (s : Session T) :
    (modifyGet f : Attempt T α).outcome s = (.ok (f s).1, (f s).2) := rfl

@[simp]
theorem outcome_ofExcept (e : Except Fault α) (s : Session T) :
    (Attempt.ofExcept e : Attempt T α).outcome s = (e, s) := by
  cases e <;> rfl

theorem outcome_bind_of_ok {a : Attempt T α} {f : α → Attempt T β} {x : α}
    (h : a.outcome s = (.ok x, s')) : (a >>= f).outcome s = (f x).outcome s' := by
  have hbind : (a >>= f).outcome s = ExceptT.bindCont f (a.outcome s).1 (a.outcome s).2 := rfl
  rw [hbind, h]
  rfl

theorem outcome_bind_of_error {a : Attempt T α} {f : α → Attempt T β} {fault : Fault}
    (h : a.outcome s = (.error fault, s')) : (a >>= f).outcome s = (.error fault, s') := by
  have hbind : (a >>= f).outcome s = ExceptT.bindCont f (a.outcome s).1 (a.outcome s).2 := rfl
  rw [hbind, h]
  rfl

/-- A sequence ends well exactly when both its parts do. -/
theorem bind_eq_ok {a : Attempt T α} {f : α → Attempt T β} {y : β} :
    (a >>= f).outcome s = (.ok y, s') ↔
      ∃ x s₁, a.outcome s = (.ok x, s₁) ∧ (f x).outcome s₁ = (.ok y, s') := by
  rcases ha : a.outcome s with ⟨x | x, s₁⟩
  · rw [outcome_bind_of_error ha]
    constructor
    · intro h
      cases h
    · rintro ⟨x', s₂, h, _⟩
      cases h
  · rw [outcome_bind_of_ok ha]
    constructor
    · intro h
      exact ⟨x, s₁, rfl, h⟩
    · rintro ⟨x', s₂, h, hf⟩
      cases h
      exact hf

/-- What both parts of a sequence lead to, the sequence leads to, whether it fails or not. -/
theorem bind_state {P : Session T → Prop} {a : Attempt T α} {f : α → Attempt T β}
    (ha : P (a.outcome s).2)
    (hf : ∀ x, a.outcome s = (.ok x, (a.outcome s).2) → P ((f x).outcome (a.outcome s).2).2) :
    P ((a >>= f).outcome s).2 := by
  rcases h : a.outcome s with ⟨x | x, s₁⟩
  · rw [outcome_bind_of_error h]
    rw [h] at ha
    exact ha
  · rw [outcome_bind_of_ok h]
    have hx := hf x (by rw [h])
    rw [h] at hx
    exact hx

end Attempt

end Reconcile
