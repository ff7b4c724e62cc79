/-!
# Computations that may fail

What it takes for a sequence of fallible computations, or for a check of every element of a list, to
end well, or to fail with a given fault.
-/

namespace Reconcile

namespace Outcome

variable {ε α β : Type}

theorem toOption_eq_some {x : Except ε α} {a : α} : x.toOption = some a ↔ x = .ok a := by
  cases x <;> simp [Except.toOption]

theorem bind_eq_ok {x : Except ε α} {f : α → Except ε β} {b : β} :
    (x >>= f) = .ok b ↔ ∃ a, x = .ok a ∧ f a = .ok b := by
  cases x with
  | error fault =>
    constructor
    · intro h
      cases h
    · rintro ⟨a, h, _⟩
      cases h
  | ok a =>
    constructor
    · intro h
      exact ⟨a, rfl, h⟩
    · rintro ⟨a', h, hf⟩
      cases h
      exact hf

theorem bind_eq_error {x : Except ε α} {f : α → Except ε β} {fault : ε} :
    (x >>= f) = .error fault ↔ x = .error fault ∨ ∃ a, x = .ok a ∧ f a = .error fault := by
  cases x with
  | error fault' =>
    constructor
    · intro h
      cases h
      exact Or.inl rfl
    · rintro (h | ⟨a, h, _⟩)
      · cases h
        rfl
      · cases h
  | ok a =>
    constructor
    · intro h
      exact Or.inr ⟨a, rfl, h⟩
    · rintro (h | ⟨a', h, hf⟩)
      · cases h
      · cases h
        exact hf

/-! ## Checking the elements of a list in turn -/

variable {f : α → Except ε Unit} {fault : ε}

theorem forM_eq_ok {as : List α} : forM as f = .ok () ↔ ∀ a ∈ as, f a = .ok () := by
  induction as with
  | nil => exact iff_of_true rfl nofun
  | cons a rest ih =>
    rw [List.forM_cons, bind_eq_ok, List.forall_mem_cons, ← ih]
    constructor
    · rintro ⟨⟨⟩, hfirst, hrest⟩
      exact ⟨hfirst, hrest⟩
    · rintro ⟨hfirst, hrest⟩
      exact ⟨(), hfirst, hrest⟩

/-- The fault is that of the first element that does not pass. -/
theorem forM_eq_error {as : List α} : forM as f = .error fault ↔ ∃ before a after,
    as = before ++ a :: after ∧ f a = .error fault ∧ ∀ b ∈ before, f b = .ok () := by
  induction as with
  | nil =>
    constructor
    · intro h
      cases h
    · rintro ⟨before, a, after, hsplit, _⟩
      cases before <;> cases hsplit
  | cons head rest ih =>
    -- the head fails, or it passes and the first fault lies in the rest
    rw [List.forM_cons, bind_eq_error]
    constructor
    · rintro (hfault | ⟨⟨⟩, hok, hlater⟩)
      · exact ⟨[], head, rest, rfl, hfault, nofun⟩
      · rcases ih.1 hlater with ⟨before, a, after, rfl, hfault, hbefore⟩
        exact ⟨head :: before, a, after, rfl, hfault, List.forall_mem_cons.2 ⟨hok, hbefore⟩⟩
    · rintro ⟨before, a, after, hsplit, hfault, hbefore⟩
      cases before with
      | nil =>
        cases hsplit
        exact Or.inl hfault
      | cons b before =>
        cases hsplit
        rcases List.forall_mem_cons.1 hbefore with ⟨hfirst, hothers⟩
        exact Or.inr ⟨(), hfirst, ih.2 ⟨before, a, after, rfl, hfault, hothers⟩⟩

end Outcome

end Reconcile
