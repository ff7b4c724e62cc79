import Mathlib.Data.List.Forall2
import Mathlib.Order.Basic
import Reconcile.Proofs.Data.SortedMap

/-!
# Filling a table by key

What it means to reconcile a list of plain values, without sessions: there is a table of values
under numbers, every plain value is filled into the last value of its key, or into a blank one under
a new number if no value has the key (`Placed`).  Doing that for a list in turn (`PlacedAll`)
resolves equal keys to equal numbers, and fills into each number the plain values of its key in
their order.
-/

namespace Reconcile

/-- How plain values are filled into values that have the same key. -/
structure Filling (P V N : Type) where
  keyOf : P → N
  key? : V → Option N
  blank : V
  fill : P → V → V
  key_fill : ∀ p v, key? (fill p v) = some (keyOf p)

abbrev Table (V : Type) := UInt64 → Option V

/-! ## Last entries -/

namespace Table

variable {V N : Type} {key? : V → Option N} {t : Table V} {n m : N} {i j : UInt64}

/-- The value under the number is the last one with this key. -/
structure Last (key? : V → Option N) (t : Table V) (n : N) (i : UInt64) : Prop where
  entry : ∃ v, t i = some v ∧ key? v = some n
  last : ∀ j v, t j = some v → key? v = some n → j ≤ i

/-- No value has this key. -/
def Missing (key? : V → Option N) (t : Table V) (n : N) : Prop :=
  ∀ j v, t j = some v → key? v ≠ some n

/-- Where a value of this key belongs: in place of the last one that has it, or at a new number if
none has it. -/
def Target (key? : V → Option N) (t : Table V) (n : N) (i : UInt64) : Prop :=
  Last key? t n i ∨ (t i = none ∧ Missing key? t n)

theorem Last.unique (h : Last key? t n i) (h' : Last key? t n j) : i = j := by
  rcases h.entry with ⟨v, hv, hkey⟩
  rcases h'.entry with ⟨w, hw, hkey'⟩
  exact UInt64.le_antisymm (h'.last i v hv hkey) (h.last j w hw hkey')

theorem Last.key (h : Last key? t n i) (h' : Last key? t m i) : n = m := by
  rcases h.entry with ⟨v, hv, hkey⟩
  rcases h'.entry with ⟨w, hw, hkey'⟩
  cases hv.symm.trans hw
  exact Option.some.inj (hkey.symm.trans hkey')

theorem Last.not_missing (h : Last key? t n i) : ¬ Missing key? t n := by
  rcases h.entry with ⟨v, hv, hkey⟩
  exact fun hmissing => hmissing i v hv hkey

theorem Target.missing_iff (h : Target key? t n i) : Missing key? t n ↔ t i = none := by
  constructor
  · intro hmissing
    rcases h with hlast | ⟨hnone, _⟩
    · exact absurd hmissing hlast.not_missing
    · exact hnone
  · intro hnone
    rcases h with hlast | ⟨_, hmissing⟩
    · rcases hlast.entry with ⟨v, hv, _⟩
      cases hv.symm.trans hnone
    · exact hmissing

/-- A value of this key was put where it belongs, and nothing else changed. -/
structure Put (key? : V → Option N) (t : Table V) (n : N) (i : UInt64) (t' : Table V) : Prop where
  target : Target key? t n i
  entry : ∃ v, t' i = some v ∧ key? v = some n
  kept : ∀ j, j ≠ i → t' j = t j

namespace Put

variable {t' : Table V}

theorem last (h : Put key? t n i t') : Last key? t' n i := by
  refine ⟨h.entry, ?_⟩
  intro j v hv hkey
  by_cases hj : j = i
  · exact hj ▸ UInt64.le_refl _
  · rw [h.kept j hj] at hv
    rcases h.target with hlast | ⟨_, hmissing⟩
    · exact hlast.last j v hv hkey
    · exact absurd hkey (hmissing j v hv)

/-- What was there had no other key. -/
theorem key_eq (h : Put key? t n i t') {v : V} (hv : t i = some v) (hkey : key? v = some m) :
    n = m := by
  rcases h.target with hlast | ⟨hnone, _⟩
  · rcases hlast.entry with ⟨w, hw, hkey'⟩
    cases hv.symm.trans hw
    exact Option.some.inj (hkey'.symm.trans hkey)
  · cases hnone.symm.trans hv

/-- No key moves: the last value of a key stays the last one. -/
theorem keeps (h : Put key? t n i t') (hlast : Last key? t m j) : Last key? t' m j := by
  have hput := h.last
  by_cases hkey : n = m
  · subst hkey
    rcases h.target with htarget | ⟨_, hmissing⟩
    · rw [hlast.unique htarget]
      exact hput
    · exact absurd hmissing hlast.not_missing
  · have hne : ∀ l v, t' l = some v → key? v = some m → l ≠ i := by
      rintro l v hv hm rfl
      rcases hput.entry with ⟨w, hw, hkey'⟩
      cases hv.symm.trans hw
      exact hkey (Option.some.inj (hkey'.symm.trans hm))
    rcases hlast.entry with ⟨v, hv, hm⟩
    have hj : j ≠ i := by
      rintro rfl
      exact hkey (h.key_eq hv hm)
    refine ⟨⟨v, (h.kept j hj).trans hv, hm⟩, ?_⟩
    intro l w hw hm'
    rw [h.kept l (hne l w hw hm')] at hw
    exact hlast.last l w hw hm'

/-- Another key belongs elsewhere. -/
theorem ne_of_key_ne (h : Put key? t n i t') (hkey : n ≠ m) (htarget : Target key? t' m j) :
    j ≠ i := by
  rintro rfl
  rcases htarget with hlast | ⟨hnone, _⟩
  · exact hkey (h.last.key hlast)
  · rcases h.entry with ⟨v, hv, _⟩
    cases hv.symm.trans hnone

/-- Other keys than the one of the value belong where they did. -/
theorem target_of_ne (h : Put key? t n i t') (hkey : n ≠ m) (htarget : Target key? t' m j) :
    Target key? t m j := by
  have hj := h.ne_of_key_ne hkey htarget
  have hkept : ∀ l v, t l = some v → key? v = some m → t' l = some v := by
    intro l v hv hm
    refine (h.kept l ?_).trans hv
    rintro rfl
    exact hkey (h.key_eq hv hm)
  rcases htarget with hlast | ⟨hnone, hmissing⟩
  · rcases hlast.entry with ⟨v, hv, hm⟩
    refine Or.inl ⟨⟨v, (h.kept j hj).symm.trans hv, hm⟩, ?_⟩
    intro l w hw hm'
    exact hlast.last l w (hkept l w hw hm') hm'
  · refine Or.inr ⟨(h.kept j hj).symm.trans hnone, ?_⟩
    intro l v hv hm
    exact hmissing l v (hkept l v hv hm) hm

end Put

end Table

/-! ## Filling -/

namespace Filling

open Table

variable {P V N : Type} {F : Filling P V N} {t t' t'' : Table V} {p : P} {n m : N} {i j : UInt64}
  {ps : List P} {is : List UInt64}

/-- The plain value was filled in under the number, and nothing else changed. -/
structure Placed (F : Filling P V N) (t : Table V) (p : P) (i : UInt64) (t' : Table V) : Prop where
  target : Target F.key? t (F.keyOf p) i
  filled : t' i = some (F.fill p ((t i).getD F.blank))
  kept : ∀ j, j ≠ i → t' j = t j

theorem Placed.put (h : F.Placed t p i t') : Put F.key? t (F.keyOf p) i t' :=
  ⟨h.target, ⟨_, h.filled, F.key_fill p _⟩, h.kept⟩

/-- The plain values were filled in one after the other. -/
inductive PlacedAll (F : Filling P V N) : Table V → List P → List UInt64 → Table V → Prop where
  | nil (t : Table V) : PlacedAll F t [] [] t
  | cons {t t' t'' : Table V} {p : P} {i : UInt64} {ps : List P} {is : List UInt64}
      (head : F.Placed t p i t') (rest : PlacedAll F t' ps is t'') :
      PlacedAll F t (p :: ps) (i :: is) t''

/-- The plain values of a key filled into a value in turn. -/
def refill [DecidableEq N] (F : Filling P V N) (n : N) (ps : List P) (v : V) : V :=
  (ps.filter fun p => F.keyOf p = n).foldl (fun v p => F.fill p v) v

/-! ## Lists of plain values -/

namespace PlacedAll

theorem last (h : F.PlacedAll t ps is t') (hlast : Last F.key? t n i) : Last F.key? t' n i := by
  induction h with
  | nil => exact hlast
  | cons hplaced _ ih => exact ih (hplaced.put.keeps hlast)

theorem kept (h : F.PlacedAll t ps is t') (hi : i ∉ is) : t' i = t i := by
  induction h with
  | nil => rfl
  | cons hplaced _ ih =>
    rw [List.mem_cons, not_or] at hi
    rw [ih hi.2, hplaced.kept i hi.1]

/-- Every plain value resolves to the last entry of its key, which was there before if an entry of
the key was. -/
theorem resolved (h : F.PlacedAll t ps is t') : List.Forall₂ (fun p i =>
    Last F.key? t' (F.keyOf p) i ∧ Target F.key? t (F.keyOf p) i) ps is := by
  induction h with
  | nil => exact List.Forall₂.nil
  | @cons t t' t'' p i ps is hplaced hrest ih =>
    refine List.Forall₂.cons ⟨hrest.last hplaced.put.last, hplaced.target⟩ (ih.imp ?_)
    rintro q j ⟨hlast, hbefore⟩
    refine ⟨hlast, ?_⟩
    have hplacedLast := hrest.last hplaced.put.last
    by_cases hkey : F.keyOf p = F.keyOf q
    · rw [← hkey] at hlast ⊢
      rw [← hplacedLast.unique hlast]
      exact hplaced.target
    · exact hplaced.put.target_of_ne hkey hbefore

/-- What is under the last number of a key in the end is what was there before, or a blank value,
with the plain values of the key filled in. -/
theorem refilled [DecidableEq N] (h : F.PlacedAll t ps is t') (hlast : Last F.key? t' n i) :
    t' i = some (F.refill n ps ((t i).getD F.blank)) := by
  induction h with
  | nil t =>
    rcases hlast.entry with ⟨v, hv, _⟩
    rw [hv]
    rfl
  | @cons t t' t'' p i₀ ps is hplaced hrest ih =>
    rw [ih hlast]
    have hplacedLast := hrest.last hplaced.put.last
    by_cases hi : i = i₀
    · subst hi
      have hkey : F.keyOf p = n := hplacedLast.key hlast
      rw [hplaced.filled, refill, refill, List.filter_cons_of_pos (by simpa using hkey)]
      rfl
    · have hkey : F.keyOf p ≠ n := by
        rintro rfl
        exact hi (hlast.unique hplacedLast)
      rw [hplaced.kept i hi, refill, refill, List.filter_cons_of_neg (by simpa using hkey)]

theorem exists_last (h : F.PlacedAll t ps is t') (hi : i ∈ is) : ∃ n, Last F.key? t' n i := by
  rcases List.mem_iff_getElem.1 hi with ⟨j, hj, rfl⟩
  have hlength := h.resolved.length_eq
  exact ⟨_, (List.forall₂_iff_get.1 h.resolved).2 j (hlength ▸ hj) hj |>.1⟩

/-- If filling in the plain values of a key once more makes no difference, the table is the same
after a second time. -/
theorem again [DecidableEq N] (h : F.PlacedAll t ps is t') (h' : F.PlacedAll t' ps is t'')
    (hrefill : ∀ n v, F.refill n ps (F.refill n ps v) = F.refill n ps v) : t'' = t' := by
  funext i
  by_cases hi : i ∈ is
  · rcases h.exists_last hi with ⟨n, hlast⟩
    rw [h'.refilled (h'.last hlast), h.refilled hlast, Option.getD_some, hrefill]
  · exact h'.kept hi

end PlacedAll

end Filling

end Reconcile
