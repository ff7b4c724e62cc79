import Reconcile.Query.Order

/-!
# Sorting keeps what it sorts
-/

namespace Reconcile

variable {α : Type} {cmp : α → α → Ordering}

theorem perm_insertDescending (a : α) (as : List α) :
    (insertDescending cmp a as).Perm (a :: as) := by
  induction as with
  | nil => exact List.Perm.refl _
  | cons b rest ih =>
    unfold insertDescending
    split
    · exact (ih.cons b).trans (List.Perm.swap a b rest)
    · exact List.Perm.refl _

theorem perm_sortStable (as : List α) : (sortStable cmp as).Perm as := by
  have hfold : ∀ (rest sorted : List α),
      (rest.foldl (fun sorted a => insertDescending cmp a sorted) sorted).Perm
        (rest ++ sorted) := by
    intro rest
    induction rest with
    | nil => exact fun sorted => List.Perm.refl _
    | cons a rest ih =>
      intro sorted
      refine (ih _).trans ?_
      exact ((perm_insertDescending a sorted).append_left rest).trans List.perm_middle
  unfold sortStable
  refine (List.reverse_perm _).trans ?_
  simpa using hfold as []

end Reconcile
