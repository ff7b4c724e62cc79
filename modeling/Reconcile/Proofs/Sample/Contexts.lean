import Reconcile.Proofs.Mapping.Operating
import Reconcile.Proofs.Sample.Minding
import Reconcile.Proofs.Sample.Posts

/-!
# Contexts of the sample model leave one another alone

Since fills of the sample model mind the entities of their context, whatever one context does with
handles of its own, short of a save that succeeds, is nothing to the others: they have the same
entities with the same values, payloads and marks, read the same rows, and fetch and save as before.

All this is shown as long as keys are left (`Session.KeysLeft`): past the last key a store begins again
at zero, and an entity under a key handed out again takes the place that another had in the registry
of its own context.
-/

namespace Reconcile.Sample

open Session

variable {s s' : Session model} {owners : Owners} {scope : Scope}

/-- While keys are left, only the keys of what others insert later can tell that an operation has taken
place. -/
theorem unaware_operation (hrun : Run (fun _ => True) .empty s) (hcustody : s.Custody owners)
    (hoperation : mapping.Operation owners scope s s') (hkeys : s'.KeysLeft)
    (hsaves : s'.saves = s.saves) :
    (∀ i, (s'.store? i).map Store.rows = (s.store? i).map Store.rows) ∧
    (∀ d, d ≠ scope.context →
      (∀ n, owners[n]? = some d → s'.entity? n = s.entity? n) ∧ Unaware d s s') ∧
    s'.Custody (ownersAfter owners scope.context s s') := by
  rcases hoperation.apart minds_sample hrun hcustody hkeys hsaves with ⟨hcustody', hapart⟩
  have howner : ∀ {n : Nat} {d : ContextId}, owners[n]? = some d →
      (ownersAfter owners scope.context s s')[n]? = some d := by
    intro n d hn
    rcases List.getElem?_eq_some_iff.1 hn with ⟨hlt, _⟩
    exact (List.getElem?_append_left hlt).trans hn
  have howned : Owned (ownersAfter owners scope.context s s') s :=
    fun d key e he => howner (hcustody.owned d key e he)
  refine ⟨hapart.rows, ?_, hcustody'⟩
  intro d hd
  refine ⟨?_, hapart.unaware (hrun.sound sound_empty) howned hd⟩
  intro n hn
  have hlt : n < s.entities.size := by
    rw [← hcustody.length]
    exact (List.getElem?_eq_some_iff.1 hn).1
  refine hapart.entity? n hlt ?_
  rw [howner hn]
  exact fun hsame => hd (Option.some.inj hsame)

/-! ## Two drafts of one post -/

/-- The first context has synchronized a post and not saved it. -/
def drafted : Session model :=
  (mapping.reconcile (T := model) (k := Kind.post) (.within ⟨1⟩) firstPost pure bothOpen).2

/-- Reconciling a plain value without a hook is an operation with no handles at all. -/
theorem operation_reconcile {k : Kind} (owners : Owners) (scope : Scope) (p : Plain k)
    (s : Session model) : mapping.Operation (T := model) owners scope s
      (mapping.reconcile (T := model) (k := k) scope p pure s).2 := by
  have hpure : Hook.Confined (T := model) (k := k) owners scope.context pure :=
    fun _ => Hook.minds_of_function fun _ _ => id
  exact .reconcile (M := mapping) p hpure

theorem reached_bothOpen : mapping.Reached [] bothOpen := by
  have hstored : mapping.Reached [] (Session.empty.openStore blogSchema .default).2 :=
    .openStore .empty blogSchema .default
  exact (hstored.openContext (i := ⟨0⟩) rfl).openContext (i := ⟨0⟩) rfl

theorem reached_drafted : mapping.Reached (List.replicate 4 ⟨1⟩) drafted := by
  have hsaves : drafted.saves = bothOpen.saves := by decide +kernel
  have hoperation : mapping.Operation (T := model) [] (.within ⟨1⟩) bothOpen drafted :=
    operation_reconcile (k := .post) [] (.within ⟨1⟩) firstPost bothOpen
  have howners : ownersAfter [] (Scope.within ⟨1⟩).context bothOpen drafted =
      List.replicate 4 ⟨1⟩ := by decide +kernel
  have hreached := reached_bothOpen.operate hoperation hsaves
  rwa [howners] at hreached

/-- The second context drafts the post too. -/
def draftedTwice : Session model :=
  (mapping.reconcile (T := model) (k := Kind.post) (.within ⟨2⟩) secondPost pure drafted).2

/-- The second context makes entities of its own, and the first one keeps what it has: its fetches
and its save end as before. -/
theorem unaware_draftedTwice : draftedTwice.entities.size = 9 ∧
    (draftedTwice.store? ⟨0⟩).map Store.rows = (drafted.store? ⟨0⟩).map Store.rows ∧
    (∀ n < 4, draftedTwice.entity? n = drafted.entity? n) ∧ Unaware ⟨1⟩ drafted draftedTwice := by
  have hcustody : drafted.Custody (List.replicate 4 ⟨1⟩) :=
    reached_drafted.custody minds_sample (by decide +kernel)
  have hoperation : mapping.Operation (T := model) (List.replicate 4 ⟨1⟩) (.within ⟨2⟩) drafted
      draftedTwice := operation_reconcile (k := .post) _ _ secondPost drafted
  have hkeys : draftedTwice.KeysLeft := by decide +kernel
  have hsaves : draftedTwice.saves = drafted.saves := by decide +kernel
  rcases unaware_operation (reached_drafted.run minds_sample) hcustody hoperation hkeys hsaves with
    ⟨hrows, hothers, _⟩
  rcases hothers ⟨1⟩ (by decide) with ⟨hentity, hunaware⟩
  refine ⟨by decide +kernel, hrows ⟨0⟩, ?_, hunaware⟩
  intro n hn
  exact hentity n (by rw [List.getElem?_replicate, if_pos hn])

end Reconcile.Sample
