import Reconcile.Proofs.Mapping.Resyncing
import Reconcile.Proofs.Sample.Contexts
import Reconcile.Proofs.Sample.Standing

/-!
# Synchronizing tags and authors again

Posts share tags and authors, which are synchronized by their keys.  Doing that a second time after
a save changes nothing: the colour that a tag keeps is the last one that was given, and an author
takes over the name that was given last.

A set is not the same the second time if something stands in the way of finding a tag by its name
(`Strays`): an entity of another type under the name of the type, a schema without the attribute, or
a row that a deleted tag hides until the save.
-/

namespace Reconcile.Sample

open Session

/-- Synchronizing with a red tag, saving, and synchronizing again: the two sets, and what the save
came to. -/
def redAgain (s : Session model) : MemberSet Kind.tag × Except Fault Summary × MemberSet Kind.tag :=
  let red : List TagPlain := [⟨"red", none⟩]
  let (first, s₁) := mapping.syncSet (T := model) (k := Kind.tag) (.within ⟨1⟩) red pure s
  let (result, s₂) := ((Scope.within ⟨1⟩).save (T := model)).outcome s₁
  (first, result, (mapping.syncSet (T := model) (k := Kind.tag) (.within ⟨1⟩) red pure s₂).1)

/-- In a session that can be reached, that finds what is pending, in which every row of a tag can be
read and nobody uses an entity, the second set is not the first one. -/
structure Strays (s : Session model) : Prop where
  run : Run (fun _ => True) .empty s
  pending : s.takesPending ⟨1⟩ = true
  readable : ∀ entry ∈ s.rowsNamed (T := model) ⟨1⟩ Kind.tag,
    (Tag.ofJson? entry.2.payload).isSome
  unused : ∀ m ∈ s.entities, m.filling = false ∧ m.guard = .free
  saved : (redAgain s).2.1.isOk = true
  strays : (redAgain s).2.2.members.map Member.id ≠ (redAgain s).1.members.map Member.id

/-- A store that describes tags without their name, and checks nothing. -/
def unkeyed : Session model :=
  ((Session.empty.openStore (.ofList 1 [⟨"Tag", [text "colour"], []⟩]) ⟨false, true⟩).2.openContext
    ⟨0⟩).2

/-- A red tag of the context that is pending, a second one that is deleted, and a row that was
imported under the key of the second one. -/
def veiled : Session model :=
  ((redWritten.insertUnder ⟨1⟩ Kind.tag 2).modifyEntity 1 fun e => { e with deleted := true }
    ).modifyStore ⟨0⟩ fun _ =>
      ⟨blogSchema, .default, 3, .file .empty "Tag" 2 ⟨⟨"Tag", 2⟩, 1, tagPayload "red"⟩⟩

theorem run_veiled : Run (fun _ => True) .empty veiled := by
  rcases tracked_redWritten with ⟨L, hwritten⟩
  have hstore : redWritten.storeOf? ⟨1⟩ = some ⟨blogSchema, .default, 2, .empty⟩ := rfl
  have hinserted : Run (fun _ => True) redWritten (redWritten.insertUnder ⟨1⟩ Kind.tag 2) :=
    (Step.insert Kind.tag hstore).run trivial
  have hdeleted : Run (fun _ => True) (redWritten.insertUnder ⟨1⟩ Kind.tag 2)
      ((redWritten.insertUnder ⟨1⟩ Kind.tag 2).modifyEntity 1 fun e => { e with deleted := true }) :=
    (Step.delete (redWritten.insertUnder ⟨1⟩ Kind.tag 2) 1).run trivial
  have hstore' : ((redWritten.insertUnder ⟨1⟩ Kind.tag 2).modifyEntity 1 fun e =>
      { e with deleted := true }).store? ⟨0⟩ = some ⟨blogSchema, .default, 3, .empty⟩ := rfl
  have hcheck : (⟨1, 1, 3, .file .empty "Tag" 2 ⟨⟨"Tag", 2⟩, 1, tagPayload "red"⟩⟩ :
      Snapshot).check blogSchema = .ok () := rfl
  have himported : Step _ (.imported ⟨0⟩) veiled := Step.imports hstore' hcheck
  exact ((hwritten.run.mono fun _ _ => trivial).trans hinserted).trans
    (hdeleted.trans (himported.run trivial))

/-- Three things that get in the way: a coded tag has the name, the name is no attribute, and a row
comes to light that was hidden. -/
theorem red_strays : Strays codedRed ∧ Strays unkeyed ∧ Strays veiled := by
  have hopened : Run (fun _ => True) .empty unkeyed :=
    ((Step.openStore .empty _ _).run trivial).trans ((Step.openContext _ ⟨0⟩ rfl).run trivial)
  refine ⟨⟨run_codedRed.mono fun _ _ => trivial, ?_, ?_, ?_, ?_, ?_⟩, ⟨hopened, ?_, ?_, ?_, ?_, ?_⟩,
    ⟨run_veiled, ?_, ?_, ?_, ?_, ?_⟩⟩
  all_goals decide +kernel

end Reconcile.Sample
