import Reconcile.Proofs.Session.Ledger
import Reconcile.Sample.Model
import Reconcile.Sample.Schema

/-!
# What a save may change

Contexts on one store take no notice of each other: a save writes the payload of every entity in the
registry of its context.  Rows that belong to other contexts are spared all the same, because an
entity that was only read has the payload of its row, and writing that again changes nothing.

This fails in two ways, which the results here name.  The row may have been *overtaken*: the store
has another row by now, or none, and the save puts the payload back that its context knows.  Or the
row holds a payload that its type would not have written, as an imported row can, and the save
writes it in the form of the type.
-/

namespace Reconcile

namespace Session

variable {T : Model} {s s' : Session T} {c : ContextId} {L : Ledger} {allow : Deed → Prop}

/-- What an entity is written as that stands for a row. -/
theorem Stands.same_of_savable {e : Entry T} {row : Row} (h : s.Stands c e row) {payload : Json}
    (hsavable : s.Savable e payload) (hkept : ¬ Model.Rewrites e.kind c row.payload) :
    row.payload.same payload = true := by
  rcases h.entity with ⟨m, hm, _, _, _, hreflects⟩
  rcases hsavable.entity with ⟨m', hm', _, _, hencode⟩
  cases Option.some.inj (hm.symm.trans hm')
  rw [hencode] at hreflects
  -- it has the payload of the row, or reads it and, as it does not rewrite it, writes it again
  rcases hreflects with ⟨j, hj, hsame⟩ | ⟨v, hdecode, hv⟩
  · cases hj
    exact hsame
  · cases hsame : row.payload.same payload with
    | true => rfl
    | false => exact absurd ⟨v, payload, hdecode, hv, hsame⟩ hkept

/-- Writing an entity to the row that it stands for leaves the row. -/
theorem Stands.written {e : Entry T} {row : Row} (h : s.Stands c e row) {payload : Json}
    (hsavable : s.Savable e payload) (hkept : ¬ Model.Rewrites e.kind c row.payload) :
    Row.written (some row) row.id payload = row := by
  unfold Row.written Row.update
  dsimp only
  rw [if_pos (h.same_of_savable hsavable hkept)]

section Overtaking

open Sample

def bothOpen : Session model :=
  (((Session.empty.openStore blogSchema .default).2.openContext ⟨0⟩).2.openContext ⟨0⟩).2

def tagNamed (name : Option String) (temporary : Bool) : Entity model :=
  .new (T := model) Kind.tag (⟨name, none⟩ : Tag) temporary

def tagId : EntityId := ⟨"Tag", 1⟩

/-- The tag as the first context inserts it. -/
def redHandle : Handle Kind.tag := ⟨0, tagId, ⟨1⟩⟩

def tagPayload (name : String) : Json := Tag.toJson ⟨some name, none⟩

def tagChanges (name : String) : Changes := ⟨[], [(tagId, tagPayload name)]⟩

def redWritten : Session model :=
  (bothOpen.insertUnder ⟨1⟩ Kind.tag 1).modifyEntity 0 fun _ => tagNamed (some "red") true

def redSaved : Session model := (redWritten.commit ⟨1⟩ (tagChanges "red")).2

def redLoaded : Session model :=
  redSaved.enroll ⟨2⟩ Kind.tag tagId (⟨some "red", none⟩ : Tag) false

def blueWritten : Session model :=
  redLoaded.modifyEntity 0 fun _ => tagNamed (some "blue") false

def blueSaved : Session model := (blueWritten.commit ⟨1⟩ (tagChanges "blue")).2

theorem tracked_redWritten : ∃ L, Tracked Deed.Native redWritten L := by
  have hempty : Tracked (T := model) Deed.Native .empty .blank := Tracked.empty
  have hopen := ((hempty.step (.openStore _ blogSchema .default) trivial).step
    (.openContext _ ⟨0⟩ rfl) trivial).step (.openContext _ ⟨0⟩ rfl) trivial
  have hstore : bothOpen.storeOf? ⟨1⟩ = some (Store.new blogSchema .default) := rfl
  have hinserted := hopen.step (Step.insert Kind.tag hstore) trivial
  have hedited : (tagNamed none true).Edited (tagNamed (some "red") true) :=
    Entity.edited_write (e := tagNamed none true) (⟨some "red", none⟩ : Tag)
  have hedit : Step (bothOpen.insertUnder ⟨1⟩ Kind.tag 1) (.changed 0) redWritten :=
    Step.edit rfl hedited
  exact ⟨_, hinserted.step hedit trivial⟩

theorem tracked_redSaved : ∃ L, Tracked Deed.Native redSaved L := by
  rcases tracked_redWritten with ⟨L, hwritten⟩
  have hcollect : redWritten.collect ⟨1⟩ (redWritten.registry ⟨1⟩).values =
      .ok (tagChanges "red") := rfl
  exact ⟨_, hwritten.step (Step.save hcollect) trivial⟩

theorem tracked_redLoaded : ∃ L, Tracked Deed.Native redLoaded L ∧
    L 1 = some ⟨tagId, 1, tagPayload "red"⟩ := by
  rcases tracked_redSaved with ⟨L, hsaved⟩
  have hrow : (redSaved.rowsOf ⟨2⟩).row? tagId = some ⟨tagId, 1, tagPayload "red"⟩ := rfl
  have hload : Step redSaved (.loaded 1 ⟨tagId, 1, tagPayload "red"⟩) redLoaded :=
    Step.load hrow rfl rfl rfl
  exact ⟨_, hsaved.step hload trivial, rfl⟩

theorem tracked_blueWritten : ∃ L, Tracked Deed.Native blueWritten L ∧
    L 1 = some ⟨tagId, 1, tagPayload "red"⟩ := by
  rcases tracked_redLoaded with ⟨L, hloaded, hrow⟩
  have hedited : (tagNamed (some "red") false).Edited (tagNamed (some "blue") false) :=
    Entity.edited_write (e := tagNamed (some "red") false) (⟨some "blue", none⟩ : Tag)
  have hedit : Step redLoaded (.changed 0) blueWritten := Step.edit rfl hedited
  exact ⟨_, hloaded.step hedit trivial, hrow⟩

theorem tracked_blueSaved : ∃ L, Tracked Deed.Native blueSaved L ∧
    L 1 = some ⟨tagId, 1, tagPayload "red"⟩ := by
  rcases tracked_blueWritten with ⟨L, hwritten, hrow⟩
  have hcollect : blueWritten.collect ⟨1⟩ (blueWritten.registry ⟨1⟩).values =
      .ok (tagChanges "blue") := rfl
  exact ⟨_, hwritten.step (Step.save hcollect) trivial, hrow⟩

end Overtaking

end Session

end Reconcile
