import Reconcile.Proofs.Mapping.Synchronizing
import Reconcile.Proofs.Sample.Filling
import Reconcile.Proofs.Sample.Keys
import Reconcile.Proofs.Session.Isolation

/-!
# Synchronizing tags

Tags are filled by a function, so synchronizing with a list of plain tags is filling a table of tags
by name.  The tags must not be in use, and nothing live of another type may be registered under
their name, because a fetch of tags fails at it.
-/

namespace Reconcile.Sample

open Session

/-- Filling tags by name, with a change ahead of each fill. -/
def tagFilling (g : Tag → Tag) : Filling TagPlain Tag String where
  keyOf p := p.name
  key? v := v.name
  blank := .blank
  fill p v := fillTag p (g v)
  key_fill _ _ := rfl

theorem functional_tag (g : Tag → Tag) :
    mapping.Functional Kind.tag "name" (fun v => pure (g v)) (tagFilling g) where
  blank := rfl
  identifies p := by
    refine ⟨.string (TagPlain.name p), rfl, ?_⟩
    intro v
    refine ⟨Tag.toJson v, rfl, ?_⟩
    rw [Tag.valueAt_name]
    exact same_ofOption_string
  fill _ v := ⟨g v, fun _ => rfl, fun _ _ _ _ => rfl⟩

/-- Synchronizing a list of plain tags, from whatever state a session can be in, ends at one tag for
each name: the last one that was seen with it, or else one that was inserted for it.  Into it go the
plain tags of the name in their order.  A set ends at the same tags. -/
theorem synchronize_tags {s : Session model} (hrun : Run (fun _ => True) .empty s) {scope : Scope}
    (hready : s.Ready scope.context Kind.tag "name" Entity.Unused) (g : Tag → Tag)
    (ps : List TagPlain)
    (hkeys : (mapping.syncList (k := Kind.tag) scope ps (fun v => pure (g v)) s).2.KeysLeft) :
    ∃ (hs : List (Handle Kind.tag)) (s' : Session model),
      mapping.syncList (k := Kind.tag) scope ps (fun v => pure (g v)) s =
        (MemberList.ofHandles hs, s'.report (.reconciled .list "Tag" ps.length hs.length)) ∧
      mapping.syncSet (k := Kind.tag) scope ps (fun v => pure (g v)) s =
        (MemberSet.ofHandles hs,
          s'.report (.reconciled .set "Tag" ps.length (MemberSet.ofHandles hs).size)) ∧
      (∀ m, m ∈ (MemberSet.ofHandles hs).members ↔ ∃ h ∈ hs, m = .ofHandle h) ∧
      Mapping.Synced (T := model) (M := mapping) (k := Kind.tag) s scope.context (tagFilling g) ps
        hs s' := by
  have hsound : Sound s := hrun.sound sound_empty
  have hkeysBefore : s.KeysLeft := by
    have hafter := lawful.syncList (T := model) (k := Kind.tag) scope ps
      ((functional_tag g).advances (⟨"", none⟩ : TagPlain)) s hsound
    exact hafter.run.keysLeft hkeys
  have hnumbered : Numbered s := hrun.numbered sound_empty numbered_empty hkeysBefore
  exact (functional_tag g).sync lawful ps hsound hnumbered hready hkeys

/-- The second context has read nothing yet, and the one row that it can look up is that of a tag. -/
theorem ready_redSaved (P : Entity model → Prop) :
    redSaved.Ready (Scope.within ⟨2⟩).context Kind.tag "name" P := by
  refine ⟨rfl, ⟨tagDescription, rfl, rfl⟩, ?_, ?_⟩
  · intro key row hrow _
    have hrows : redSaved.rowsNamed (Scope.within ⟨2⟩).context Kind.tag =
        [(1, ⟨tagId, 1, tagPayload "red"⟩)] := rfl
    have hmem := mem_rowsNamed_iff.2 hrow
    rw [hrows] at hmem
    cases List.mem_singleton.1 hmem
    rfl
  · intro key e m he
    have hregistry : redSaved.registry (Scope.within ⟨2⟩).context = .empty := rfl
    rw [hregistry] at he
    cases he

/-- The second context synchronizes a committed tag, a new one, and the committed one again. -/
theorem synchronize_red_blue_red : ∃ (hs : List (Handle Kind.tag)) (s' : Session model),
    hs.length = 3 ∧ Mapping.Synced (T := model) (M := mapping) (k := Kind.tag) redSaved ⟨2⟩
      (tagFilling id)
      [⟨"red", none⟩, ⟨"blue", some "b"⟩, ⟨"red", some "r"⟩] hs s' := by
  rcases tracked_redSaved with ⟨L, htracked⟩
  rcases synchronize_tags (htracked.run.mono fun _ _ => trivial) (ready_redSaved _) id
    [⟨"red", none⟩, ⟨"blue", some "b"⟩, ⟨"red", some "r"⟩] (by decide +kernel) with
    ⟨hs, s', _, _, _, hsynced⟩
  exact ⟨hs, s', hsynced.length, hsynced⟩

/-! ## A second type under the name -/

def codedRed : Session model :=
  (bothOpen.insertUnder ⟨1⟩ Kind.codedTag 1).modifyEntity 0 fun _ =>
    .new (T := model) Kind.codedTag (⟨some "red", none⟩ : CodedTag) true

/-- A store of the blog with two contexts, the first of which has inserted a coded tag. -/
def codedIn (settings : Settings) (v : CodedTag) : Session model :=
  let s : Session model := (Session.empty.openStore blogSchema settings).2
  ((s.openContext ⟨0⟩).2.openContext ⟨0⟩).2.insertUnder ⟨1⟩ Kind.codedTag 1 |>.modifyEntity 0
    fun _ => .new (T := model) Kind.codedTag v true

theorem run_codedIn (settings : Settings) (v : CodedTag) :
    Run Deed.Native .empty (codedIn settings v) := by
  let s : Session model := (Session.empty.openStore blogSchema settings).2
  let both : Session model := ((s.openContext ⟨0⟩).2.openContext ⟨0⟩).2
  have hopen : Run Deed.Native .empty both :=
    (((Step.openStore .empty blogSchema settings).run trivial).trans
      ((Step.openContext _ ⟨0⟩ rfl).run trivial)).trans ((Step.openContext _ ⟨0⟩ rfl).run trivial)
  have hstore : both.storeOf? ⟨1⟩ = some (Store.new blogSchema settings) := rfl
  have hinsert : Run Deed.Native both (codedIn settings v) := run_insertWith hstore rfl rfl _
  exact hopen.trans hinsert

theorem run_codedRed : Run Deed.Native .empty codedRed := run_codedIn .default ⟨some "red", none⟩

/-- With an entity of another type that has the name, no tag is found by the name, and each
occurrence of the name in the list gets a tag of its own. -/
theorem synchronize_red_twice : ∃ h h' : Handle Kind.tag,
    Run (fun _ => True) .empty codedRed ∧ codedRed.takesPending ⟨1⟩ = true ∧
      (codedRed.schemaOf ⟨1⟩).require "Tag" = .ok tagDescription ∧
      (codedRed.rowsOf ⟨1⟩).count = 0 ∧
      (∀ m ∈ codedRed.entities, m.filling = false ∧ m.guard = .free) ∧
      (mapping.syncList (k := Kind.tag) (.within ⟨1⟩)
        [(⟨"red", none⟩ : TagPlain), (⟨"red", none⟩ : TagPlain)] pure codedRed).1 =
          MemberList.ofHandles [h, h'] ∧ h ≠ h' := by
  refine ⟨⟨1, ⟨"Tag", 2⟩, ⟨1⟩⟩, ⟨2, ⟨"Tag", 3⟩, ⟨1⟩⟩, run_codedRed.mono fun _ _ => trivial, rfl, rfl,
    rfl, ?_, rfl, by decide⟩
  intro m hm
  have hentities : codedRed.entities =
      #[.new (T := model) Kind.codedTag (⟨some "red", none⟩ : CodedTag) true] := rfl
  rw [hentities] at hm
  cases Array.mem_singleton.1 hm
  exact ⟨rfl, rfl⟩

end Reconcile.Sample
