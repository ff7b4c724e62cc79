import Mathlib.Data.Set.Card
import Reconcile.Proofs.Mapping.Opening
import Reconcile.Proofs.Sample.Brackets
import Reconcile.Proofs.Sample.Keys

/-!
# Folders in folders

Filling a folder reconciles the folder that holds it, which is of the same type, while the value of
the first folder is out of its entity.  A folder that holds itself has to be found then by a code
that its value does not have yet: it is found by its preview.

So the folder that holds is looked up in a session in which all folders show their payloads, and one
of them fills (`Awaits`).
-/

namespace Reconcile

namespace Session

variable {T : Model} {s s₁ s₂ : Session T} {c : ContextId}

/-- The keys under which entities were inserted in a context. -/
def insertedKeys (s s' : Session T) (c : ContextId) : Set UInt64 :=
  {key | (s.registry c).get? key = none ∧
    ∃ e, (s'.registry c).get? key = some e ∧ e.pending = true}

end Session

namespace Sample

open Session

variable {s s₁ s₂ s₃ s' : Session model} {scope : Scope} {c : ContextId} {p : FolderPlain}
  {h g : Handle Kind.folder} {code : UInt64}

/-- The folders can be looked up by their codes in the context, and nobody uses them. -/
structure FolderReady (s : Session model) (c : ContextId) : Prop where
  pending : s.takesPending c = true
  described : ∃ d, (s.schemaOf c).require "Folder" = .ok d ∧ (d.attribute? "code").isSome
  legible : ∀ key row, (s.rowsOf c).row? ⟨"Folder", key⟩ = some row →
    (Folder.ofJson? (some c) row.payload).isSome
  unused : ∀ key e m, (s.registry c).get? key = some e → e.kind = Kind.folder →
    s.entity? e.slot = some m → m.Unused

theorem FolderReady.ready (hready : FolderReady s c) (hsound : Sound s) :
    s.Ready c Kind.folder "code" Entity.Unused where
  pending := hready.pending
  described := hready.described
  readable key row hrow _ := hready.legible key row hrow
  live key e m he hname hm _ := by
    have hcall : e.kind.entityName = "Folder" := (hsound.lodged he).name.symm.trans hname
    have hkind : e.kind = Kind.folder := by
      cases hkind : e.kind <;> rw [hkind] at hcall <;> first | rfl | exact absurd hcall (by decide)
    exact ⟨hkind, hready.unused key e m he hkind hm⟩

/-- The entity shows its payload, and if it fills, it shows this code. -/
def Awaits (code : UInt64) (m : Entity model) : Prop :=
  m.Shown ∧ (m.filling = true → (m.value Kind.folder : Folder).code = some code)

/-- The entity of a folder is open for a fill: it shows the code of the plain folder. -/
structure OpensFolder (s : Session model) (c : ContextId) (code : UInt64)
    (h : Handle Kind.folder) (s₁ : Session model) : Prop where
  target : Table.Target Folder.code (s.seen? c Kind.folder) code h.id.key
  made : s.seen? c Kind.folder h.id.key = none → s.entities.size ≤ h.slot ∧
    (s₁.registry c).get? h.id.key = some ⟨Kind.folder, h, true⟩
  opens : ∃ shown : Folder, shown.code = some code ∧ Opens s c h shown s₁
  fills : ∃ m, s₁.entity? h.slot = some m ∧ m.filling = true
  ready : s₁.Ready c Kind.folder "code" (Awaits code)
  entered : ∀ key e, (s₁.registry c).get? key = some e → e.pending = true →
    (s.registry c).get? key = some e ∨ (key = h.id.key ∧ s.seen? c Kind.folder h.id.key = none)
  run : Run Deed.Native s s₁

/-- What the context sees under the key of a folder, or a new folder. -/
def folderSeen (s : Session model) (c : ContextId) (h : Handle Kind.folder) : Folder :=
  (s.seen? c Kind.folder h.id.key).getD Folder.blank

theorem OpensFolder.put (hopens : OpensFolder s c code h s₁) :
    Table.Put Folder.code (s.seen? c Kind.folder) code h.id.key (s₁.seen? c Kind.folder) := by
  rcases hopens.opens with ⟨shown, hcode, hopens'⟩
  exact ⟨hopens.target, ⟨shown, hopens'.seen, hcode⟩, hopens'.others⟩

/-! ## The folder that holds -/

/-- While the folder is open, the one that holds it gets its code.  It may be the same one, which
shows the code already. -/
structure FillsParent (s₁ : Session model) (c : ContextId) (code : UInt64) (g : Handle Kind.folder)
    (s₂ : Session model) : Prop where
  put : Table.Put Folder.code (s₁.seen? c Kind.folder) code g.id.key (s₂.seen? c Kind.folder)
  filled : s₂.seen? c Kind.folder g.id.key =
    some { folderSeen s₁ c g with code := some code }
  made : s₁.seen? c Kind.folder g.id.key = none → s₁.entities.size ≤ g.slot ∧
    (s₂.registry c).get? g.id.key = some ⟨Kind.folder, g, true⟩
  entry : ∃ pending, (s₂.registry c).get? g.id.key = some ⟨Kind.folder, g, pending⟩
  entered : ∀ key e, (s₂.registry c).get? key = some e → e.pending = true →
    (s₁.registry c).get? key = some e ∨
      (key = g.id.key ∧ s₁.seen? c Kind.folder g.id.key = none)
  leaves : s₁.Leaves s₂ c [g.slot]
  run : Run Deed.Native s₁ s₂

variable {bound : Nat}

/-- What filling a plain folder in does while the folder is open. -/
structure FillsFolder (s₁ : Session model) (c : ContextId) (p : FolderPlain)
    (h : Handle Kind.folder) (parent : Option (Handle Kind.folder)) (s₂ : Session model) : Prop where
  holds : Option.Rel (fun code g => FillsParent s₁ c code g s₂ ∧ (code = p.code → g = h))
    p.parent parent
  keeps : ∀ code key, Table.Last Folder.code (s₁.seen? c Kind.folder) code key →
    Table.Last Folder.code (s₂.seen? c Kind.folder) code key
  others : ∀ key, (∀ g, parent = some g → key ≠ g.id.key) →
    s₂.seen? c Kind.folder key = s₁.seen? c Kind.folder key
  entered : ∀ key e, (s₂.registry c).get? key = some e → e.pending = true →
    (s₁.registry c).get? key = some e ∨
      ∃ g, parent = some g ∧ key = g.id.key ∧ s₁.seen? c Kind.folder g.id.key = none
  leaves : s₁.Leaves s₂ c (parent.toList.map Handle.slot)
  run : Run Deed.Native s₁ s₂

/-- How a session is left after a plain folder was synchronized in it. -/
structure FolderSynced (s : Session model) (c : ContextId) (p : FolderPlain)
    (h : Handle Kind.folder) (parent : Option (Handle Kind.folder)) (s' : Session model) : Prop where
  /-- The folder is the last one that had the code, or a new one if none had it. -/
  target : Table.Target Folder.code (s.seen? c Kind.folder) p.code h.id.key
  last : Table.Last Folder.code (s'.seen? c Kind.folder) p.code h.id.key
  entry : ∃ pending, (s'.registry c).get? h.id.key = some ⟨Kind.folder, h, pending⟩
  /-- It refers to the folder that holds it, or to what it referred to. -/
  seen : s'.seen? c Kind.folder h.id.key =
    some ⟨some p.code, ToOne.pointTo (folderSeen s c h).parent parent⟩
  /-- The folder that holds it is the last one of its code, and that may be the folder itself.
  Otherwise it keeps its own reference. -/
  holds : Option.Rel (fun code g =>
    (∃ pending, (s'.registry c).get? g.id.key = some ⟨Kind.folder, g, pending⟩) ∧
    Table.Target Folder.code (s.seen? c Kind.folder) code g.id.key ∧
    Table.Last Folder.code (s'.seen? c Kind.folder) code g.id.key ∧
    (code = p.code → g = h) ∧
    (code ≠ p.code → s'.seen? c Kind.folder g.id.key =
      some { folderSeen s c g with code := some code })) p.parent parent
  others : ∀ key, key ≠ h.id.key → (∀ g, parent = some g → key ≠ g.id.key) →
    s'.seen? c Kind.folder key = s.seen? c Kind.folder key
  /-- As many folders are inserted as there are codes that no folder had. -/
  inserted : (s.insertedKeys s' c).encard =
    {code | (code = p.code ∨ p.parent = some code) ∧
      Table.Missing Folder.code (s.seen? c Kind.folder) code}.encard
  leaves : s.Leaves s' c (h.slot :: parent.toList.map Handle.slot)
  /-- No folder is left filling. -/
  free : ∀ key e m, (s'.registry c).get? key = some e → e.kind = Kind.folder →
    s'.entity? e.slot = some m → m.filling = false

theorem mem_insertedKeys (hsound : Sound s) {slots : List Nat} (hleaves : s.Leaves s' c slots)
    (hsize : s.entities.size ≤ h.slot)
    (hentry : (s'.registry c).get? h.id.key = some ⟨Kind.folder, h, true⟩) :
    h.id.key ∈ s.insertedKeys s' c := by
  refine ⟨?_, _, hentry, rfl⟩
  cases he : (s.registry c).get? h.id.key with
  | none => rfl
  | some e =>
    -- what was registered before has a slot that was there before
    have hsame := hleaves.registry c _ e he
    cases hentry.symm.trans hsame
    rcases (hsound.lodged he).entity with ⟨m, hm, _⟩
    exact absurd (lt_size_of_entity? hm) (Nat.not_lt.2 hsize)

section Assembly

variable {parent : Option (Handle Kind.folder)}

/-- Where the folder that holds belongs, as seen before the call. -/
theorem OpensFolder.target_parent (hopens : OpensFolder s c p.code h s₁)
    (hfills : FillsParent s₁ c code g s₂) (hself : code = p.code → g = h) :
    Table.Target Folder.code (s.seen? c Kind.folder) code g.id.key := by
  by_cases hsame : code = p.code
  · rw [hself hsame, hsame]
    exact hopens.target
  · exact hopens.put.target_of_ne (Ne.symm hsame) hfills.put.target

/-- Where the key of a missing code is. -/
theorem insertedKeys_eq (hsound : Sound s) (hopens : OpensFolder s c p.code h s₁)
    (hfills : FillsFolder s₁ c p h parent s₂) : s.insertedKeys s₂ c =
      (fun code => if code = p.code then h.id.key else (parent.getD h).id.key) ''
        {code | (code = p.code ∨ p.parent = some code) ∧
          Table.Missing Folder.code (s.seen? c Kind.folder) code} := by
  have hleaves : s.Leaves s₂ c (h.slot :: parent.toList.map Handle.slot) := by
    rcases hopens.opens with ⟨_, _, hopen⟩
    exact hopen.confined.leaves.trans hfills.leaves
  have hholds := hfills.holds
  ext key
  constructor
  · rintro ⟨hnone, e, he, hpending⟩
    rcases hfills.entered key e he hpending with he₁ | ⟨g, rfl, rfl, hseen₁⟩
    · rcases hopens.entered key e he₁ hpending with hold | ⟨rfl, hseen⟩
      · cases hold.symm.trans hnone
      · exact ⟨p.code, ⟨Or.inl rfl, hopens.target.missing_iff.2 hseen⟩, if_pos rfl⟩
    · rcases hparent : p.parent with _ | code
      · rw [hparent] at hholds
        cases hholds
      · rw [hparent] at hholds
        rcases hholds with ⟨hholds⟩
        have hmissing₁ := hholds.1.put.target.missing_iff.2 hseen₁
        have hne : p.code ≠ code := by
          rintro rfl
          exact hopens.put.last.not_missing hmissing₁
        have hkey := hopens.put.ne_of_key_ne hne hholds.1.put.target
        have hseen : s.seen? c Kind.folder g.id.key = none :=
          (hopens.put.kept _ hkey).symm.trans hseen₁
        have htarget := hopens.put.target_of_ne hne hholds.1.put.target
        exact ⟨code, ⟨Or.inr rfl, htarget.missing_iff.2 hseen⟩, if_neg (Ne.symm hne)⟩
  · rintro ⟨code, ⟨hcode, hmissing⟩, rfl⟩
    dsimp only
    split
    · next hsame =>
      subst hsame
      rcases hopens.made (hopens.target.missing_iff.1 hmissing) with ⟨hsize, hentry⟩
      exact mem_insertedKeys hsound hleaves hsize (hfills.leaves.registry _ _ _ hentry)
    · next hne =>
      have hparent : p.parent = some code := hcode.resolve_left hne
      rw [hparent] at hholds
      cases hholds with
      | @some _ g hholds =>
        have htarget := hopens.put.target_of_ne (Ne.symm hne) hholds.1.put.target
        have hkey := hopens.put.ne_of_key_ne (Ne.symm hne) hholds.1.put.target
        have hseen₁ : s₁.seen? c Kind.folder g.id.key = none :=
          (hopens.put.kept _ hkey).trans (htarget.missing_iff.1 hmissing)
        rcases hholds.1.made hseen₁ with ⟨hsize, hentry⟩
        have hgrown : s.entities.size ≤ s₁.entities.size := by
          rcases hopens.opens with ⟨_, _, hopen⟩
          exact hopen.confined.leaves.size
        exact mem_insertedKeys hsound hleaves (Nat.le_trans hgrown hsize) hentry

theorem OpensFolder.synced (hsound : Sound s) (hsound₂ : Sound s₂)
    (hopens : OpensFolder s c p.code h s₁) (hfills : FillsFolder s₁ c p h parent s₂) {v : Folder}
    (hv : v = ⟨some p.code, ToOne.pointTo (folderSeen s c h).parent parent⟩)
    (hfree : ∀ key e m, (s₂.registry c).get? key = some e → e.kind = Kind.folder →
      (s₂.checkIn h v).entity? e.slot = some m → m.filling = false) :
    FolderSynced s c p h parent (s₂.checkIn h v) := by
  rcases hopens.opens with ⟨shown, hcode, hopen⟩
  rcases hopen.entry with ⟨pending, he₁⟩
  have he₂ := hfills.leaves.registry _ _ _ he₁
  have hlast₂ := hfills.keeps _ _ hopens.put.last
  rcases hlast₂.entry with ⟨v₂, hv₂, _⟩
  have hseen : (s₂.checkIn h v).seen? c Kind.folder h.id.key = some v :=
    Mapping.seen?_checkIn he₂ hv₂ v s₂.journal
  have hkept : ∀ key, key ≠ h.id.key →
      (s₂.checkIn h v).seen? c Kind.folder key = s₂.seen? c Kind.folder key :=
    fun key hkey => seen?_modifyEntity_of_ne hsound₂ he₂ hkey _ _
  -- putting the value back moves no code
  have hput : Table.Put Folder.code (s₂.seen? c Kind.folder) p.code h.id.key
      ((s₂.checkIn h v).seen? c Kind.folder) :=
    ⟨Or.inl hlast₂, ⟨v, hseen, congrArg Folder.code hv⟩, hkept⟩
  constructor
  case target => exact hopens.target
  case last => exact hput.last
  case entry => exact ⟨pending, he₂⟩
  case seen => exact hv ▸ hseen
  case holds =>
    have hholds := hfills.holds
    generalize p.parent = plain at hholds ⊢
    cases hholds with
    | none => exact .none
    | @some code g hholds =>
      rcases hholds with ⟨hfilled, hself⟩
      refine .some ⟨hfilled.entry, hopens.target_parent hfilled hself,
        hput.keeps hfilled.put.last, hself, ?_⟩
      intro hne
      have hkey := hopens.put.ne_of_key_ne (Ne.symm hne) hfilled.put.target
      have hsame : folderSeen s₁ c g = folderSeen s c g := by
        rw [folderSeen, folderSeen, hopens.put.kept _ hkey]
      rw [hkept _ hkey, hfilled.filled, hsame]
  case others =>
    intro key hkey hparent
    calc (s₂.checkIn h v).seen? c Kind.folder key
        = s₂.seen? c Kind.folder key := hkept key hkey
      _ = s₁.seen? c Kind.folder key := hfills.others key hparent
      _ = s.seen? c Kind.folder key := hopens.put.kept key hkey
  case inserted =>
    have hinserted : s.insertedKeys (s₂.checkIn h v) c = s.insertedKeys s₂ c := rfl
    rw [hinserted, insertedKeys_eq hsound hopens hfills]
    refine Set.InjOn.encard_image ?_
    -- another code than that of the folder has another key
    have hother : ∀ code, p.parent = some code → code ≠ p.code →
        (parent.getD h).id.key ≠ h.id.key := by
      intro code hparent hne
      have hholds := hfills.holds
      rw [hparent] at hholds
      cases hholds with
      | some hholds => exact hopens.put.ne_of_key_ne (Ne.symm hne) hholds.1.put.target
    rintro n ⟨hn, _⟩ m ⟨hm, _⟩ hsame
    dsimp only at hsame
    split at hsame
    · next hcode =>
      split at hsame
      · next hcode' => exact hcode.trans hcode'.symm
      · next hne => exact absurd hsame.symm (hother m (hm.resolve_left hne) hne)
    · next hne =>
      split at hsame
      · exact absurd hsame (hother n (hn.resolve_left hne) hne)
      · next hne' =>
        exact Option.some.inj ((hn.resolve_left hne).symm.trans (hm.resolve_left hne'))
  case leaves =>
    refine ((hopen.confined.leaves.trans hfills.leaves).trans (leaves_checkIn s₂ c h v)).mono ?_
    intro n hn
    simp only [List.mem_append, List.mem_cons, List.not_mem_nil, or_false] at hn ⊢
    tauto
  case free => exact hfree

end Assembly

end Sample

end Reconcile
