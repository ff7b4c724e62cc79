import Reconcile.Proofs.Sample.Codec
import Reconcile.Proofs.Session.Exporting
import Reconcile.Sample.Schema

/-!
# Payloads that fit the blog

A payload with named fields fits a description if each field does and the required attributes are
there.  So what a blog type writes fits its description as soon as the value has its required
attributes, and refers to entities of the right types.
-/

namespace Reconcile

/-! ## Fields -/

namespace Attribute

theorem check_ofOption {α : Type} {encode : α → Json} {a : Attribute}
    (hadmits : ∀ x, a.scalar.admits (encode x) = true) (o : Option α) :
    a.check (.ofOption encode o) = .ok () := by
  cases o with
  | none => rfl
  | some x =>
    rw [Json.ofOption, check, hadmits, Bool.or_true]
    rfl

end Attribute

namespace Relationship

variable {K : Type} {k : K} {r : Relationship}

theorem checkReference_toJson {id : EntityId} (htarget : id.entity = r.target) :
    r.checkReference id.toJson = .ok () := by
  rw [checkReference, EntityId.ofJson?_toJson]
  exact if_pos htarget

theorem checkReferences_map {ids : List EntityId} (htarget : ∀ id ∈ ids, id.entity = r.target) :
    r.checkReferences (ids.map EntityId.toJson) = .ok () := by
  induction ids with
  | nil => rfl
  | cons id rest ih =>
    refine Outcome.bind_eq_ok.2 ⟨(), checkReference_toJson (htarget id List.mem_cons_self), ?_⟩
    exact ih fun id' hid' => htarget id' (List.mem_cons_of_mem _ hid')

theorem check_toOne (hmany : r.many = false) {o : Option (ToOne k)}
    (htarget : ∀ x, o = some x → x.id.entity = r.target) :
    r.check (.ofOption ToOne.toJson o) = .ok () := by
  cases o with
  | none => rfl
  | some x =>
    have hreference : r.check x.toJson = r.checkReference x.toJson := by
      unfold check
      rw [hmany]
      rfl
    exact hreference.trans (checkReference_toJson (htarget x rfl))

/-- A field of many members is written as their ids. -/
theorem check_toMany {R : Type} {encode : R → Json} {idsOf : R → List EntityId}
    (hencode : ∀ x, encode x = .array ((idsOf x).map EntityId.toJson)) (hmany : r.many = true)
    {o : Option R} (htarget : ∀ x, o = some x → ∀ id ∈ idsOf x, id.entity = r.target) :
    r.check (.ofOption encode o) = .ok () := by
  cases o with
  | none => rfl
  | some x =>
    have hreferences : r.check (.array ((idsOf x).map EntityId.toJson)) =
        r.checkReferences ((idsOf x).map EntityId.toJson) := by
      unfold check
      rw [hmany]
      rfl
    rw [Json.ofOption, hencode, hreferences]
    exact checkReferences_map (htarget x rfl)

end Relationship

namespace Description

variable {d : Description} {fields : List (String × Json)}

theorem checkFields_of (h : ∀ f ∈ fields, d.checkField f.1 f.2 = .ok ()) :
    d.checkFields fields = .ok () := by
  induction fields with
  | nil => rfl
  | cons f rest ih =>
    refine Outcome.bind_eq_ok.2 ⟨(), h f List.mem_cons_self, ?_⟩
    exact ih fun f' hf' => h f' (List.mem_cons_of_mem _ hf')

theorem check_ofFields (hnodup : (fields.map (·.1)).Nodup)
    (hfields : ∀ f ∈ fields, d.checkField f.1 f.2 = .ok ())
    (hrequired : ∀ a ∈ d.attributes, a.required = true →
      ∃ value, (a.name, value) ∈ fields ∧ value.isNull = false) :
    d.check (.ofFields fields) = .ok () := by
  have hmissing : d.missing? (.ofFields fields) = none := by
    refine List.find?_eq_none.2 ?_
    intro a ha hnull
    rw [Bool.and_eq_true] at hnull
    rcases hrequired a ha hnull.1 with ⟨value, hmem, hvalue⟩
    rw [Json.valueAt_ofFields hnodup hmem, hvalue] at hnull
    cases hnull.2
  refine Outcome.bind_eq_ok.2 ⟨(), checkFields_of fun f hf => hfields f (Entries.mem_ofList hf), ?_⟩
  rw [hmissing]

end Description

namespace Sample

/-! ## The blog -/

/-- The value has the attributes that the blog asks for, and refers to entities of the types that it
asks for. -/
def Value.Proper : {k : Kind} → Value k → Prop
  | .tag, v => (v : Tag).name.isSome
  | .author, v => (v : Author).handle.isSome
  | .comment, v => (v : Comment).author.isSome ∧
      ∀ r, (v : Comment).post = some r → r.id.entity = "Post"
  | .post, v => (v : Post).title.isSome ∧ (∀ r, (v : Post).author = some r → r.id.entity = "Author") ∧
      (∀ r, (v : Post).tags = some r → ∀ id ∈ r.ids, id.entity = "Tag") ∧
      ∀ r, (v : Post).comments = some r → ∀ id ∈ r.ids, id.entity = "Comment"
  | _, _ => False

theorem isNull_ofOption_string {o : Option String} (h : o.isSome) :
    (Json.ofOption .string o).isNull = false := by
  cases o with
  | none => cases h
  | some text => rfl

theorem check_string {name : String} {required : Bool} (o : Option String) :
    Attribute.check ⟨name, .text, required⟩ (.ofOption .string o) = .ok () :=
  Attribute.check_ofOption (fun _ => rfl) o

theorem Value.Proper.exists_check {k : Kind} {v : Value k} (h : v.Proper) : ∃ d payload,
    blogSchema.require k.entityName = .ok d ∧ v.encode = .ok payload ∧ d.check payload = .ok () := by
  cases k with
  | tag =>
    refine ⟨tagDescription, _, rfl, rfl, Description.check_ofFields (by simp) ?_ ?_⟩
    · simp only [List.forall_mem_cons]
      exact ⟨check_string _, check_string _, by simp⟩
    · simp only [tagDescription, List.forall_mem_cons]
      exact ⟨fun _ => ⟨_, List.mem_cons_self, isNull_ofOption_string h⟩, nofun, by simp⟩
  | author =>
    refine ⟨authorDescription, _, rfl, rfl, Description.check_ofFields (by simp) ?_ ?_⟩
    · simp only [List.forall_mem_cons]
      exact ⟨check_string _, check_string _, by simp⟩
    · simp only [authorDescription, List.forall_mem_cons]
      exact ⟨fun _ => ⟨_, List.mem_cons_self, isNull_ofOption_string h⟩, nofun, by simp⟩
  | comment =>
    rcases h with ⟨hauthor, hpost⟩
    refine ⟨commentDescription, _, rfl, rfl, Description.check_ofFields (by simp) ?_ ?_⟩
    · simp only [List.forall_mem_cons]
      exact ⟨check_string _, check_string _, Relationship.check_toOne rfl hpost, check_string _,
        by simp⟩
    · simp only [commentDescription, List.forall_mem_cons]
      exact ⟨fun _ => ⟨_, List.mem_cons_self, isNull_ofOption_string hauthor⟩, nofun, nofun, by simp⟩
  | post =>
    rcases h with ⟨htitle, hauthor, htags, hcomments⟩
    refine ⟨postDescription, _, rfl, rfl, Description.check_ofFields (by simp) ?_ ?_⟩
    · simp only [List.forall_mem_cons]
      exact ⟨check_string _, check_string _, Relationship.check_toOne rfl hauthor,
        Relationship.check_toMany (fun _ => rfl) rfl htags,
        Relationship.check_toMany (fun _ => rfl) rfl hcomments, by simp⟩
    · simp only [postDescription, List.forall_mem_cons]
      exact ⟨fun _ => ⟨_, List.mem_cons_self, isNull_ofOption_string htitle⟩, nofun, by simp⟩
  | _ => exact absurd h id

end Sample

end Reconcile
