import Reconcile.Proofs.Data.SortedMap
import Reconcile.Schema.Check

/-!
# What a description accepts

A description says which payloads fit it, without a word on how they are checked: objects whose
fields are declared and have values of the declared shape, and which have a value for every required
attribute (`Description.Fits`).  Names may be declared more than once; the first attribute of a name
counts, and a relationship only if no attribute has its name.

The check accepts exactly the payloads that fit, and its fault is that of the first field that does
not, in key order, or else of the first required attribute without a value (`Description.FirstFault`).
-/

namespace Reconcile

/-- The first element of the list with the property. -/
def FirstWith {α : Type} (p : α → Prop) (as : List α) (a : α) : Prop :=
  ∃ before after, as = before ++ a :: after ∧ p a ∧ ∀ b ∈ before, ¬ p b

theorem find?_eq_some_iff_firstWith {α : Type} {p : α → Bool} {q : α → Prop}
    (hp : ∀ a, p a = true ↔ q a) {as : List α} {a : α} :
    as.find? p = some a ↔ FirstWith q as a := by
  rw [List.find?_eq_some_iff_append, FirstWith]
  constructor
  · rintro ⟨ha, before, after, hsplit, hbefore⟩
    refine ⟨before, after, hsplit, (hp a).1 ha, ?_⟩
    intro b hb hq
    simpa [(hp b).2 hq] using hbefore b hb
  · rintro ⟨before, after, hsplit, ha, hbefore⟩
    refine ⟨(hp a).2 ha, before, after, hsplit, ?_⟩
    intro b hb
    simpa [← hp] using hbefore b hb

theorem Json.isNull_iff {value : Json} : value.isNull = true ↔ value = .null := by
  cases value <;> simp [Json.isNull]

/-- The fault says what is wrong with a payload. -/
inductive Fault.OfPayload : Fault → Prop where
  | invalidPayload (problem : PayloadProblem) : OfPayload (.invalidPayload problem)
  | unknownAttribute (entity key : String) : OfPayload (.unknownAttribute entity key)
  | typeMismatch (field expected got : String) : OfPayload (.typeMismatch field expected got)
  | missingRequiredField (field : String) : OfPayload (.missingRequiredField field)

/-! ## Attributes -/

namespace Attribute

variable {a : Attribute} {value : Json} {fault : Fault}

/-- The value is `null` or a scalar of the attribute's kind. -/
inductive Fits : Attribute → Json → Prop where
  | null {a : Attribute} : Fits a .null
  | text {a : Attribute} {s : String} (h : a.scalar = .text) : Fits a (.string s)
  | integer {a : Attribute} {n : WordInt} (h : a.scalar = .integer) : Fits a (.int n)

theorem fits_iff : a.Fits value ↔ (value.isNull || a.scalar.admits value) = true := by
  constructor
  · intro h
    cases h with
    | null => rfl
    | text h => rw [h]; rfl
    | integer h => rw [h]; rfl
  · intro h
    rcases hscalar : a.scalar with _ | _
    case text =>
      rw [hscalar] at h
      cases value with
      | null => exact .null
      | string s => exact .text hscalar
      | _ => cases h
    case integer =>
      rw [hscalar] at h
      cases value with
      | null => exact .null
      | number m =>
        cases m with
        | int n => exact .integer hscalar
        | double x => cases h
      | _ => cases h

theorem check_eq_ok_iff : a.check value = .ok () ↔ a.Fits value := by
  rw [fits_iff, check]
  split <;> simp_all

theorem check_eq_error_iff : a.check value = .error fault ↔
    ¬ a.Fits value ∧ fault = .typeMismatch a.name a.scalar.label value.kindName := by
  rw [fits_iff, check]
  split
  case isTrue h => simp [h]
  case isFalse h => simp [h, eq_comm]

end Attribute

/-! ## Relationships -/

namespace Relationship

variable {r : Relationship} {value : Json} {fault : Fault}

/-- The value is the id of an entity of the target type. -/
def Refers (r : Relationship) (value : Json) : Prop :=
  ∃ id, EntityId.ofJson? value = some id ∧ id.entity = r.target

/-- The value is `null`, or one id of the target type, or an array of such ids. -/
inductive Fits (r : Relationship) : Json → Prop where
  | null : Fits r .null
  | one {value : Json} (hone : r.many = false) (h : r.Refers value) : Fits r value
  | many {ids : List Json} (hmany : r.many = true) (h : ∀ v ∈ ids, r.Refers v) :
      Fits r (.array ids)

/-- What a value that is no id of the target type is refused for. -/
inductive ReferenceFault (r : Relationship) (value : Json) : Fault → Prop where
  | other {id : EntityId} (hid : EntityId.ofJson? value = some id) (h : id.entity ≠ r.target) :
      ReferenceFault r value (.typeMismatch r.name r.shape (id.entity ++ " reference"))
  | none (h : EntityId.ofJson? value = none) :
      ReferenceFault r value (.typeMismatch r.name r.shape value.kindName)

/-- What a value that does not fit is refused for: in an array, the first item that is no id of the
target type. -/
inductive FirstFault (r : Relationship) : Json → Fault → Prop where
  | one {value : Json} {fault : Fault} (hone : r.many = false) (hvalue : value ≠ .null)
      (h : r.ReferenceFault value fault) : FirstFault r value fault
  | item {before after : List Json} {v : Json} {fault : Fault} (hmany : r.many = true)
      (hbefore : ∀ b ∈ before, r.Refers b) (h : r.ReferenceFault v fault) :
      FirstFault r (.array (before ++ v :: after)) fault
  | single {value : Json} (hmany : r.many = true) (hvalue : value ≠ .null)
      (h : ∀ ids, value ≠ .array ids) :
      FirstFault r value (.typeMismatch r.name r.shape value.kindName)

theorem ReferenceFault.ofPayload (h : r.ReferenceFault value fault) : fault.OfPayload := by
  cases h with
  | other => exact .typeMismatch _ _ _
  | none => exact .typeMismatch _ _ _

theorem FirstFault.ofPayload (h : r.FirstFault value fault) : fault.OfPayload := by
  cases h with
  | one _ _ h => exact h.ofPayload
  | item _ _ h => exact h.ofPayload
  | single => exact .typeMismatch _ _ _

theorem checkReference_eq_ok_iff : r.checkReference value = .ok () ↔ r.Refers value := by
  unfold checkReference Refers
  cases hid : EntityId.ofJson? value with
  | none => simp
  | some id =>
    by_cases htarget : id.entity = r.target
    · simp [htarget]
    · simp [htarget]

theorem checkReference_eq_error_iff :
    r.checkReference value = .error fault ↔ r.ReferenceFault value fault := by
  unfold checkReference
  constructor
  · intro h
    cases hid : EntityId.ofJson? value with
    | none =>
      rw [hid] at h
      cases h
      exact .none hid
    | some id =>
      rw [hid] at h
      dsimp only at h
      split at h
      case isTrue => cases h
      case isFalse htarget =>
        cases h
        exact .other hid htarget
  · intro h
    cases h with
    | other hid htarget =>
      rw [hid]
      exact if_neg htarget
    | none hid =>
      rw [hid]
      rfl

theorem checkReferences_eq_forM (ids : List Json) :
    r.checkReferences ids = forM ids r.checkReference := by
  induction ids with
  | nil => rfl
  | cons v rest ih => rw [checkReferences, List.forM_cons, ih]

theorem check_null : r.check .null = .ok () := rfl

theorem check_of_one (hone : r.many = false) (hvalue : value ≠ .null) :
    r.check value = r.checkReference value := by
  unfold check
  rw [hone]
  cases value <;> first | exact absurd rfl hvalue | rfl

theorem check_array_of_many (hmany : r.many = true) (ids : List Json) :
    r.check (.array ids) = forM ids r.checkReference := by
  rw [← checkReferences_eq_forM, check, hmany]
  rfl

theorem check_single_of_many (hmany : r.many = true) (hvalue : value ≠ .null)
    (h : ∀ ids, value ≠ .array ids) :
    r.check value = .error (.typeMismatch r.name r.shape value.kindName) := by
  unfold check
  rw [hmany]
  cases value with
  | null => exact absurd rfl hvalue
  | array ids => exact absurd rfl (h ids)
  | _ => rfl

theorem check_eq_ok_iff : r.check value = .ok () ↔ r.Fits value := by
  constructor
  · intro h
    by_cases hvalue : value = .null
    · exact hvalue ▸ .null
    · rcases hmany : r.many with _ | _
      case false =>
        rw [check_of_one hmany hvalue] at h
        exact .one hmany (checkReference_eq_ok_iff.1 h)
      case true =>
        by_cases harray : ∃ ids, value = .array ids
        · rcases harray with ⟨ids, rfl⟩
          rw [check_array_of_many hmany, Outcome.forM_eq_ok] at h
          exact .many hmany fun v hv => checkReference_eq_ok_iff.1 (h v hv)
        · rw [check_single_of_many hmany hvalue fun ids heq => harray ⟨ids, heq⟩] at h
          cases h
  · intro h
    cases h with
    | null => exact check_null
    | one hone h =>
      by_cases hvalue : value = .null
      · rw [hvalue, check_null]
      · rw [check_of_one hone hvalue]
        exact checkReference_eq_ok_iff.2 h
    | many hmany h =>
      rw [check_array_of_many hmany, Outcome.forM_eq_ok]
      exact fun v hv => checkReference_eq_ok_iff.2 (h v hv)

theorem check_eq_error_iff : r.check value = .error fault ↔ r.FirstFault value fault := by
  constructor
  · intro h
    by_cases hvalue : value = .null
    · rw [hvalue, check_null] at h
      cases h
    · rcases hmany : r.many with _ | _
      case false =>
        rw [check_of_one hmany hvalue] at h
        exact .one hmany hvalue (checkReference_eq_error_iff.1 h)
      case true =>
        by_cases harray : ∃ ids, value = .array ids
        · rcases harray with ⟨ids, rfl⟩
          rw [check_array_of_many hmany, Outcome.forM_eq_error] at h
          rcases h with ⟨before, v, after, rfl, hfault, hbefore⟩
          exact .item hmany (fun b hb => checkReference_eq_ok_iff.1 (hbefore b hb))
            (checkReference_eq_error_iff.1 hfault)
        · have hsingle : ∀ ids, value ≠ .array ids := fun ids heq => harray ⟨ids, heq⟩
          rw [check_single_of_many hmany hvalue hsingle] at h
          cases h
          exact .single hmany hvalue hsingle
  · intro h
    cases h with
    | one hone hvalue h =>
      rw [check_of_one hone hvalue]
      exact checkReference_eq_error_iff.2 h
    | item hmany hbefore h =>
      rw [check_array_of_many hmany, Outcome.forM_eq_error]
      exact ⟨_, _, _, rfl, checkReference_eq_error_iff.2 h,
        fun b hb => checkReference_eq_ok_iff.2 (hbefore b hb)⟩
    | single hmany hvalue h => exact check_single_of_many hmany hvalue h

end Relationship

/-! ## Payloads -/

namespace Description

variable {d : Description} {name : String} {value payload : Json} {fields : List (String × Json)}
  {fault : Fault}

/-- The description has no attribute of the name. -/
def NoAttribute (d : Description) (name : String) : Prop := ∀ a ∈ d.attributes, a.name ≠ name

def FirstAttribute (d : Description) (name : String) (a : Attribute) : Prop :=
  FirstWith (fun a => a.name = name) d.attributes a

def FirstRelationship (d : Description) (name : String) (r : Relationship) : Prop :=
  FirstWith (fun r => r.name = name) d.relationships r

/-- The field is declared, and its value is of the declared shape. -/
inductive FitsField (d : Description) (name : String) (value : Json) : Prop where
  | scalar {a : Attribute} (ha : d.FirstAttribute name a) (h : a.Fits value)
  | reference {r : Relationship} (hnone : d.NoAttribute name) (hr : d.FirstRelationship name r)
      (h : r.Fits value)

/-- What a field that does not fit is refused for. -/
inductive FieldFault (d : Description) (name : String) (value : Json) : Fault → Prop where
  | scalar {a : Attribute} (ha : d.FirstAttribute name a) (h : ¬ a.Fits value) :
      FieldFault d name value (.typeMismatch a.name a.scalar.label value.kindName)
  | reference {r : Relationship} {fault : Fault} (hnone : d.NoAttribute name)
      (hr : d.FirstRelationship name r) (h : r.FirstFault value fault) :
      FieldFault d name value fault
  | unknown (hnone : d.NoAttribute name) (hnone' : ∀ r ∈ d.relationships, r.name ≠ name) :
      FieldFault d name value (.unknownAttribute d.name name)

/-- Some field gives the attribute a value. -/
def Gives (fields : List (String × Json)) (a : Attribute) : Prop :=
  ∃ value, (a.name, value) ∈ fields ∧ value ≠ .null

/-- The payload is an object of fields that fit, with a value for every required attribute. -/
def Fits (d : Description) (payload : Json) : Prop :=
  ∃ fields, payload = .object fields ∧
    (∀ name value, (name, value) ∈ fields → d.FitsField name value) ∧
    ∀ a ∈ d.attributes, a.required = true → Gives fields a

/-- What a payload that does not fit is refused for: no object, then the first field that does not
fit, in the order of the names, then the first required attribute without a value, in the order of
the declarations. -/
inductive FirstFault (d : Description) : Json → Fault → Prop where
  | notObject {payload : Json} (h : ∀ fields, payload ≠ .object fields) :
      FirstFault d payload (.invalidPayload (.notAnObject d.name))
  | field {fields : List (String × Json)} {name : String} {value : Json} {fault : Fault}
      (hfield : (name, value) ∈ fields) (hfault : d.FieldFault name value fault)
      (hbefore : ∀ name' value', (name', value') ∈ fields → name' < name →
        d.FitsField name' value') :
      FirstFault d (.object fields) fault
  | missing {fields : List (String × Json)} {a : Attribute}
      (hfields : ∀ name value, (name, value) ∈ fields → d.FitsField name value)
      (ha : FirstWith (fun a => a.required = true ∧ ¬ Gives fields a) d.attributes a) :
      FirstFault d (.object fields) (.missingRequiredField a.name)

theorem FieldFault.ofPayload (h : d.FieldFault name value fault) : fault.OfPayload := by
  cases h with
  | scalar => exact .typeMismatch _ _ _
  | reference _ _ h => exact h.ofPayload
  | unknown => exact .unknownAttribute _ _

theorem attribute?_eq_some_iff {a : Attribute} :
    d.attribute? name = some a ↔ d.FirstAttribute name a :=
  find?_eq_some_iff_firstWith fun _ => beq_iff_eq

theorem attribute?_eq_none_iff : d.attribute? name = none ↔ d.NoAttribute name := by
  simp [attribute?, NoAttribute]

theorem relationship?_eq_some_iff {r : Relationship} :
    d.relationship? name = some r ↔ d.FirstRelationship name r :=
  find?_eq_some_iff_firstWith fun _ => beq_iff_eq

theorem relationship?_eq_none_iff :
    d.relationship? name = none ↔ ∀ r ∈ d.relationships, r.name ≠ name := by
  simp [relationship?]

theorem checkField_eq_ok_iff : d.checkField name value = .ok () ↔ d.FitsField name value := by
  unfold checkField
  constructor
  · intro h
    split at h
    case h_1 a ha => exact .scalar (attribute?_eq_some_iff.1 ha) (Attribute.check_eq_ok_iff.1 h)
    case h_2 hnone =>
      split at h
      case h_1 r hr =>
        exact .reference (attribute?_eq_none_iff.1 hnone) (relationship?_eq_some_iff.1 hr)
          (Relationship.check_eq_ok_iff.1 h)
      case h_2 => cases h
  · intro h
    cases h with
    | scalar ha h =>
      rw [attribute?_eq_some_iff.2 ha]
      exact Attribute.check_eq_ok_iff.2 h
    | reference hnone hr h =>
      rw [attribute?_eq_none_iff.2 hnone, relationship?_eq_some_iff.2 hr]
      exact Relationship.check_eq_ok_iff.2 h

theorem checkField_eq_error_iff :
    d.checkField name value = .error fault ↔ d.FieldFault name value fault := by
  unfold checkField
  constructor
  · intro h
    split at h
    case h_1 a ha =>
      rcases Attribute.check_eq_error_iff.1 h with ⟨hfits, rfl⟩
      exact .scalar (attribute?_eq_some_iff.1 ha) hfits
    case h_2 hnone =>
      split at h
      case h_1 r hr =>
        exact .reference (attribute?_eq_none_iff.1 hnone) (relationship?_eq_some_iff.1 hr)
          (Relationship.check_eq_error_iff.1 h)
      case h_2 hnone' =>
        cases h
        exact .unknown (attribute?_eq_none_iff.1 hnone) (relationship?_eq_none_iff.1 hnone')
  · intro h
    cases h with
    | scalar ha h =>
      rw [attribute?_eq_some_iff.2 ha]
      exact Attribute.check_eq_error_iff.2 ⟨h, rfl⟩
    | reference hnone hr h =>
      rw [attribute?_eq_none_iff.2 hnone, relationship?_eq_some_iff.2 hr]
      exact Relationship.check_eq_error_iff.2 h
    | unknown hnone hnone' =>
      rw [attribute?_eq_none_iff.2 hnone, relationship?_eq_none_iff.2 hnone']

theorem checkFields_eq_forM (fields : List (String × Json)) :
    d.checkFields fields = forM fields fun f => d.checkField f.1 f.2 := by
  induction fields with
  | nil => rfl
  | cons f rest ih => rw [checkFields, List.forM_cons, ih]

theorem checkFields_eq_ok_iff : d.checkFields fields = .ok () ↔
    ∀ name value, (name, value) ∈ fields → d.FitsField name value := by
  rw [checkFields_eq_forM, Outcome.forM_eq_ok]
  constructor
  · intro h name value hmem
    exact checkField_eq_ok_iff.1 (h (name, value) hmem)
  · intro h f hmem
    exact checkField_eq_ok_iff.2 (h f.1 f.2 hmem)

/-- An attribute has no value in the object if no field gives it one. -/
theorem isNull_valueAt_iff (hsorted : Entries.Sorted fields) (a : Attribute) :
    ((Json.object fields).valueAt a.name).isNull = true ↔ ¬ Gives fields a := by
  have hvalueAt : (Json.object fields).valueAt a.name =
      (Entries.find? a.name fields).getD .null := rfl
  rw [hvalueAt]
  constructor
  · rintro hnull ⟨value, hmem, hvalue⟩
    rw [Entries.find?_of_mem hsorted hmem] at hnull
    exact hvalue (Json.isNull_iff.1 hnull)
  · intro hnone
    cases hfind : Entries.find? a.name fields with
    | none => rfl
    | some value =>
      refine Json.isNull_iff.2 ?_
      by_contra hvalue
      exact hnone ⟨value, Entries.mem_of_find? hfind, hvalue⟩

theorem missing?_eq_some_iff (hsorted : Entries.Sorted fields) {a : Attribute} :
    d.missing? (.object fields) = some a ↔
      FirstWith (fun a => a.required = true ∧ ¬ Gives fields a) d.attributes a :=
  find?_eq_some_iff_firstWith fun a => by rw [Bool.and_eq_true, isNull_valueAt_iff hsorted]

theorem missing?_eq_none_iff (hsorted : Entries.Sorted fields) :
    d.missing? (.object fields) = none ↔
      ∀ a ∈ d.attributes, a.required = true → Gives fields a := by
  simp only [missing?, List.find?_eq_none, Bool.and_eq_true, isNull_valueAt_iff hsorted,
    not_and_not_right]

theorem check_of_not_object (h : ∀ fields, payload ≠ .object fields) :
    d.check payload = .error (.invalidPayload (.notAnObject d.name)) := by
  cases payload with
  | object fields => exact absurd rfl (h fields)
  | _ => rfl

theorem check_object (fields : List (String × Json)) : d.check (.object fields) =
    d.checkFields fields >>= fun _ =>
      match d.missing? (.object fields) with
      | some a => .error (.missingRequiredField a.name)
      | none => .ok () := rfl

theorem check_object_eq_ok_iff (hsorted : Entries.Sorted fields) :
    d.check (.object fields) = .ok () ↔ d.Fits (.object fields) := by
  rw [check_object, Outcome.bind_eq_ok]
  constructor
  · rintro ⟨⟨⟩, hfields, hrequired⟩
    split at hrequired
    case h_1 => cases hrequired
    case h_2 hnone =>
      exact ⟨fields, rfl, checkFields_eq_ok_iff.1 hfields, (missing?_eq_none_iff hsorted).1 hnone⟩
  · rintro ⟨_, ⟨⟩, hfields, hrequired⟩
    refine ⟨(), checkFields_eq_ok_iff.2 hfields, ?_⟩
    rw [(missing?_eq_none_iff hsorted).2 hrequired]

theorem check_object_eq_error_iff (hsorted : Entries.Sorted fields) :
    d.check (.object fields) = .error fault ↔ d.FirstFault (.object fields) fault := by
  rw [check_object, Outcome.bind_eq_error]
  constructor
  · rintro (hfault | ⟨⟨⟩, hfields, hmissing⟩)
    · rw [checkFields_eq_forM, Entries.forM_eq_error hsorted] at hfault
      rcases hfault with ⟨⟨name, value⟩, hmem, hfault, hbefore⟩
      refine .field hmem (checkField_eq_error_iff.1 hfault) ?_
      intro name' value' hmem' hlt
      exact checkField_eq_ok_iff.1 (hbefore (name', value') hmem' (compareOfLessAndEq_eq_lt.2 hlt))
    · split at hmissing
      case h_1 a ha =>
        cases hmissing
        exact .missing (checkFields_eq_ok_iff.1 hfields) ((missing?_eq_some_iff hsorted).1 ha)
      case h_2 => cases hmissing
  · intro h
    cases h with
    | notObject h => exact absurd rfl (h fields)
    | @field _ name value _ hmem hfault hbefore =>
      rw [checkFields_eq_forM, Entries.forM_eq_error hsorted]
      refine Or.inl ⟨(name, value), hmem, checkField_eq_error_iff.2 hfault, ?_⟩
      intro f hmem' hlt
      exact checkField_eq_ok_iff.2 (hbefore f.1 f.2 hmem' (compareOfLessAndEq_eq_lt.1 hlt))
    | missing hfields ha =>
      refine Or.inr ⟨(), checkFields_eq_ok_iff.2 hfields, ?_⟩
      rw [(missing?_eq_some_iff hsorted).2 ha]

/-- A payload is refused with a fault of its own. -/
theorem ofPayload_of_check (h : d.check payload = .error fault) : fault.OfPayload := by
  by_cases hobject : ∃ fields, payload = .object fields
  case neg =>
    rw [check_of_not_object fun fields heq => hobject ⟨fields, heq⟩] at h
    cases h
    exact .invalidPayload _
  case pos =>
    rcases hobject with ⟨fields, rfl⟩
    rw [check_object, Outcome.bind_eq_error] at h
    rcases h with hfields | ⟨_, _, hmissing⟩
    · rw [checkFields_eq_forM, Outcome.forM_eq_error] at hfields
      rcases hfields with ⟨_, f, _, _, hfault, _⟩
      exact (checkField_eq_error_iff.1 hfault).ofPayload
    · split at hmissing
      case h_1 a _ =>
        cases hmissing
        exact .missingRequiredField a.name
      case h_2 => cases hmissing

/-- The check accepts the payloads that fit and no others, and its fault is that of the first
violation. -/
theorem check_payload (d : Description) {payload : Json}
    (hsorted : ∀ fields, payload = .object fields → Entries.Sorted fields) :
    (d.check payload = .ok () ↔ d.Fits payload) ∧
      ∀ fault, d.check payload = .error fault ↔ d.FirstFault payload fault := by
  by_cases hobject : ∃ fields, payload = .object fields
  case neg =>
    have hnone : ∀ fields, payload ≠ .object fields := fun fields heq => hobject ⟨fields, heq⟩
    rw [check_of_not_object hnone]
    constructor
    · refine iff_of_false nofun ?_
      rintro ⟨fields, heq, _⟩
      exact hnone fields heq
    · intro fault
      constructor
      · intro h
        cases h
        exact .notObject hnone
      · intro h
        cases h with
        | notObject => rfl
        | field => exact absurd rfl (hnone _)
        | missing => exact absurd rfl (hnone _)
  case pos =>
    rcases hobject with ⟨fields, rfl⟩
    have hsorted := hsorted fields rfl
    constructor
    · exact check_object_eq_ok_iff hsorted
    · exact fun fault => check_object_eq_error_iff hsorted

/-- A description that declares a name three times: as a text, as a required integer and as a
reference. -/
def overnamed : Description :=
  ⟨"Item", [⟨"name", .text, false⟩, ⟨"name", .integer, true⟩],
    [⟨"name", "Tag", false⟩, ⟨"tags", "Tag", true⟩]⟩

/-- The first declaration says what the name holds, and any value makes up for the second one; of the
items in the wrong place the first one is to blame. -/
theorem check_payload_overnamed :
    overnamed.Fits (.ofFields [("name", .string "a"), ("tags", .array [EntityId.toJson ⟨"Tag", 1⟩])]) ∧
    overnamed.FirstFault (.ofFields [("name", .null)]) (.missingRequiredField "name") ∧
    overnamed.FirstFault
      (.ofFields [("tags", .array [EntityId.toJson ⟨"Tag", 1⟩, EntityId.toJson ⟨"Post", 2⟩, .null])])
      (.typeMismatch "tags" "array of Tag reference" "Post reference") := by
  have hsorted : ∀ {entries fields : List (String × Json)},
      Json.ofFields entries = .object fields → Entries.Sorted fields := by
    rintro entries _ ⟨⟩
    exact Entries.sorted_ofList entries
  refine ⟨(check_payload overnamed fun _ => hsorted).1.1 ?_,
    ((check_payload overnamed fun _ => hsorted).2 _).1 ?_,
    ((check_payload overnamed fun _ => hsorted).2 _).1 ?_⟩
  · decide +kernel
  · decide +kernel
  · decide +kernel

end Description

end Reconcile
