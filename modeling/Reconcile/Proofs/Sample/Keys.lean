import Reconcile.Proofs.Mapping.Finding
import Reconcile.Proofs.Sample.Codec
import Reconcile.Sample.Mapping

/-!
# Natural keys in the sample model

Tags, authors, posts and folders have a natural key; comments have none.  A payload of theirs is
found by a natural key exactly when the value has that key (`carries_iff`), and every fill leaves
the key of its plain value.
-/

namespace Reconcile.Sample

/-- The types that the blog and the folders are made of. -/
def Kind.IsBlog : Kind → Prop
  | tag | author | comment | post | folder => True
  | _ => False

instance : DecidablePred Kind.IsBlog := fun k => by
  cases k <;> unfold Kind.IsBlog <;> infer_instance

/-- A blog type is known by its name. -/
theorem Kind.IsBlog.ext {k l : Kind} (hk : k.IsBlog) (hl : l.IsBlog)
    (hname : k.entityName = l.entityName) : k = l := by
  cases k <;> cases l <;> first | rfl | exact absurd hk id | exact absurd hl id |
    exact absurd hname (by decide)

/-- The natural key that a value of a blog type has. -/
def Value.naturalKey? : {k : Kind} → Value k → Option NaturalKey
  | .tag, v => (v : Tag).name.map fun name => ⟨"name", .string name⟩
  | .author, v => (v : Author).handle.map fun handle => ⟨"handle", .string handle⟩
  | .post, v => (v : Post).title.map fun title => ⟨"title", .string title⟩
  | .folder, v => (v : Folder).code.map fun code => ⟨"code", .ofUInt64 code⟩
  | _, _ => none

/-- The attribute that a natural key of the type belongs to. -/
def Kind.keyAttribute : Kind → String
  | tag => "name"
  | author => "handle"
  | post => "title"
  | folder => "code"
  | _ => ""

/-- The types of the blog and the folders whose plain values have a natural key.  Plain values of
other types can have one too. -/
def Kind.IsKeyed : Kind → Prop
  | tag | author | post | folder => True
  | _ => False

theorem Kind.IsKeyed.isBlog {k : Kind} (hk : k.IsKeyed) : k.IsBlog := by
  cases k <;> trivial

theorem Kind.IsKeyed.naturalKey {k : Kind} (hk : k.IsKeyed) (p : Plain k) :
    ∃ n, Plain.naturalKey p = some n := by
  cases k <;> first | exact ⟨_, rfl⟩ | exact absurd hk id

/-! ## Keys in payloads -/

theorem same_ofOption_string {o : Option String} {name : String} :
    (Json.ofOption .string o).same (.string name) = true ↔ o = some name := by
  cases o <;> simp [Json.ofOption, Json.same]

theorem ofUInt64_inj {m n : UInt64} : WordInt.ofUInt64 m = WordInt.ofUInt64 n ↔ m = n := by
  constructor
  · intro h
    have hread := congrArg WordInt.toUInt64? h
    rw [WordInt.toUInt64?_ofUInt64, WordInt.toUInt64?_ofUInt64] at hread
    exact Option.some.inj hread
  · rintro rfl
    rfl

theorem same_ofOption_uint64 {o : Option UInt64} {code : UInt64} :
    (Json.ofOption .ofUInt64 o).same (.ofUInt64 code) = true ↔ o = some code := by
  cases o with
  | none => simp [Json.ofOption, Json.ofUInt64, Json.int, Json.same]
  | some n =>
    simp [Json.ofOption, Json.ofUInt64, Json.int, Json.same, Number.same, ofUInt64_inj]

theorem text_key_iff {a : String} {o : Option String} {name : String} :
    (o.map fun name => NaturalKey.mk a (.string name)) = some ⟨a, .string name⟩ ↔
      o = some name := by
  cases o <;> simp

theorem number_key_iff {a : String} {o : Option UInt64} {code : UInt64} :
    (o.map fun code => NaturalKey.mk a (.ofUInt64 code)) = some ⟨a, .ofUInt64 code⟩ ↔
      o = some code := by
  cases o <;> simp [Json.ofUInt64, Json.int, ofUInt64_inj]

theorem Tag.valueAt_name (t : Tag) : t.toJson.valueAt "name" = .ofOption .string t.name :=
  Json.valueAt_ofFields (by simp) (by simp)

theorem Author.valueAt_handle (a : Author) :
    a.toJson.valueAt "handle" = .ofOption .string a.handle :=
  Json.valueAt_ofFields (by simp) (by simp)

theorem Post.valueAt_title (p : Post) : p.toJson.valueAt "title" = .ofOption .string p.title :=
  Json.valueAt_ofFields (by simp) (by simp)

theorem Folder.valueAt_code (f : Folder) :
    f.toJson.valueAt "code" = .ofOption .ofUInt64 f.code :=
  Json.valueAt_ofFields (by simp) (by simp)

/-- The natural key of a plain value is found in the payload of a value that has it. -/
theorem carries_iff {k : Kind} (hk : k.IsBlog) {p : Plain k} {key : NaturalKey}
    (hkey : Plain.naturalKey p = some key) {v : Value k} {payload : Json}
    (hencode : Value.encode v = .ok payload) :
    (payload.valueAt key.key).same key.value = true ↔ Value.naturalKey? v = some key := by
  cases k with
  | tag =>
    cases hkey
    cases hencode
    rw [Tag.valueAt_name, same_ofOption_string]
    exact text_key_iff.symm
  | author =>
    cases hkey
    cases hencode
    rw [Author.valueAt_handle, same_ofOption_string]
    exact text_key_iff.symm
  | post =>
    cases hkey
    cases hencode
    rw [Post.valueAt_title, same_ofOption_string]
    exact text_key_iff.symm
  | folder =>
    cases hkey
    cases hencode
    rw [Folder.valueAt_code, same_ofOption_uint64]
    exact number_key_iff.symm
  | comment => cases hkey
  | _ => exact absurd hk id

/-! ## Blog values -/

variable {k : Kind} {v v' : Value k} {payload : Json}

theorem exists_encode (hk : k.IsBlog) (v : Value k) : ∃ payload, Value.encode v = .ok payload := by
  cases k <;> first | exact ⟨_, rfl⟩ | exact absurd hk id

theorem identifies (hk : k.IsBlog) {p : Plain k} {key : NaturalKey}
    (hkey : Plain.naturalKey p = some key) :
    mapping.Identifies (T := model) (k := k) Value.naturalKey? p key.key key := by
  refine ⟨key.value, hkey, ?_⟩
  intro v
  rcases exists_encode hk v with ⟨payload, hencode⟩
  exact ⟨payload, hencode, carries_iff hk hkey hencode⟩

/-- Every natural key of a value is one of a plain value. -/
theorem exists_plain (hk : k.IsBlog) {key : NaturalKey} (hkey : Value.naturalKey? v = some key) :
    ∃ p : Plain k, Plain.naturalKey p = some key := by
  cases k with
  | tag =>
    rcases Option.map_eq_some_iff.1 hkey with ⟨name, _, rfl⟩
    exact ⟨(⟨name, none⟩ : TagPlain), rfl⟩
  | author =>
    rcases Option.map_eq_some_iff.1 hkey with ⟨handle, _, rfl⟩
    exact ⟨(⟨handle, none⟩ : AuthorPlain), rfl⟩
  | post =>
    rcases Option.map_eq_some_iff.1 hkey with ⟨title, _, rfl⟩
    exact ⟨(⟨title, none, none, [], []⟩ : PostPlain), rfl⟩
  | folder =>
    rcases Option.map_eq_some_iff.1 hkey with ⟨code, _, rfl⟩
    exact ⟨(⟨code, none⟩ : FolderPlain), rfl⟩
  | comment => cases hkey
  | _ => exact absurd hk id

/-- Payloads that are the same belong to values with the same natural key. -/
theorem naturalKey?_congr (hk : k.IsBlog) {payload' : Json}
    (hencode : Value.encode v = .ok payload) (hencode' : Value.encode v' = .ok payload')
    (hsame : payload.same payload' = true) : Value.naturalKey? v = Value.naturalKey? v' := by
  refine Option.ext ?_
  intro key
  have hiff : ∀ {w : Value k} {j : Json}, Value.encode w = .ok j → ∀ p : Plain k,
      Plain.naturalKey p = some key →
        (key.filter.holds j = true ↔ Value.naturalKey? w = some key) :=
    fun hw p hp => carries_iff hk hp hw
  constructor
  · intro hkey
    rcases exists_plain hk hkey with ⟨p, hp⟩
    rw [← hiff hencode' p hp, ← Filter.holds_congr hsame]
    exact (hiff hencode p hp).2 hkey
  · intro hkey
    rcases exists_plain hk hkey with ⟨p, hp⟩
    rw [← hiff hencode p hp, Filter.holds_congr hsame]
    exact (hiff hencode' p hp).2 hkey

theorem keyAttribute_eq (hk : k.IsBlog) {p : Plain k} {key : NaturalKey}
    (hkey : Plain.naturalKey p = some key) : key.key = k.keyAttribute := by
  cases k with
  | comment => cases hkey
  | _ => first | exact absurd hk id | (cases hkey; rfl)

/-- A payload with the same key attribute belongs to a value with the same natural key. -/
theorem naturalKey?_of_attribute (hk : k.IsBlog) {payload' : Json} {key : NaturalKey}
    (hkey : Value.naturalKey? v = some key) (hencode : Value.encode v = .ok payload)
    (hencode' : Value.encode v' = .ok payload')
    (hsame : (payload.valueAt k.keyAttribute).same (payload'.valueAt k.keyAttribute) = true) :
    Value.naturalKey? v' = some key := by
  rcases exists_plain hk hkey with ⟨p, hp⟩
  rw [← keyAttribute_eq hk hp] at hsame
  have hcarried := (carries_iff hk hp hencode).2 hkey
  exact (carries_iff hk hp hencode').1 (Json.same_trans (Json.same_symm hsame) hcarried)

theorem naturalKey?_of_encode (h : Value.encode v' = Value.encode v) :
    Value.naturalKey? v' = Value.naturalKey? v := by
  by_cases hk : k.IsBlog
  · rcases exists_encode hk v with ⟨payload, hencode⟩
    exact naturalKey?_congr hk (h.trans hencode) hencode (Json.same_refl _)
  · cases k <;> first | rfl | exact absurd trivial hk

theorem naturalKey?_fill (hk : k.IsBlog) (p : Plain k) (nested : Nested (Plain.weight p))
    (scope : Scope) (this : EntityId) (v : Value k) (s : Session model) :
    Value.naturalKey? (fill p nested scope this v s).1 = Plain.naturalKey p := by
  cases k with
  | tag => rfl
  | author => rfl
  | comment => rfl
  | post =>
    rcases hp : PostPlain.author p with _ | q
    · simp only [fill, fillPost, hp]
      rfl
    · simp only [fill, fillPost, hp]
      rfl
  | folder =>
    rcases p with ⟨code, parent⟩
    cases parent <;> rfl
  | _ => exact absurd hk id

/-- A value of these types with its natural key set ahead of a fill. -/
theorem exists_keyed (hk : k.IsBlog) (p : Plain k) (v : Value k) : ∃ (w : Value k) (payload : Json),
    Value.encode v = .ok payload ∧ Value.encode w = .ok (Scope.keyed payload (Plain.naturalKey p)) ∧
      Value.naturalKey? w = Plain.naturalKey p := by
  cases k with
  | tag =>
    refine ⟨{ (v : Tag) with name := some (TagPlain.name p) }, _, rfl, congrArg Except.ok ?_, rfl⟩
    exact (Json.withField_ofFields _ _ (by simp)).symm
  | author =>
    refine ⟨{ (v : Author) with handle := some (AuthorPlain.handle p) }, _, rfl,
      congrArg Except.ok ?_, rfl⟩
    exact (Json.withField_ofFields _ _ (by simp)).symm
  | comment => exact ⟨v, _, rfl, rfl, rfl⟩
  | post =>
    refine ⟨{ (v : Post) with title := some (PostPlain.title p) }, _, rfl,
      congrArg Except.ok ?_, rfl⟩
    exact (Json.withField_ofFields _ _ (by simp)).symm
  | folder =>
    refine ⟨{ (v : Folder) with code := some (FolderPlain.code p) }, _, rfl,
      congrArg Except.ok ?_, rfl⟩
    exact (Json.withField_ofFields _ _ (by simp)).symm
  | _ => exact absurd hk id

theorem preview_eq_ok (hk : k.IsBlog) (scope : Scope) (p : Plain k) (v : Value k) :
    ∃ v' payload, scope.preview (T := model) (k := k) v (Plain.naturalKey p) = .ok (v', payload) ∧
      Value.encode v' = .ok payload ∧ Value.naturalKey? v' = Plain.naturalKey p := by
  rcases exists_keyed hk p v with ⟨w, payload, hencode, hkeyed, hkey⟩
  have hencode' := (Value.encode_reread scope.source _).trans hkeyed
  refine ⟨_, _, Scope.preview_of_decode (T := model) hencode
    (Value.decode_of_encode scope.source hkeyed), hencode', ?_⟩
  rw [naturalKey?_congr hk hencode' hkeyed (Json.same_refl _), hkey]

end Reconcile.Sample
