import Reconcile.Proofs.Relation.Codec
import Reconcile.Proofs.Session.Payloads
import Reconcile.Sample.Model

/-!
# The types of the sample model read back what they write

Each type reads a payload that it wrote as a value with that payload; relationships come back with
the same members, unbound.  The two types under the name of tags write each other's payloads again
where they can read them.
-/

namespace Reconcile.Sample

variable (source : Option ContextId)

namespace Tag

theorem ofJson?_toJson (t : Tag) : Tag.ofJson? t.toJson = some t := by
  have hmembers : t.toJson.members? ["name", "colour"] =
      some [some (.ofOption .string t.name), some (.ofOption .string t.colour)] :=
    Json.members?_ofFields (by simp)
  rw [Tag.ofJson?, hmembers]
  simp [Json.optional?_string]

end Tag

namespace CodedTag

theorem ofJson?_toJson (t : CodedTag) : CodedTag.ofJson? t.toJson = some t := by
  have hmembers : t.toJson.members? ["name", "colour"] =
      some [some (.ofOption .string t.name), some (.ofOption .ofInt64 t.colour)] :=
    Json.members?_ofFields (by simp)
  rw [CodedTag.ofJson?, hmembers]
  simp [Json.optional?_string, Json.optional?_int64]

end CodedTag

namespace Author

theorem ofJson?_toJson (a : Author) : Author.ofJson? a.toJson = some a := by
  have hmembers : a.toJson.members? ["handle", "name"] =
      some [some (.ofOption .string a.handle), some (.ofOption .string a.name)] :=
    Json.members?_ofFields (by simp)
  rw [Author.ofJson?, hmembers]
  simp [Json.optional?_string]

end Author

namespace Comment

def reread (c : Comment) : Comment := { c with post := c.post.map (ToOne.reread source) }

theorem toJson_reread (c : Comment) : (c.reread source).toJson = c.toJson := by
  simp [toJson, reread, ToOne.ofOption_reread]

theorem ofJson?_toJson (c : Comment) :
    Comment.ofJson? source c.toJson = some (c.reread source) := by
  have hmembers : c.toJson.members? ["author", "text", "post", "anchor"] =
      some [some (.ofOption .string c.author), some (.ofOption .string c.text),
        some (.ofOption ToOne.toJson c.post), some (.ofOption .string c.anchor)] :=
    Json.members?_ofFields (by simp)
  rw [Comment.ofJson?, hmembers]
  simp [Json.optional?_string, ToOne.optional?_toJson, reread]

end Comment

namespace Post

def reread (p : Post) : Post :=
  { p with
    author := p.author.map (ToOne.reread source)
    tags := p.tags.map (MemberSet.reread source)
    comments := p.comments.map (MemberList.reread source) }

theorem toJson_reread (p : Post) : (p.reread source).toJson = p.toJson := by
  simp [toJson, reread, ToOne.ofOption_reread, MemberSet.ofOption_reread,
    MemberList.ofOption_reread]

theorem ofJson?_toJson (p : Post) : Post.ofJson? source p.toJson = some (p.reread source) := by
  have hmembers : p.toJson.members? ["title", "body", "author", "tags", "comments"] =
      some [some (.ofOption .string p.title), some (.ofOption .string p.body),
        some (.ofOption ToOne.toJson p.author), some (.ofOption MemberSet.toJson p.tags),
        some (.ofOption MemberList.toJson p.comments)] :=
    Json.members?_ofFields (by simp)
  rw [Post.ofJson?, hmembers]
  simp [Json.optional?_string, ToOne.optional?_toJson, MemberSet.optional?_toJson,
    MemberList.optional?_toJson, reread]

end Post

namespace Note

theorem ofJson?_toJson (n : Note) : Note.ofJson? n.toJson = some n := by
  have hmembers : n.toJson.members? ["text", "by"] =
      some [some (.ofOption .string n.text), some (.ofOption .string n.byline)] :=
    Json.members?_ofFields (by simp)
  rw [Note.ofJson?, hmembers]
  simp [Json.optional?_string]

end Note

namespace Node

def reread (n : Node) : Node :=
  { n with
    parent := n.parent.map (ToOne.reread source)
    children := n.children.map (MemberList.reread source)
    notes := n.notes.map (MemberSet.reread source)
    owned := n.owned.map (ToOne.reread source) }

theorem toJson_reread (n : Node) : (n.reread source).toJson = n.toJson := by
  simp [toJson, reread, ToOne.ofOption_reread, MemberSet.ofOption_reread,
    MemberList.ofOption_reread]

theorem ofJson?_toJson (n : Node) : Node.ofJson? source n.toJson = some (n.reread source) := by
  have hmembers : n.toJson.members? ["code", "label", "parent", "children", "notes", "owned"] =
      some [some (.ofOption .ofInt64 n.code), some (.ofOption .string n.label),
        some (.ofOption ToOne.toJson n.parent), some (.ofOption MemberList.toJson n.children),
        some (.ofOption MemberSet.toJson n.notes), some (.ofOption ToOne.toJson n.owned)] :=
    Json.members?_ofFields (by simp)
  rw [Node.ofJson?, hmembers]
  simp [Json.optional?_string, Json.optional?_int64, ToOne.optional?_toJson,
    MemberSet.optional?_toJson, MemberList.optional?_toJson, reread]

end Node

namespace Loose

theorem ofJson?_toJson (l : Loose) : Loose.ofJson? l.toJson = some l := by
  have hnodup : (([("key", l.key), ("rank", l.rank), ("extra", l.extra)] :
      List (String × Json)).map (·.1)).Nodup := by
    simp
  have hread : Loose.ofJson? l.toJson = some ⟨l.toJson.valueAt "key", l.toJson.valueAt "rank",
      l.toJson.valueAt "extra"⟩ := rfl
  have hkey : l.toJson.valueAt "key" = l.key := Json.valueAt_ofFields hnodup (by simp)
  have hrank : l.toJson.valueAt "rank" = l.rank := Json.valueAt_ofFields hnodup (by simp)
  have hextra : l.toJson.valueAt "extra" = l.extra := Json.valueAt_ofFields hnodup (by simp)
  rw [hread, hkey, hrank, hextra]

end Loose

namespace Brittle

theorem ofJson?_of_toJson {b : Brittle} {j : Json} (h : b.toJson = .ok j) :
    Brittle.ofJson? j = some b := by
  unfold toJson at h
  split at h
  · cases h
  · cases Except.ok.inj h
    have hmembers : (Json.ofFields [("text", .ofOption .string b.text)]).members? ["text"] =
        some [some (.ofOption .string b.text)] :=
      Json.members?_ofFields (by simp)
    rw [Brittle.ofJson?, hmembers]
    simp [Json.optional?_string]

end Brittle

namespace Folder

def reread (f : Folder) : Folder := { f with parent := f.parent.map (ToOne.reread source) }

theorem toJson_reread (f : Folder) : (f.reread source).toJson = f.toJson := by
  simp [toJson, reread, ToOne.ofOption_reread]

theorem ofJson?_toJson (f : Folder) :
    Folder.ofJson? source f.toJson = some (f.reread source) := by
  have hmembers : f.toJson.members? ["code", "parent"] =
      some [some (.ofOption .ofUInt64 f.code), some (.ofOption ToOne.toJson f.parent)] :=
    Json.members?_ofFields (by simp)
  rw [Folder.ofJson?, hmembers]
  simp [Json.optional?_uint64, ToOne.optional?_toJson, reread]

end Folder

/-! ## All types -/

/-- A tag reads a payload of a coded tag only if that has no colour, and so the other way round. -/
theorem toJson_of_ofJson?_coded {t : Tag} {coded : CodedTag}
    (h : Tag.ofJson? coded.toJson = some t) : t.toJson = coded.toJson := by
  have hmembers : coded.toJson.members? ["name", "colour"] =
      some [some (.ofOption .string coded.name), some (.ofOption .ofInt64 coded.colour)] :=
    Json.members?_ofFields (by simp)
  rw [Tag.ofJson?, hmembers] at h
  rcases coded with ⟨name, colour⟩
  cases colour with
  | none =>
    simp only [Option.bind_eq_bind, Option.bind_some, Json.optional?_string] at h
    cases h
    rfl
  | some n => simp [Json.ofOption, Json.optional?, Json.ofInt64, Json.int,
      Json.string?] at h

theorem toJson_of_ofJson?_tag {coded : CodedTag} {t : Tag}
    (h : CodedTag.ofJson? t.toJson = some coded) : coded.toJson = t.toJson := by
  have hmembers : t.toJson.members? ["name", "colour"] =
      some [some (.ofOption .string t.name), some (.ofOption .string t.colour)] :=
    Json.members?_ofFields (by simp)
  rw [CodedTag.ofJson?, hmembers] at h
  rcases t with ⟨name, colour⟩
  cases colour with
  | none =>
    simp only [Option.bind_eq_bind, Option.bind_some, Json.optional?_string] at h
    cases h
    rfl
  | some text => simp [Json.ofOption, Json.optional?, Json.int64?,
      Json.wordInt?] at h

namespace Value

/-- The value as it is read back: with the same members in its relationships, unbound. -/
def reread : {k : Kind} → Value k → Value k
  | .comment, v => Comment.reread source v
  | .post, v => Post.reread source v
  | .node, v => Node.reread source v
  | .folder, v => Folder.reread source v
  | _, v => v

theorem decode_of_encode {k : Kind} {v : Value k} {payload : Json}
    (hencode : v.encode = .ok payload) : decode k source payload = some (v.reread source) := by
  cases k with
  | tag =>
    cases hencode
    exact Tag.ofJson?_toJson v
  | codedTag =>
    cases hencode
    exact CodedTag.ofJson?_toJson v
  | author =>
    cases hencode
    exact Author.ofJson?_toJson v
  | comment =>
    cases hencode
    exact Comment.ofJson?_toJson source v
  | post =>
    cases hencode
    exact Post.ofJson?_toJson source v
  | note =>
    cases hencode
    exact Note.ofJson?_toJson v
  | node =>
    cases hencode
    exact Node.ofJson?_toJson source v
  | loose =>
    cases hencode
    exact Loose.ofJson?_toJson v
  | brittle => exact Brittle.ofJson?_of_toJson hencode
  | untracked =>
    cases hencode
    rfl
  | folder =>
    cases hencode
    exact Folder.ofJson?_toJson source v

theorem encode_reread {k : Kind} (v : Value k) : (v.reread source).encode = v.encode := by
  cases k with
  | comment => exact congrArg Except.ok (Comment.toJson_reread source v)
  | post => exact congrArg Except.ok (Post.toJson_reread source v)
  | node => exact congrArg Except.ok (Node.toJson_reread source v)
  | folder => exact congrArg Except.ok (Folder.toJson_reread source v)
  | _ => rfl

end Value

/-- A value that is read from what its type wrote is written in the same way. -/
theorem encode_of_decode {k : Kind} {v v' : Value k} {payload : Json}
    (hencode : Value.encode v' = .ok payload) (hdecode : Value.decode k source payload = some v) :
    Value.encode v = .ok payload := by
  cases (Value.decode_of_encode source hencode).symm.trans hdecode
  exact (Value.encode_reread source v').trans hencode

theorem eq_or_tags_of_entityName {k k' : Kind} (h : k'.entityName = k.entityName) :
    k' = k ∨ (k = .tag ∧ k' = .codedTag) ∨ (k = .codedTag ∧ k' = .tag) := by
  cases k <;> cases k' <;> first | exact absurd h (by decide) | simp

theorem faithful : model.Faithful := by
  intro k c payload v hwritten hdecode
  rcases hwritten with ⟨k', v', hname, hencode⟩
  refine ⟨payload, ?_, Json.same_refl payload⟩
  rcases eq_or_tags_of_entityName hname with rfl | ⟨rfl, rfl⟩ | ⟨rfl, rfl⟩
  · exact encode_of_decode (some c) hencode hdecode
  · cases Except.ok.inj hencode
    exact congrArg Except.ok (toJson_of_ofJson?_coded hdecode)
  · cases Except.ok.inj hencode
    exact congrArg Except.ok (toJson_of_ofJson?_tag hdecode)

end Reconcile.Sample
