import Reconcile.Relation.Basic

/-!
# Values of the sample model

What the entities of each type of the sample model hold, and how each is written to a payload and
read back.  Every field may be absent.
-/

namespace Reconcile.Sample

inductive Kind where
  | tag
  /-- A second type of entity under the name of tags, whose colour is a number. -/
  | codedTag
  | author
  | comment
  | post
  | note
  | node
  | loose
  | brittle
  /-- A type that no schema describes. -/
  | untracked
  | folder
  deriving DecidableEq

def Kind.entityName : Kind → String
  | tag => "Tag"
  | codedTag => "Tag"
  | author => "Author"
  | comment => "Comment"
  | post => "Post"
  | note => "Note"
  | node => "Node"
  | loose => "Loose"
  | brittle => "Brittle"
  | untracked => "Untracked"
  | folder => "Folder"

/-! ## Tags -/

structure Tag where
  name : Option String
  colour : Option String
  deriving DecidableEq

namespace Tag

def blank : Tag := ⟨none, none⟩

def toJson (t : Tag) : Json :=
  .ofFields [("name", .ofOption .string t.name), ("colour", .ofOption .string t.colour)]

def ofJson? (j : Json) : Option Tag := do
  let [name, colour] ← j.members? ["name", "colour"] | none
  return ⟨← Json.optional? Json.string? name, ← Json.optional? Json.string? colour⟩

end Tag

structure CodedTag where
  name : Option String
  colour : Option Int64
  deriving DecidableEq

namespace CodedTag

def blank : CodedTag := ⟨none, none⟩

def toJson (t : CodedTag) : Json :=
  .ofFields [("name", .ofOption .string t.name), ("colour", .ofOption .ofInt64 t.colour)]

def ofJson? (j : Json) : Option CodedTag := do
  let [name, colour] ← j.members? ["name", "colour"] | none
  return ⟨← Json.optional? Json.string? name, ← Json.optional? Json.int64? colour⟩

end CodedTag

/-! ## The blog -/

structure Author where
  handle : Option String
  name : Option String
  deriving DecidableEq

namespace Author

def blank : Author := ⟨none, none⟩

def toJson (a : Author) : Json :=
  .ofFields [("handle", .ofOption .string a.handle), ("name", .ofOption .string a.name)]

def ofJson? (j : Json) : Option Author := do
  let [handle, name] ← j.members? ["handle", "name"] | none
  return ⟨← Json.optional? Json.string? handle, ← Json.optional? Json.string? name⟩

end Author

structure Comment where
  author : Option String
  text : Option String
  post : Option (ToOne Kind.post)
  /-- The title of the post and the author of the comment. -/
  anchor : Option String

namespace Comment

def blank : Comment := ⟨none, none, none, none⟩

def toJson (c : Comment) : Json :=
  .ofFields [("author", .ofOption .string c.author), ("text", .ofOption .string c.text),
    ("post", .ofOption ToOne.toJson c.post), ("anchor", .ofOption .string c.anchor)]

def ofJson? (source : Option ContextId) (j : Json) : Option Comment := do
  let [author, text, post, anchor] ← j.members? ["author", "text", "post", "anchor"] | none
  let author ← Json.optional? Json.string? author
  let text ← Json.optional? Json.string? text
  let post ← Json.optional? (ToOne.ofJson? source) post
  let anchor ← Json.optional? Json.string? anchor
  return ⟨author, text, post, anchor⟩

end Comment

structure Post where
  title : Option String
  body : Option String
  author : Option (ToOne Kind.author)
  tags : Option (MemberSet Kind.tag)
  comments : Option (MemberList Kind.comment)

namespace Post

def blank : Post := ⟨none, none, none, none, none⟩

def toJson (p : Post) : Json :=
  .ofFields [("title", .ofOption .string p.title), ("body", .ofOption .string p.body),
    ("author", .ofOption ToOne.toJson p.author), ("tags", .ofOption MemberSet.toJson p.tags),
    ("comments", .ofOption MemberList.toJson p.comments)]

def ofJson? (source : Option ContextId) (j : Json) : Option Post := do
  let [title, body, author, tags, comments] ←
    j.members? ["title", "body", "author", "tags", "comments"] | none
  let title ← Json.optional? Json.string? title
  let body ← Json.optional? Json.string? body
  let author ← Json.optional? (ToOne.ofJson? source) author
  let tags ← Json.optional? (MemberSet.ofJson? source) tags
  let comments ← Json.optional? (MemberList.ofJson? source) comments
  return ⟨title, body, author, tags, comments⟩

end Post

/-! ## Notes and nodes -/

structure Note where
  text : Option String
  /-- The id of the node that the note was made for. -/
  byline : Option String
  deriving DecidableEq

namespace Note

def blank : Note := ⟨none, none⟩

def toJson (n : Note) : Json :=
  .ofFields [("text", .ofOption .string n.text), ("by", .ofOption .string n.byline)]

def ofJson? (j : Json) : Option Note := do
  let [text, byline] ← j.members? ["text", "by"] | none
  return ⟨← Json.optional? Json.string? text, ← Json.optional? Json.string? byline⟩

end Note

structure Node where
  code : Option Int64
  label : Option String
  parent : Option (ToOne Kind.node)
  children : Option (MemberList Kind.node)
  notes : Option (MemberSet Kind.note)
  owned : Option (ToOne Kind.note)

namespace Node

def blank : Node := ⟨none, none, none, none, none, none⟩

def toJson (n : Node) : Json :=
  .ofFields [("code", .ofOption .ofInt64 n.code), ("label", .ofOption .string n.label),
    ("parent", .ofOption ToOne.toJson n.parent),
    ("children", .ofOption MemberList.toJson n.children),
    ("notes", .ofOption MemberSet.toJson n.notes), ("owned", .ofOption ToOne.toJson n.owned)]

def ofJson? (source : Option ContextId) (j : Json) : Option Node := do
  let [code, label, parent, children, notes, owned] ←
    j.members? ["code", "label", "parent", "children", "notes", "owned"] | none
  let code ← Json.optional? Json.int64? code
  let label ← Json.optional? Json.string? label
  let parent ← Json.optional? (ToOne.ofJson? source) parent
  let children ← Json.optional? (MemberList.ofJson? source) children
  let notes ← Json.optional? (MemberSet.ofJson? source) notes
  let owned ← Json.optional? (ToOne.ofJson? source) owned
  return ⟨code, label, parent, children, notes, owned⟩

end Node

/-! ## Values without a fixed shape, and values without a payload -/

/-- Holds any JSON; what is absent is `null`. -/
structure Loose where
  key : Json
  rank : Json
  extra : Json

namespace Loose

def blank : Loose := ⟨.null, .null, .null⟩

def toJson (l : Loose) : Json :=
  .ofFields [("key", l.key), ("rank", l.rank), ("extra", l.extra)]

/-- An array may leave out fields at its end. -/
def ofJson? : Json → Option Loose
  | .object fields =>
    let j := Json.object fields
    some ⟨j.valueAt "key", j.valueAt "rank", j.valueAt "extra"⟩
  | .array [] => some blank
  | .array [key] => some ⟨key, .null, .null⟩
  | .array [key, rank] => some ⟨key, rank, .null⟩
  | .array [key, rank, extra] => some ⟨key, rank, extra⟩
  | _ => none

end Loose

structure Brittle where
  text : Option String
  deriving DecidableEq

namespace Brittle

def blank : Brittle := ⟨none⟩

/-- One text cannot be written. -/
def toJson (b : Brittle) : Except String Json :=
  if b.text = some "boom" then .error "boom"
  else .ok (.ofFields [("text", .ofOption .string b.text)])

def ofJson? (j : Json) : Option Brittle := do
  let [text] ← j.members? ["text"] | none
  return ⟨← Json.optional? Json.string? text⟩

end Brittle

structure Untracked where
  deriving DecidableEq

namespace Untracked

def toJson (_ : Untracked) : Json := .ofFields []

def ofJson? (j : Json) : Option Untracked := do
  let _ ← j.members? []
  return {}

end Untracked

/-! ## Folders -/

structure Folder where
  code : Option UInt64
  parent : Option (ToOne Kind.folder)

namespace Folder

def blank : Folder := ⟨none, none⟩

def toJson (f : Folder) : Json :=
  .ofFields [("code", .ofOption .ofUInt64 f.code), ("parent", .ofOption ToOne.toJson f.parent)]

def ofJson? (source : Option ContextId) (j : Json) : Option Folder := do
  let [code, parent] ← j.members? ["code", "parent"] | none
  return ⟨← Json.optional? Json.uint64? code, ← Json.optional? (ToOne.ofJson? source) parent⟩

end Folder

end Reconcile.Sample
