import Reconcile.Sample.Plains
import Reconcile.Store.Commit

/-!
# The sample model

The entity types of the sample model put together, with the remarks that are noted while they are
filled.
-/

namespace Reconcile.Sample

/-- What an entity of a type holds. -/
abbrev Value : Kind → Type
  | .tag => Tag
  | .codedTag => CodedTag
  | .author => Author
  | .comment => Comment
  | .post => Post
  | .note => Note
  | .node => Node
  | .loose => Loose
  | .brittle => Brittle
  | .untracked => Untracked
  | .folder => Folder

namespace Value

def blank : (k : Kind) → Value k
  | .tag => Tag.blank
  | .codedTag => CodedTag.blank
  | .author => Author.blank
  | .comment => Comment.blank
  | .post => Post.blank
  | .note => Note.blank
  | .node => Node.blank
  | .loose => Loose.blank
  | .brittle => Brittle.blank
  | .untracked => {}
  | .folder => Folder.blank

def encode : {k : Kind} → Value k → Except String Json
  | .tag, v => .ok (Tag.toJson v)
  | .codedTag, v => .ok (CodedTag.toJson v)
  | .author, v => .ok (Author.toJson v)
  | .comment, v => .ok (Comment.toJson v)
  | .post, v => .ok (Post.toJson v)
  | .note, v => .ok (Note.toJson v)
  | .node, v => .ok (Node.toJson v)
  | .loose, v => .ok (Loose.toJson v)
  | .brittle, v => Brittle.toJson v
  | .untracked, v => .ok (Untracked.toJson v)
  | .folder, v => .ok (Folder.toJson v)

def decode : (k : Kind) → Option ContextId → Json → Option (Value k)
  | .tag, _, j => Tag.ofJson? j
  | .codedTag, _, j => CodedTag.ofJson? j
  | .author, _, j => Author.ofJson? j
  | .comment, source, j => Comment.ofJson? source j
  | .post, source, j => Post.ofJson? source j
  | .note, _, j => Note.ofJson? j
  | .node, source, j => Node.ofJson? source j
  | .loose, _, j => Loose.ofJson? j
  | .brittle, _, j => Brittle.ofJson? j
  | .untracked, _, j => Untracked.ofJson? j
  | .folder, source, j => Folder.ofJson? source j

end Value

/-- What a probe of a node found. -/
inductive ProbeResult where
  /-- Whether the node is filling, and its payload; none if the node cannot be found. -/
  | state (found : Option (Bool × Except Fault Json))
  | one (id : Option EntityId)
  | many (ids : Option (List EntityId))
  | deleted (removed : Option Bool)
  | saved (result : Except Fault Summary)
  | nothing

inductive Remark where
  /-- The payload of a value before it is filled. -/
  | hooked (payload : Option Json)
  /-- The name of a tag as others see it while it is filled. -/
  | seen (name : Option String) (filling : Bool)
  | probed (probe : Probe) (result : ProbeResult)

abbrev model : Model where
  Kind := Kind
  decEqKind := inferInstance
  Value := Value
  Remark := Remark
  entityName := Kind.entityName
  blank := Value.blank
  encode := Value.encode
  decode := Value.decode

end Reconcile.Sample
