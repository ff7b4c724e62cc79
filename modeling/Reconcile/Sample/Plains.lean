import Reconcile.Sample.Values
import Reconcile.Query.Basic

/-!
# Plain values of the sample model

The plain values that fill the entities of each type, their weight and natural key, and how they
are read from JSON and written to it.  The plain values that fill further ones are posts, nodes and
folders; only nodes nest without end.
-/

namespace Reconcile.Sample

/-- A list that may be left out, which then is empty. -/
def listOrEmpty? {α : Type} (read : Json → Option α) : Option Json → Option (List α)
  | none => some []
  | some j => j.listOf? read

/-! ## The blog -/

structure TagPlain where
  name : String
  colour : Option String
  deriving DecidableEq

namespace TagPlain

def toJson (p : TagPlain) : Json :=
  .ofFields [("name", .string p.name), ("colour", .ofOption .string p.colour)]

def ofJson? (j : Json) : Option TagPlain := do
  let [some name, colour] ← j.members? ["name", "colour"] | none
  return ⟨← name.string?, ← Json.optional? Json.string? colour⟩

/-- By name, then by colour, an absent one first. -/
def compare (p q : TagPlain) : Ordering :=
  (Ord.compare p.name q.name).then (match p.colour, q.colour with
    | none, none => .eq
    | none, some _ => .lt
    | some _, none => .gt
    | some a, some b => Ord.compare a b)

end TagPlain

structure CodedTagPlain where
  name : Json

namespace CodedTagPlain

def toJson (p : CodedTagPlain) : Json := .ofFields [("name", p.name)]

def ofJson? (j : Json) : Option CodedTagPlain := do
  let [some name] ← j.members? ["name"] | none
  return ⟨name⟩

end CodedTagPlain

structure AuthorPlain where
  handle : String
  name : Option String
  deriving DecidableEq

namespace AuthorPlain

def toJson (p : AuthorPlain) : Json :=
  .ofFields [("handle", .string p.handle), ("name", .ofOption .string p.name)]

def ofJson? (j : Json) : Option AuthorPlain := do
  let [some handle, name] ← j.members? ["handle", "name"] | none
  return ⟨← handle.string?, ← Json.optional? Json.string? name⟩

end AuthorPlain

structure CommentPlain where
  author : String
  text : String
  deriving DecidableEq

namespace CommentPlain

def toJson (p : CommentPlain) : Json :=
  .ofFields [("author", .string p.author), ("text", .string p.text)]

def ofJson? (j : Json) : Option CommentPlain := do
  let [some author, some text] ← j.members? ["author", "text"] | none
  return ⟨← author.string?, ← text.string?⟩

end CommentPlain

structure PostPlain where
  title : String
  body : Option String
  author : Option AuthorPlain
  tags : List TagPlain
  comments : List CommentPlain
  deriving DecidableEq

namespace PostPlain

def toJson (p : PostPlain) : Json :=
  .ofFields [("title", .string p.title), ("body", .ofOption .string p.body),
    ("author", .ofOption AuthorPlain.toJson p.author),
    ("tags", .array (p.tags.map TagPlain.toJson)),
    ("comments", .array (p.comments.map CommentPlain.toJson))]

/-- The tags and the comments may be left out. -/
def ofJson? (j : Json) : Option PostPlain := do
  let [some title, body, author, tags, comments] ←
    j.leadingMembers? 2 ["title", "body", "author", "tags", "comments"] | none
  let title ← title.string?
  let body ← Json.optional? Json.string? body
  let author ← Json.optional? AuthorPlain.ofJson? author
  let tags ← listOrEmpty? TagPlain.ofJson? tags
  let comments ← listOrEmpty? CommentPlain.ofJson? comments
  return ⟨title, body, author, tags, comments⟩

end PostPlain

/-! ## Notes and nodes -/

structure NotePlain where
  text : String
  deriving DecidableEq

namespace NotePlain

def toJson (p : NotePlain) : Json := .ofFields [("text", .string p.text)]

def ofJson? (j : Json) : Option NotePlain := do
  let [some text] ← j.members? ["text"] | none
  return ⟨← text.string?⟩

end NotePlain

/-- What a node can ask for while it is filled. -/
inductive Probe where
  /-- How others see the node. -/
  | self
  /-- The node that the natural key finds. -/
  | find
  /-- All nodes. -/
  | all
  /-- Filling a node of the same code. -/
  | refill
  /-- The children that others see. -/
  | children
  /-- Deleting the node. -/
  | delete
  /-- Saving the context. -/
  | save
  /-- A name that asks for nothing. -/
  | other (name : String)
  deriving DecidableEq

namespace Probe

def name : Probe → String
  | self => "self"
  | find => "find"
  | all => "all"
  | refill => "refill"
  | children => "children"
  | delete => "delete"
  | save => "save"
  | other name => name

def ofName (name : String) : Probe :=
  ([self, find, all, refill, children, delete, save].find? fun p => p.name == name).getD
    (other name)

end Probe

structure NodePlain where
  code : Option Int64
  label : Option String
  parent : Option NodePlain
  children : Option (List NodePlain)
  notes : Option (List NotePlain)
  owned : Option NotePlain
  probes : List Probe

namespace NodePlain

/-- A node that fills nothing else. -/
def leaf (code : Option Int64) (label : Option String) : NodePlain :=
  ⟨code, label, none, none, none, none, []⟩

mutual

/-- The number of nodes and probes in the value. -/
def weight : NodePlain → Nat
  | ⟨_, _, parent, children, _, _, probes⟩ =>
    1 + probes.length + weightOfParent parent + weightOfChildren children

def weightOfParent : Option NodePlain → Nat
  | none => 0
  | some p => p.weight

def weightOfChildren : Option (List NodePlain) → Nat
  | none => 0
  | some ps => weightOfEach ps

def weightOfEach : List NodePlain → Nat
  | [] => 0
  | p :: rest => p.weight + weightOfEach rest

end

theorem weight_pos (p : NodePlain) : 0 < p.weight := by
  cases p
  simp only [weight]
  omega

theorem weight_parent_lt {p q : NodePlain} (h : p.parent = some q) : q.weight < p.weight := by
  cases p
  simp only at h
  subst h
  simp only [weight, weightOfParent]
  omega

theorem weight_le_weightOfEach {q : NodePlain} {ps : List NodePlain} (h : q ∈ ps) :
    q.weight ≤ weightOfEach ps := by
  induction ps with
  | nil => simp at h
  | cons p rest ih =>
    rcases List.mem_cons.1 h with rfl | h
    · exact Nat.le_add_right _ _
    · exact Nat.le_trans (ih h) (Nat.le_add_left _ _)

theorem weight_child_lt {p q : NodePlain} {ps : List NodePlain} (h : p.children = some ps)
    (hq : q ∈ ps) : q.weight < p.weight := by
  have := weight_le_weightOfEach hq
  cases p
  simp only at h
  subst h
  simp only [weight, weightOfChildren]
  omega

/-- A probe weighs as much as a leaf, so that a probing node may fill one. -/
theorem weight_leaf_lt {p : NodePlain} (h : p.probes ≠ []) (code : Option Int64)
    (label : Option String) : (leaf code label).weight < p.weight := by
  have := List.length_pos_iff.2 h
  cases p
  simp only [leaf, weight, weightOfParent, weightOfChildren, List.length_nil] at this ⊢
  omega

def toJson (p : NodePlain) : Json :=
  .ofFields [("code", .ofOption .ofInt64 p.code), ("label", .ofOption .string p.label)]

end NodePlain

/-- The probes may be left out. -/
def NodePlain.ofJson? (j : Json) : Option NodePlain :=
  match _h : j.leadingMembers? 1
      ["code", "label", "parent", "children", "notes", "owned", "probe"] with
  | some [code, label, parent, children, notes, owned, probes] => do
    let code ← Json.optional? Json.int64? code
    let label ← Json.optional? Json.string? label
    let parent ← match _hparent : parent with
      | none => some none
      | some .null => some none
      | some p => (ofJson? p).map some
    let children ← match _hchildren : children with
      | none => some none
      | some .null => some none
      | some (.array items) => do
        let children ← items.attach.mapM fun (p : { p // p ∈ items }) => ofJson? p.1
        pure (some children)
      | some _ => none
    let notes ← Json.optional? (·.listOf? NotePlain.ofJson?) notes
    let owned ← Json.optional? NotePlain.ofJson? owned
    let probes ← listOrEmpty? (fun p => p.string?.map Probe.ofName) probes
    return ⟨code, label, parent, children, notes, owned, probes⟩
  | _ => none
termination_by sizeOf j
decreasing_by
  · -- a child is smaller than the list it stands in, which is smaller than the value
    have hlist := Json.sizeOf_of_mem_leadingMembers? _h (v := .array items)
      (by simp [_hchildren])
    have hitem := List.sizeOf_lt_of_mem p.2
    simp only [Json.array.sizeOf_spec] at hlist
    omega
  · exact Json.sizeOf_of_mem_leadingMembers? _h (by simp [_hparent])

/-! ## Values without a fixed shape, and values without a payload -/

/-- Sets the fields that are present; a field that is present as `null` is set to `null`. -/
structure LoosePlain where
  key : Option Json
  rank : Option Json
  extra : Option Json

namespace LoosePlain

def toJson (p : LoosePlain) : Json :=
  .ofFields ([("key", p.key), ("rank", p.rank), ("extra", p.extra)].filterMap fun field =>
    field.2.map fun v => (field.1, v))

def ofJson? : Json → Option LoosePlain
  | .object fields =>
    let j := Json.object fields
    some ⟨j.field? "key", j.field? "rank", j.field? "extra"⟩
  | _ => none

end LoosePlain

structure BrittlePlain where
  text : String
  deriving DecidableEq

namespace BrittlePlain

def toJson (p : BrittlePlain) : Json := .ofFields [("text", .string p.text)]

def ofJson? (j : Json) : Option BrittlePlain := do
  let [some text] ← j.members? ["text"] | none
  return ⟨← text.string?⟩

end BrittlePlain

structure UntrackedPlain where
  deriving DecidableEq

namespace UntrackedPlain

def toJson (_ : UntrackedPlain) : Json := .ofFields []

def ofJson? : Json → Option UntrackedPlain
  | .object _ => some {}
  | _ => none

end UntrackedPlain

/-! ## Folders -/

structure FolderPlain where
  code : UInt64
  /-- The code of the folder that holds this one. -/
  parent : Option UInt64
  deriving DecidableEq

namespace FolderPlain

def toJson (p : FolderPlain) : Json :=
  .ofFields [("code", .ofUInt64 p.code), ("parent", .ofOption .ofUInt64 p.parent)]

def ofJson? (j : Json) : Option FolderPlain := do
  let [some code, parent] ← j.members? ["code", "parent"] | none
  return ⟨← code.uint64?, ← Json.optional? Json.uint64? parent⟩

end FolderPlain

/-! ## All types together -/

/-- The plain values of a type of entity. -/
abbrev Plain : Kind → Type
  | .tag => TagPlain
  | .codedTag => CodedTagPlain
  | .author => AuthorPlain
  | .comment => CommentPlain
  | .post => PostPlain
  | .note => NotePlain
  | .node => NodePlain
  | .loose => LoosePlain
  | .brittle => BrittlePlain
  | .untracked => UntrackedPlain
  | .folder => FolderPlain

namespace Plain

/-- Greater than the weight of every plain value that filling this one reconciles. -/
def weight : {k : Kind} → Plain k → Nat
  | .post, _ => 1
  | .node, p => NodePlain.weight p
  | .folder, p => if (p : FolderPlain).parent.isSome then 1 else 0
  | _, _ => 0

def naturalKey : {k : Kind} → Plain k → Option NaturalKey
  | .tag, p => some ⟨"name", .string (p : TagPlain).name⟩
  | .codedTag, p => some ⟨"name", (p : CodedTagPlain).name⟩
  | .author, p => some ⟨"handle", .string (p : AuthorPlain).handle⟩
  | .post, p => some ⟨"title", .string (p : PostPlain).title⟩
  | .node, p => (p : NodePlain).code.map fun code => ⟨"code", .ofInt64 code⟩
  | .loose, p => (p : LoosePlain).key.map fun key => ⟨"key", key⟩
  | .brittle, p => some ⟨"text", .string (p : BrittlePlain).text⟩
  | .folder, p => some ⟨"code", .ofUInt64 (p : FolderPlain).code⟩
  | .comment, _ => none
  | .note, _ => none
  | .untracked, _ => none

def toJson : {k : Kind} → Plain k → Json
  | .tag, p => TagPlain.toJson p
  | .codedTag, p => CodedTagPlain.toJson p
  | .author, p => AuthorPlain.toJson p
  | .comment, p => CommentPlain.toJson p
  | .post, p => PostPlain.toJson p
  | .note, p => NotePlain.toJson p
  | .node, p => NodePlain.toJson p
  | .loose, p => LoosePlain.toJson p
  | .brittle, p => BrittlePlain.toJson p
  | .untracked, p => UntrackedPlain.toJson p
  | .folder, p => FolderPlain.toJson p

def ofJson? : (k : Kind) → Json → Option (Plain k)
  | .tag, j => TagPlain.ofJson? j
  | .codedTag, j => CodedTagPlain.ofJson? j
  | .author, j => AuthorPlain.ofJson? j
  | .comment, j => CommentPlain.ofJson? j
  | .post, j => PostPlain.ofJson? j
  | .note, j => NotePlain.ofJson? j
  | .node, j => NodePlain.ofJson? j
  | .loose, j => LoosePlain.ofJson? j
  | .brittle, j => BrittlePlain.ofJson? j
  | .untracked, j => UntrackedPlain.ofJson? j
  | .folder, j => FolderPlain.ofJson? j

end Plain

end Reconcile.Sample
