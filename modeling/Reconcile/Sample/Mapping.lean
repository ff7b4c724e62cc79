import Reconcile.Sample.Model
import Reconcile.Mapping.Relationships
import Reconcile.Session.Save
import Reconcile.Assign

/-!
# The mapping of the sample model

How the entities of the sample model are filled from plain values, and how plain values are read
off them.
-/

namespace Reconcile.Sample

/-- A way to reconcile the plain values that are lighter than `bound`. -/
abbrev Nested (bound : Nat) := Reconciler model Plain Plain.weight bound

/-! ## Filling -/

def fillTag (p : TagPlain) (v : Tag) : Tag :=
  { name := some p.name, colour := assign v.colour p.colour false }

/-- Notes how the tag is seen by others, and takes over a name that is text. -/
def fillCodedTag (p : CodedTagPlain) (scope : Scope) (this : EntityId) (v : CodedTag) :
    Work model CodedTag := do
  if let .ok h ← (scope.locate (T := model) .codedTag this).outcome then
    modify fun s => s.note (.seen (s.value h : CodedTag).name (s.isFilling h))
  return match p.name with
    | .string name => { v with name := some name }
    | _ => v

def fillAuthor (p : AuthorPlain) (v : Author) : Author :=
  { handle := some p.handle, name := assign v.name p.name true }

/-- The anchor is made from the title that the post has at the time. -/
def fillComment (p : CommentPlain) (scope : Scope) (v : Comment) : Work model Comment := do
  let v := { v with author := some p.author, text := some p.text }
  match v.post with
  | none => return { v with anchor := none }
  | some post =>
    let (found, post) ← ToOne.resolveIn scope post
    let s ← get
    let title := found.bind fun h => (s.value h : Post).title
    let anchor := title.map fun title => title ++ "/" ++ p.author
    return { v with post := some post, anchor }

/-- Tags and authors are shared with other posts, and comments are owned. -/
def fillPost (p : PostPlain) (nested : Nested 1) (scope : Scope) (this : EntityId) (v : Post) :
    Work model Post := do
  let v := { v with title := some p.title, body := assign v.body p.body false }
  let tags ← MemberSet.build p.tags fun q _ => nested .tag q Nat.one_pos pure
  let author : Option (ToOne Kind.author) ← match p.author with
    | some q => pure (ToOne.pointTo v.author (← nested .author q Nat.one_pos pure))
    | none => pure v.author
  -- the comments refer to the post as the context knows it, which is filling just now
  let parent := (← (scope.locate (T := model) .post this).outcome).toOption
  let ofParent : Hook model .comment := fun c =>
    return { (c : Comment) with post := parent.map ToOne.ofHandle }
  let comments ← scope.replaceAll v.comments
    (some (MemberList.build p.comments fun q _ => nested .comment q Nat.one_pos ofParent))
  return { v with author, tags := some tags, comments }

/-- What a probe finds out about a node that is filled; `refill` fills a node of the same code. -/
def runProbe (p : NodePlain) (me : Option (Handle Kind.node)) (scope : Scope)
    (refill : Work model (Option (Handle Kind.node))) : Probe → Work model ProbeResult
  | .self => do
    let s ← get
    return .state (me.map fun h => (s.isFilling h, s.payload h))
  | .find => do
    let found ← scope.findByKey (T := model) .node (Plain.naturalKey (k := .node) p)
    return .one (found.map Handle.id)
  | .all => do
    let found ← scope.findAll (T := model) .node
    return .many (found.map fun hs => hs.map Handle.id)
  | .refill => do
    return .one ((← refill).map Handle.id)
  | .children => do
    match me with
    | none => return .many none
    | some h =>
      let v : Node := (← get).value h
      match v.children with
      | none => return .many none
      | some children =>
        let (found, children) ← ToMany.handles children
        modify (·.rebind h { v with children := some children })
        return .many (some (found.map Handle.id))
  | .delete => do
    match me with
    | none => return .deleted none
    | some h => return .deleted (some (← scope.deleteOrReport h))
  | .save => return .saved (← scope.save.outcome)
  | .other _ => return .nothing

def runProbes (p : NodePlain) (me : Option (Handle Kind.node)) (scope : Scope)
    (refill : Work model (Option (Handle Kind.node))) : List Probe → Work model Unit
  | [] => return
  | probe :: rest => do
    let result ← runProbe p me scope refill probe
    modify (·.note (.probed probe result))
    runProbes p me scope refill rest

/-- Parents and children are shared with other nodes, and notes are owned. -/
def fillNode (p : NodePlain) (nested : Nested p.weight) (scope : Scope) (this : EntityId)
    (v : Node) : Work model Node := do
  let v := { v with code := p.code, label := assign v.label p.label false }
  let me := (← (scope.locate (T := model) .node this).outcome).toOption
  -- probes run before any relationship of the node is filled
  if h : p.probes ≠ [] then
    let refill := nested .node (.leaf p.code (some "refilled"))
      (NodePlain.weight_leaf_lt h p.code (some "refilled")) pure
    runProbes p me scope refill p.probes
  let parent : Option (ToOne Kind.node) ← match h : p.parent with
    | some q =>
      pure (ToOne.pointTo v.parent (← nested .node q (NodePlain.weight_parent_lt h) pure))
    | none => pure v.parent
  let ofParent : Hook model .node := fun n =>
    return { (n : Node) with parent := me.map ToOne.ofHandle }
  let children ← match h : p.children with
    | some ps =>
      some <$> MemberList.build ps fun q hq =>
        nested .node q (NodePlain.weight_child_lt h hq) ofParent
    | none => pure v.children
  let bySelf : Hook model .note := fun n => return { (n : Note) with byline := some this.text }
  let notes ← scope.replaceAll v.notes (p.notes.map fun ps =>
    MemberSet.build ps fun q _ => nested .note q (NodePlain.weight_pos p) bySelf)
  let (_, owned) ← scope.replaceOne v.owned (p.owned.map fun q =>
    nested .note q (NodePlain.weight_pos p) pure)
  return { v with parent, children, notes, owned }

def fillLoose (p : LoosePlain) (v : Loose) : Loose :=
  { key := p.key.getD v.key, rank := p.rank.getD v.rank, extra := p.extra.getD v.extra }

/-- The folder that holds this one is shared. -/
def fillFolder (p : FolderPlain) (nested : Nested (Plain.weight (k := .folder) p)) (v : Folder) :
    Work model Folder := do
  let parent : Option (ToOne Kind.folder) ← match h : p.parent with
    | some code =>
      let q : FolderPlain := ⟨code, none⟩
      pure (ToOne.pointTo v.parent (← nested .folder q (by simp [Plain.weight, h, q]) pure))
    | none => pure v.parent
  return { code := some p.code, parent }

def fill : {k : Kind} → (p : Plain k) → Nested (Plain.weight p) → Scope → EntityId → Value k →
    Work model (Value k)
  | .tag, p, _, _, _, v => return fillTag p v
  | .codedTag, p, _, scope, this, v => fillCodedTag p scope this v
  | .author, p, _, _, _, v => return fillAuthor p v
  | .comment, p, _, scope, _, v => fillComment p scope v
  | .post, p, nested, scope, this, v => fillPost p nested scope this v
  | .note, p, _, _, _, v => return { (v : Note) with text := some (p : NotePlain).text }
  | .node, p, nested, scope, this, v => fillNode p nested scope this v
  | .loose, p, _, _, _, v => return fillLoose p v
  | .brittle, p, _, _, _, _ => return { text := some (p : BrittlePlain).text }
  | .untracked, _, _, _, _, v => return v
  | .folder, p, nested, _, _, v => fillFolder p nested v

/-! ## Reading plain values -/

def plainTag (v : Tag) : TagPlain := ⟨v.name.getD "", v.colour⟩

def plainAuthor (v : Author) : AuthorPlain := ⟨v.handle.getD "", v.name⟩

def plainComment (v : Comment) : CommentPlain := ⟨v.author.getD "", v.text.getD ""⟩

/-- The tags are sorted, and the comments are in order. -/
def plainPost (v : Post) : Work model (PostPlain × Post) := do
  let (tags, v) ← match v.tags with
    | none => pure ([], v)
    | some tags =>
      let (found, tags) ← ToMany.handles tags
      let s ← get
      pure (found.map fun h => plainTag (s.value h), { v with tags := some tags })
  let (author, v) ← match v.author with
    | none => pure (none, v)
    | some author =>
      let (found, author) ← ToOne.target author
      let s ← get
      pure (found.map fun h => plainAuthor (s.value h), { v with author := some author })
  let (comments, v) ← match v.comments with
    | none => pure ([], v)
    | some comments =>
      let (found, comments) ← ToMany.handles comments
      let s ← get
      pure (found.map fun h => plainComment (s.value h), { v with comments := some comments })
  let tags := sortStable TagPlain.compare tags
  return (⟨v.title.getD "", v.body, author, tags, comments⟩, v)

/-- The plain value of what an entity holds.  That of a node or a folder leaves out the others
that it refers to. -/
def toPlain : {k : Kind} → Value k → Work model (Plain k × Value k)
  | .tag, v => return (plainTag v, v)
  | .codedTag, v => return (⟨.ofOption .string (v : CodedTag).name⟩, v)
  | .author, v => return (plainAuthor v, v)
  | .comment, v => return (plainComment v, v)
  | .post, v => plainPost v
  | .note, v => return (⟨(v : Note).text.getD ""⟩, v)
  | .node, v => return (.leaf (v : Node).code (v : Node).label, v)
  | .loose, v => return (⟨some (v : Loose).key, some (v : Loose).rank, some (v : Loose).extra⟩, v)
  | .brittle, v => return (⟨(v : Brittle).text.getD ""⟩, v)
  | .untracked, v => return ({}, v)
  | .folder, v => return (⟨(v : Folder).code.getD 0, none⟩, v)

def mapping : Mapping model where
  Plain := Plain
  weight := Plain.weight
  naturalKey := Plain.naturalKey
  fill := fill
  toPlain := toPlain

end Reconcile.Sample
