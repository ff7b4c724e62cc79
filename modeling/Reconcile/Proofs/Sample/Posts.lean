import Reconcile.Proofs.Mapping.Opening
import Reconcile.Proofs.Mapping.Replacing
import Reconcile.Proofs.Sample.Tags
import Reconcile.Proofs.Session.Payloads

/-!
# Synchronizing posts

Filling a post synchronizes its tags and its author, which other posts share, and replaces its
comments, which it owns.  All of this happens while the post itself is open: the comments find it
through its id and read the title off the preview that stands in for it.

What is done to one type of entities leaves the other types alone, so what each part has done can be
told from what was seen before the post was opened.
-/

namespace Reconcile.Sample

open Session

variable {s s₁ s₂ s' : Session model} {scope : Scope} {c : ContextId} {p : PostPlain}
  {h : Handle Kind.post}

/-! ## The blog in a context -/

/-- The blog can be synchronized in the context: nothing is in use there, and nothing is called a
tag that is none. -/
structure BlogReady (s : Session model) (c : ContextId) : Prop where
  schema : s.schemaOf c = blogSchema
  pending : s.takesPending c = true
  unused : ∀ key e m, (s.registry c).get? key = some e → s.entity? e.slot = some m → m.Unused
  tags : ∀ key e, (s.registry c).get? key = some e → e.id.entity = "Tag" →
    s.entryDeleted e = false → e.kind = Kind.tag
  legible : ∀ key row, (s.rowsOf c).row? ⟨"Tag", key⟩ = some row →
    (s.registry c).get? key = none → (Tag.ofJson? row.payload).isSome

/-- Rows of a blog type of its own name can be read, as the type has written them. -/
theorem isSome_decode_of_written {k : Kind} (hk : k.IsBlog) (htag : k ≠ .tag) {payload : Json}
    (hwritten : model.Written k.entityName payload) (source : Option ContextId) :
    (Value.decode k source payload).isSome := by
  rcases hwritten with ⟨k', v, hname, hencode⟩
  rcases eq_or_tags_of_entityName hname with rfl | ⟨rfl, _⟩ | ⟨rfl, _⟩
  · exact Option.isSome_iff_exists.2 ⟨_, Value.decode_of_encode source hencode⟩
  · exact absurd rfl htag
  · exact absurd hk id

/-- The blog describes the types that are looked up while a post is filled, and their keys. -/
theorem described_of_blog (hschema : s.schemaOf c = blogSchema) {k : Kind}
    (hk : k = .tag ∨ k = .author ∨ k = .post) : ∃ d,
      (s.schemaOf c).require k.entityName = .ok d ∧ (d.attribute? k.keyAttribute).isSome := by
  rw [hschema]
  rcases hk with rfl | rfl | rfl
  · exact ⟨tagDescription, rfl, rfl⟩
  · exact ⟨authorDescription, rfl, rfl⟩
  · exact ⟨postDescription, rfl, rfl⟩

theorem BlogReady.ready (hblog : BlogReady s c) (hsound : Sound s) (hwritten : s.RowsWritten)
    {k : Kind} (hk : k = .tag ∨ k = .author ∨ k = .post) :
    s.Ready c k k.keyAttribute Entity.Unused where
  pending := hblog.pending
  described := described_of_blog hblog.schema hk
  readable key row hrow hnew := by
    have hpayload := hwritten.rowsOf hrow
    rcases hk with rfl | rfl | rfl
    · exact hblog.legible key row hrow hnew
    · exact isSome_decode_of_written (k := .author) trivial (by decide) hpayload (some c)
    · exact isSome_decode_of_written (k := .post) trivial (by decide) hpayload (some c)
  live key e m he hname hm hlive := by
    refine ⟨?_, hblog.unused key e m he hm⟩
    have hcall : e.kind.entityName = k.entityName := (hsound.lodged he).name.symm.trans hname
    rcases eq_or_tags_of_entityName hcall with hkind | ⟨rfl, _⟩ | ⟨rfl, _⟩
    · exact hkind
    · exact hblog.tags key e he hname ((entryDeleted_of_entity? hm).trans hlive)
    · rcases hk with hk | hk | hk <;> cases hk

/-! ## The parts of a post -/

def authorFilling : Filling AuthorPlain Author String where
  keyOf p := p.handle
  key? v := v.handle
  blank := .blank
  fill := fillAuthor
  key_fill _ _ := rfl

theorem functional_author : mapping.Functional Kind.author "handle" pure authorFilling where
  blank := rfl
  identifies p := by
    refine ⟨.string (AuthorPlain.handle p), rfl, ?_⟩
    intro v
    refine ⟨Author.toJson v, rfl, ?_⟩
    rw [Author.valueAt_handle]
    exact same_ofOption_string
  fill _ v := ⟨v, fun _ => rfl, fun _ _ _ _ => rfl⟩

theorem identifies_post (p : PostPlain) :
    mapping.Identifies (T := model) (k := Kind.post) Post.title p "title" p.title := by
  refine ⟨.string p.title, rfl, ?_⟩
  intro v
  refine ⟨Post.toJson v, rfl, ?_⟩
  rw [Post.valueAt_title]
  exact same_ofOption_string

/-- Comments are filled as comments on the post that was found. -/
def onPost (found : Option (Handle Kind.post)) : Hook model Kind.comment := fun c =>
  return { (c : Comment) with post := found.map ToOne.ofHandle }

/-- A plain comment as a comment on a post of this title. -/
def commentOn (h : Handle Kind.post) (title : String) (q : CommentPlain) : Comment :=
  ⟨some q.author, some q.text, some (.ofHandle h), some (title ++ "/" ++ q.author)⟩

/-- The title of the post is read off the entity of the post, whatever stands in it. -/
theorem forms_comment {m : Entity model} (hm : s.entity? h.slot = some m)
    (htitle : (m.value Kind.post : Post).title = some p.title) (q : CommentPlain) :
    mapping.Forms (T := model) (k := Kind.comment) s scope (onPost (some h)) q (commentOn h p.title q) := by
  refine ⟨rfl, ⟨none, none, some (.ofHandle h), none⟩, fun _ => rfl, ?_⟩
  intro nested this a ha
  have ham : a.entity? h.slot = some m := (ha _ (lt_size_of_entity? hm)).trans hm
  have hvalue : (a.value h : Post).title = some p.title := by
    rw [value_of_entity? ham]
    exact htitle
  show fillComment q scope ⟨none, none, some (.ofHandle h), none⟩ a = (commentOn h p.title q, a)
  have hbound : (ToOne.ofHandle h).resolveIn scope a = ((some h, ToOne.ofHandle h), a) := rfl
  simp only [fillComment, Work.bind_apply, hbound, Work.get_apply, Option.bind_some, hvalue]
  rfl

/-- The value that a post has after a fill, by what its parts were filled with. -/
def filledPost (p : PostPlain) (v : Post) (author : Option (ToOne Kind.author))
    (tags : MemberSet Kind.tag) (comments : Option (MemberList Kind.comment)) : Post :=
  ⟨some p.title, assign v.body p.body false, author, some tags, comments⟩

/-- Tags and author are synchronized, and then the comments are replaced. -/
theorem fillPost_eq {this : EntityId} {v : Post} {s₃ s₄ : Session model}
    {tags : MemberSet Kind.tag} {found : Option (Handle Kind.author)}
    {author : Option (ToOne Kind.author)} {parent : Except Fault (Handle Kind.post)}
    {comments : Option (MemberList Kind.comment)}
    (htags : mapping.syncSet (k := Kind.tag) scope p.tags pure s = (tags, s₁))
    (hauthor : mapping.syncOne (k := Kind.author) scope v.author p.author s₁ =
      ((found, author), s₂))
    (hparent : (scope.locate (T := model) Kind.post this).outcome s₂ = (parent, s₃))
    (hcomments : mapping.replaceList (k := Kind.comment) scope v.comments (some p.comments)
      (onPost parent.toOption) s₃ = (comments, s₄)) :
    fillPost p (mapping.reconcileBelow scope 1) scope this v s =
      (filledPost p v author tags comments, s₄) := by
  have hset : MemberSet.build p.tags (fun q _ => mapping.reconcileBelow scope 1 Kind.tag q
      Nat.one_pos pure) s = (tags, s₁) := htags
  have hlist : scope.replaceAll v.comments (some (MemberList.build p.comments fun q _ =>
      mapping.reconcileBelow scope 1 Kind.comment q Nat.one_pos (onPost parent.toOption))) s₃ =
        (comments, s₄) := hcomments
  unfold fillPost
  simp only [Work.bind_apply, hset]
  cases hq : p.author with
  | none =>
    rw [hq] at hauthor
    cases hauthor
    simp only [Work.bind_apply, Work.pure_apply, hparent]
    exact congrArg (fun out : Option (MemberList Kind.comment) × Session model =>
      (filledPost p v v.author tags out.1, out.2)) hlist
  | some q =>
    rw [hq] at hauthor
    have hone : mapping.reconcileBelow scope 1 Kind.author q Nat.one_pos pure s₁ = (found, s₂) ∧
        author = ToOne.pointTo v.author found := by
      cases hauthor
      exact ⟨rfl, rfl⟩
    rcases hone with ⟨hone, rfl⟩
    simp only [Work.bind_apply, Work.pure_apply, hone, hparent]
    exact congrArg (fun out : Option (MemberList Kind.comment) × Session model =>
      (filledPost p v (ToOne.pointTo v.author found) tags out.1, out.2)) hlist

/-! ## Filling an open post -/

/-- The comments that a post has. -/
def Post.members (v : Post) : List (Member Kind.comment) := (v.comments.map MemberList.members).getD []

/-- What filling a post has done: the tags and the author were filled, the old comments deleted, and
new ones made. -/
structure FillsPost (s : Session model) (c : ContextId) (p : PostPlain) (h : Handle Kind.post)
    (v : Post) (tags : List (Handle Kind.tag)) (authors : List (Handle Kind.author))
    (gone comments : List (Handle Kind.comment)) (s' : Session model) : Prop where
  tagged : Mapping.Fills (T := model) (M := mapping) (k := Kind.tag) s c (tagFilling id) p.tags tags s'
  authored : Mapping.Fills (T := model) (M := mapping) (k := Kind.author) s c authorFilling
    p.author.toList authors s'
  drops : Drops s c v.members gone s'
  enters : Enters (T := model) (k := Kind.comment) s c (p.comments.map (commentOn h p.title))
    comments s'
  others : ∀ key, (∀ x ∈ gone, x.id.key ≠ key) → (∀ x ∈ comments, x.id.key ≠ key) →
    s'.seen? c Kind.comment key = s.seen? c Kind.comment key
  leaves : Leaves s s' c (tags.map Handle.slot ++ authors.map Handle.slot ++
    (gone.map Handle.slot ++ comments.map Handle.slot))
  bypasses : Bypasses s s' c Kind.post

/-- Tags and author are synchronized in steps, whatever comes of it. -/
theorem run_shared (hsound : Sound s) {tagSet : MemberSet Kind.tag}
    {author : Option (ToOne Kind.author)}
    {out : Option (Handle Kind.author) × Option (ToOne Kind.author)}
    (hset : mapping.syncSet (k := Kind.tag) scope p.tags pure s = (tagSet, s₁))
    (hone : mapping.syncOne (k := Kind.author) scope author p.author s₁ = (out, s₂)) :
    Run Deed.Native s s₁ ∧ Run Deed.Native s₁ s₂ := by
  have hpure : ∀ w : Tag, Work.Leads (T := model) Advances (pure w) := fun w => reads_sample.pure w
  have hrun₁ := (lawful.syncSet (T := model) (k := Kind.tag) scope p.tags hpure s hsound).run
  rw [hset] at hrun₁
  have hrun₂ := (lawful.syncOne (T := model) (k := Kind.author) scope author p.author s₁
    (hrun₁.sound hsound)).run
  rw [hone] at hrun₂
  exact ⟨hrun₁, hrun₂⟩

/-- The types that posts share are synchronized: first the tags, and then the author. -/
structure FillsShared (s : Session model) (c : ContextId) (p : PostPlain)
    (tags : List (Handle Kind.tag)) (authors : List (Handle Kind.author))
    (s₁ s₂ : Session model) : Prop where
  sound : Sound s ∧ Sound s₁
  ordered : s₁.OrderedIn c ∧ s₂.OrderedIn c
  tagged : Mapping.Fills (T := model) (M := mapping) (k := Kind.tag) s c (tagFilling id) p.tags tags s₁
  tagging : Confined s s₁ c Kind.tag (tags.map Handle.slot)
  authored : Mapping.Fills (T := model) (M := mapping) (k := Kind.author) s₁ c authorFilling
    p.author.toList authors s₂
  authoring : Confined s₁ s₂ c Kind.author (authors.map Handle.slot)

theorem fillsShared (hsound : Sound s) (hkeeps : s.KeepsOrder scope.context)
    (htags : s.Ready scope.context Kind.tag "name" Entity.Unused)
    (hauthors : s.Ready scope.context Kind.author "handle" Entity.Unused)
    {tagSet : MemberSet Kind.tag} {author : Option (ToOne Kind.author)}
    {out : Option (Handle Kind.author) × Option (ToOne Kind.author)}
    (hset : mapping.syncSet (k := Kind.tag) scope p.tags pure s = (tagSet, s₁))
    (hone : mapping.syncOne (k := Kind.author) scope author p.author s₁ = (out, s₂))
    (hkeys : s₂.KeysLeft) : ∃ tags authors,
      tagSet = MemberSet.ofHandles tags ∧ out = (authors.head?, ToOne.pointTo author authors.head?) ∧
      FillsShared s scope.context p tags authors s₁ s₂ := by
  rcases run_shared hsound hset hone with ⟨hrun₁, hrun₂⟩
  have hsound₁ := hrun₁.sound hsound
  -- keys that are left at the end were left all along
  have hkeys₁ := hrun₂.keysLeft hkeys
  have hordered := hkeeps s (.refl s) (hrun₁.keysLeft hkeys₁) rfl
  have htagFilling : mapping.Functional (T := model) Kind.tag "name" pure (tagFilling id) :=
    functional_tag id
  rcases htagFilling.syncSet lawful p.tags hsound hordered.numbered htags (by rwa [hset]) with
    ⟨tags, _, hset', htagged, htagging⟩
  rw [hset] at hset'
  cases hset'
  have hrows₁ := htagging.leaves.rowsOf scope.context
  have hordered₁ := hkeeps s₁ hrun₁ hkeys₁ hrows₁
  have hauthors₁ : s₁.Ready scope.context Kind.author "handle" Entity.Unused :=
    htagging.ready hsound hsound₁ (by decide) hauthors
  rcases functional_author.syncOne lawful author p.author hsound₁ hordered₁.numbered hauthors₁ with
    ⟨authors, _, hone', hauthored, hauthoring⟩
  rw [hone] at hone'
  cases hone'
  have hrows₂ := (hauthoring.leaves.rowsOf scope.context).trans hrows₁
  exact ⟨tags, authors, rfl, rfl, ⟨hsound, hsound₁⟩,
    ⟨hordered₁, hkeeps s₂ (hrun₁.trans hrun₂) hkeys hrows₂⟩, htagged, htagging, hauthored, hauthoring⟩

namespace FillsShared

variable {tags : List (Handle Kind.tag)} {authors : List (Handle Kind.author)}
  (hshared : FillsShared s c p tags authors s₁ s₂)

include hshared

/-- Other types are left alone. -/
theorem bypasses {l : Kind} (htag : l.entityName ≠ Kind.tag.entityName)
    (hauthor : l.entityName ≠ Kind.author.entityName) : Bypasses s s₂ c l :=
  (hshared.tagging.bypasses hshared.sound.1 hshared.ordered.1 htag).trans
    (hshared.authoring.bypasses hshared.sound.2 hshared.ordered.2 hauthor)

theorem leaves : Leaves s s₂ c (tags.map Handle.slot ++ authors.map Handle.slot) :=
  hshared.tagging.leaves.trans hshared.authoring.leaves

theorem schemaOf : s₂.schemaOf c = s.schemaOf c :=
  hshared.authoring.schemaOf.trans hshared.tagging.schemaOf

/-- The tags are as they were filled when the author has been filled too. -/
theorem tagged_after : Mapping.Fills (T := model) (M := mapping) (k := Kind.tag) s c (tagFilling id)
    p.tags tags s₂ :=
  hshared.tagged.widen (Bypasses.refl s _ Kind.tag)
    (hshared.authoring.bypasses hshared.sound.2 hshared.ordered.2 (by decide))

theorem authored_before : Mapping.Fills (T := model) (M := mapping) (k := Kind.author) s c
    authorFilling p.author.toList authors s₂ :=
  hshared.authored.widen (hshared.tagging.bypasses hshared.sound.1 hshared.ordered.1 (by decide))
    (Bypasses.refl s₂ _ Kind.author)

end FillsShared

/-- The comments of a post that is registered are replaced by comments on it. -/
theorem replaceList_onPost (hsound : Sound s) (hordered : s.OrderedIn scope.context)
    (hschema : s.schemaOf scope.context = blogSchema) {pending : Bool}
    (he : (s.registry scope.context).get? h.id.key = some ⟨Kind.post, h, pending⟩)
    {m : Entity model} (hm : s.entity? h.slot = some m)
    (htitle : (m.value Kind.post : Post).title = some p.title) {v : Post}
    (hown : ∀ m ∈ v.members, m.Own s scope.context)
    (hkeys : (mapping.replaceList (k := Kind.comment) scope v.comments (some p.comments)
      (onPost (some h)) s).2.KeysLeft) : ∃ gone comments s₁ s',
      mapping.replaceList (k := Kind.comment) scope v.comments (some p.comments)
        (onPost (some h)) s = (some (MemberList.ofHandles comments), s') ∧
      Clears s scope.context v.members gone s₁ ∧
      MakesAll (T := model) (k := Kind.comment) s₁ scope.context
        (p.comments.map (commentOn h p.title)) comments s' ∧ Run Deed.Native s₁ s' := by
  have hhook : ∀ w, (onPost (some h) w).Leads Advances := fun w => reads_sample.pure _
  have hd : (s.schemaOf scope.context).require (model.entityName Kind.comment) =
      .ok commentDescription := by
    rw [hschema]
    rfl
  -- dropping the old comments leaves the post alone, so each new one finds the title there
  have hforms : ∀ s₁ slots, Confined s s₁ scope.context Kind.comment slots →
      List.Forall₂ (mapping.Forms (T := model) (k := Kind.comment) s₁ scope (onPost (some h)))
        p.comments (p.comments.map (commentOn h p.title)) := by
    intro s₁ slots hconfined
    have hm₁ : s₁.entity? h.slot = some m :=
      (hconfined.entity?_of_other hsound he Kind.noConfusion).trans hm
    refine List.forall₂_map_right_iff.2 (List.forall₂_same.2 ?_)
    intro q _
    exact forms_comment hm₁ htitle q
  have hown' : ∀ r, v.comments = some r → ∀ m ∈ r.members, m.Own s scope.context := by
    intro r hr m hm
    refine hown m ?_
    rw [Post.members, hr]
    exact hm
  exact Mapping.replaceList_of_forms lawful hhook hsound hd
    (fun _ hrun hkeys => hrun.numbered hsound hordered.numbered hkeys) hown' hforms hkeys

theorem fillsPost (hsound : Sound s) (hkeeps : s.KeepsOrder scope.context)
    (htags : s.Ready scope.context Kind.tag "name" Entity.Unused)
    (hauthors : s.Ready scope.context Kind.author "handle" Entity.Unused)
    (hschema : s.schemaOf scope.context = blogSchema) {pending : Bool}
    (he : (s.registry scope.context).get? h.id.key = some ⟨Kind.post, h, pending⟩) {shown : Post}
    (hshown : s.seen? scope.context Kind.post h.id.key = some shown)
    (htitle : shown.title = some p.title) {v : Post}
    (hown : ∀ m ∈ v.members, m.Own s scope.context)
    (hkeys : (fillPost p (mapping.reconcileBelow scope 1) scope h.id v s).2.KeysLeft) :
    ∃ tags authors gone comments s',
      fillPost p (mapping.reconcileBelow scope 1) scope h.id v s =
        (filledPost p v (ToOne.pointTo v.author authors.head?) (MemberSet.ofHandles tags)
          (some (MemberList.ofHandles comments)), s') ∧
      Run Deed.Native s s' ∧ FillsPost s scope.context p h v tags authors gone comments s' := by
  -- what each part leads to, whatever it is
  rcases hset : mapping.syncSet (k := Kind.tag) scope p.tags pure s with ⟨tagSet, s₁⟩
  rcases hone : mapping.syncOne (k := Kind.author) scope v.author p.author s₁ with
    ⟨⟨found, author⟩, s₂⟩
  rcases hlocate : (scope.locate (T := model) Kind.post h.id).outcome s₂ with ⟨parent, s₃⟩
  rcases hlist : mapping.replaceList (k := Kind.comment) scope v.comments (some p.comments)
    (onPost parent.toOption) s₃ with ⟨commentList, s₄⟩
  have hfill := fillPost_eq hset hone hlocate hlist
  rw [hfill] at hkeys ⊢
  rcases run_shared hsound hset hone with ⟨hrun₁, hrun₂⟩
  have hsound₂ := hrun₂.sound (hrun₁.sound hsound)
  have hrun₃ : Run Deed.Native s₂ s₃ := by
    have hrun := (locates (T := model) hsound₂ scope Kind.post h.id).run.proceeds.run
    rwa [hlocate] at hrun
  have hhook : ∀ w, (onPost parent.toOption w).Leads Advances := fun w => reads_sample.pure _
  have hrun₄ : Run Deed.Native s₃ s₄ := by
    have hrun := (lawful.replaceList (T := model) (k := Kind.comment) scope v.comments
      (some p.comments) hhook s₃ (hrun₃.sound hsound₂)).run
    rwa [hlist] at hrun
  -- the shared parts
  rcases fillsShared hsound hkeeps htags hauthors hset hone (hrun₃.keysLeft (hrun₄.keysLeft hkeys))
    with ⟨tags, authors, rfl, hout, hshared⟩
  cases hout
  have hrows₂ := hshared.leaves.rowsOf scope.context
  -- the post is where it was, and is found there
  have hpost₂ := hshared.bypasses (l := Kind.post) (by decide) (by decide)
  rcases Mapping.entity_of_seen? he hshown with ⟨m, hm, hlive, hvalue⟩
  have he₂ := hpost₂.registry _ _ he
  have hm₂ : s₂.entity? h.slot = some m := (hpost₂.entity? _ _ he rfl).trans hm
  have hfound := locate_of_entry hsound₂ he₂ hm₂ hlive
  rw [hlocate] at hfound
  cases hfound
  -- the comments
  have hreplace : mapping.replaceList (k := Kind.comment) scope v.comments (some p.comments)
      (onPost (some h)) s₂ = (commentList, s₄) := hlist
  rcases replaceList_onPost hsound₂ hshared.ordered.2 (hshared.schemaOf.trans hschema) he₂ hm₂
    (hvalue ▸ htitle) (fun m hm => (hown m hm).later hpost₂.registry) (by rwa [hreplace]) with
    ⟨gone, comments, s₃, _, hlist', hclears, hmakes, hrunMakes⟩
  rw [hreplace] at hlist'
  cases hlist'
  have hrun := hrun₁.trans (hrun₂.trans hrun₄)
  have hconfined := hclears.confined.trans hmakes.confined
  have hordered₄ := hkeeps s₄ hrun hkeys ((hconfined.leaves.rowsOf scope.context).trans hrows₂)
  have hbefore := hshared.bypasses (l := Kind.comment) (by decide) (by decide)
  have hafter : ∀ {l : Kind}, l.entityName ≠ Kind.comment.entityName →
      Bypasses s₂ s₄ scope.context l := hconfined.bypasses hsound₂ hordered₄
  refine ⟨tags, authors, gone, comments, s₄, rfl, hrun, ?_⟩
  constructor
  case tagged => exact hshared.tagged_after.widen (Bypasses.refl s _ Kind.tag) (hafter (by decide))
  case authored =>
    exact hshared.authored_before.widen (Bypasses.refl s _ Kind.author) (hafter (by decide))
  case drops =>
    exact hclears.toDrops.widen hbefore.seen hrunMakes (hmakes.confined.leaves.registry _)
  case enters =>
    exact hmakes.toEnters.widen (hshared.leaves.trans hclears.confined.leaves)
      (Bypasses.refl s₄ _ Kind.comment)
  case others =>
    intro key hgone hcomments
    calc s₄.seen? scope.context Kind.comment key
        = s₃.seen? scope.context Kind.comment key := hmakes.others key hcomments
      _ = s₂.seen? scope.context Kind.comment key := hclears.others key hgone
      _ = s.seen? scope.context Kind.comment key := hbefore.seen key
  case leaves => exact hshared.leaves.trans hconfined.leaves
  case bypasses => exact hpost₂.trans (hafter (by decide))

/-! ## Reconciling a post -/

/-- What the context sees of the post; a blank one if it sees none. -/
def postSeen (s : Session model) (c : ContextId) (h : Handle Kind.post) : Post :=
  (s.seen? c Kind.post h.id.key).getD Post.blank

/-- What synchronizing a plain post has done. -/
structure PostSynced (s : Session model) (c : ContextId) (p : PostPlain) (h : Handle Kind.post)
    (tags : List (Handle Kind.tag)) (authors : List (Handle Kind.author))
    (gone comments : List (Handle Kind.comment)) (s' : Session model) : Prop where
  /-- The post is the last one that was seen with the title, or else a new one. -/
  target : Table.Target Post.title (s.seen? c Kind.post) p.title h.id.key
  inserted : s.seen? c Kind.post h.id.key = none → s.entities.size ≤ h.slot ∧
    (s'.registry c).get? h.id.key = some ⟨Kind.post, h, true⟩
  seen : s'.seen? c Kind.post h.id.key = some (s'.value h)
  value : s'.value h = filledPost p (postSeen s c h)
    (ToOne.pointTo (postSeen s c h).author authors.head?) (MemberSet.ofHandles tags)
    (some (MemberList.ofHandles comments))
  tagged : Mapping.Resolved (T := model) (M := mapping) (k := Kind.tag) s c (tagFilling id) p.tags
    tags s'
  members : ∀ m, m ∈ (MemberSet.ofHandles tags).members ↔ ∃ t ∈ tags, m = .ofHandle t
  authored : Mapping.Resolved (T := model) (M := mapping) (k := Kind.author) s c authorFilling
    p.author.toList authors s'
  /-- The comments are new, one for each plain comment, in their order. -/
  commented : Enters (T := model) (k := Kind.comment) s c (p.comments.map (commentOn h p.title))
    comments s'
  /-- Old comments are deleted, and of these all that were live. -/
  drops : Drops s c (postSeen s c h).members gone s'
  dropped : ∀ m ∈ (postSeen s c h).members, m.id.entity = "Comment" → s.Live c m.id →
    ∃ x ∈ gone, x.id = m.id
  /-- Nothing else is done to posts and comments. -/
  posts : ∀ key, key ≠ h.id.key → s'.seen? c Kind.post key = s.seen? c Kind.post key
  others : ∀ key, (∀ x ∈ gone, x.id.key ≠ key) → (∀ x ∈ comments, x.id.key ≠ key) →
    s'.seen? c Kind.comment key = s.seen? c Kind.comment key
  leaves : Leaves s s' c (h.slot :: (tags.map Handle.slot ++ authors.map Handle.slot ++
    (gone.map Handle.slot ++ comments.map Handle.slot)))

/-- A live comment can be seen, as its row can be read. -/
theorem isSome_seen?_of_live (hsound : Sound s) (hwritten : s.RowsWritten) {id : EntityId}
    (hname : id.entity = "Comment") (hlive : s.Live c id) :
    (s.seen? c Kind.comment id.key).isSome := by
  rcases hlive with ⟨e, he, hid, hlive⟩ | ⟨hnone, hrow⟩
  · have hlodged := hsound.lodged he
    have hcall : e.kind.entityName = Kind.comment.entityName :=
      hlodged.name.symm.trans ((congrArg EntityId.entity hid).trans hname)
    have hkind : e.kind = Kind.comment := by
      rcases eq_or_tags_of_entityName hcall with hkind | ⟨hkind, _⟩ | ⟨hkind, _⟩
      · exact hkind
      · cases hkind
      · cases hkind
    rcases hlodged.entity with ⟨m, hm, _⟩
    have hnot : m.deleted = false := (entryDeleted_of_entity? hm).symm.trans hlive
    rw [seen?_of_entry he hkind hm hnot]
    rfl
  · rcases Option.isSome_iff_exists.1 hrow with ⟨row, hrow⟩
    have hread := isSome_decode_of_written (k := .comment) trivial (by decide)
      (hname ▸ hwritten.rowsOf hrow) (some c)
    have hid : (⟨model.entityName Kind.comment, id.key⟩ : EntityId) = id := by
      rcases id with ⟨entity, key⟩
      cases hname
      rfl
    rw [seen?_of_row hnone, hid, hrow]
    exact hread

/-- What reconciling a plain post goes through: the post is opened, filled and closed again. -/
structure PostFilled (s : Session model) (c : ContextId) (p : PostPlain) (h : Handle Kind.post)
    (tags : List (Handle Kind.tag)) (authors : List (Handle Kind.author))
    (gone comments : List (Handle Kind.comment)) (s₁ s₂ s' : Session model) : Prop where
  target : Table.Target Post.title (s.seen? c Kind.post) p.title h.id.key
  made : s.seen? c Kind.post h.id.key = none → s.entities.size ≤ h.slot ∧
    (s₁.registry c).get? h.id.key = some ⟨Kind.post, h, true⟩
  opens : ∃ shown, Opens s c h shown s₁
  fills : FillsPost s₁ c p h (postSeen s c h) tags authors gone comments s₂
  closes : Closes s s₂ c h (filledPost p (postSeen s c h)
    (ToOne.pointTo (postSeen s c h).author authors.head?) (MemberSet.ofHandles tags)
    (some (MemberList.ofHandles comments))) s'
  opened : s₁.OrderedIn c
  filled : Sound s₂
  ordered : s'.OrderedIn c

namespace PostFilled

variable {tags : List (Handle Kind.tag)} {authors : List (Handle Kind.author)}
  {gone comments : List (Handle Kind.comment)}
  (h' : PostFilled s c p h tags authors gone comments s₁ s₂ s')

include h'

/-- Opening the post is nothing to the other types. -/
theorem before (hsound : Sound s) {k : Kind} (hname : k.entityName ≠ Kind.post.entityName) :
    Bypasses s s₁ c k := by
  rcases h'.opens with ⟨shown, hopens⟩
  exact hopens.confined.bypasses hsound h'.opened hname

/-- Closing the post is nothing to the other types. -/
theorem after {k : Kind} (hname : k.entityName ≠ Kind.post.entityName) : Bypasses s₂ s' c k :=
  h'.closes.confined.bypasses h'.filled h'.ordered hname

theorem tagged (hsound : Sound s) : Mapping.Fills (T := model) (M := mapping) (k := Kind.tag) s c
    (tagFilling id) p.tags tags s' :=
  h'.fills.tagged.widen (h'.before hsound (by decide)) (h'.after (by decide))

theorem authored (hsound : Sound s) : Mapping.Fills (T := model) (M := mapping) (k := Kind.author)
    s c authorFilling p.author.toList authors s' :=
  h'.fills.authored.widen (h'.before hsound (by decide)) (h'.after (by decide))

theorem commented : Enters (T := model) (k := Kind.comment) s c
    (p.comments.map (commentOn h p.title)) comments s' := by
  rcases h'.opens with ⟨shown, hopens⟩
  exact h'.fills.enters.widen hopens.confined.leaves (h'.after (by decide))

theorem leaves : Leaves s s' c (h.slot :: (tags.map Handle.slot ++ authors.map Handle.slot ++
    (gone.map Handle.slot ++ comments.map Handle.slot))) := by
  rcases h'.opens with ⟨shown, hopens⟩
  refine ((hopens.confined.leaves.trans h'.fills.leaves).trans h'.closes.confined.leaves).mono ?_
  intro n hn
  simp only [List.mem_append, List.mem_cons, List.not_mem_nil, or_false] at hn ⊢
  tauto

theorem synced (hsound : Sound s) (hwritten : s.RowsWritten) :
    PostSynced s c p h tags authors gone comments s' := by
  have hbefore := h'.before hsound (k := .comment) (by decide)
  have hafter := h'.after (k := .comment) (by decide)
  have hdrops := h'.fills.drops.widen hbefore.seen h'.closes.run hafter.registry
  constructor
  case target => exact h'.target
  case inserted =>
    intro hnone
    rcases h'.made hnone with ⟨hsize, he⟩
    exact ⟨hsize, hafter.registry _ _ (h'.fills.bypasses.registry _ _ he)⟩
  case seen => exact h'.closes.seen.trans (congrArg some h'.closes.value.symm)
  case value => exact h'.closes.value
  case tagged => exact (h'.tagged hsound).resolved
  case members => exact fun m => (h'.tagged hsound).mem_members
  case authored => exact (h'.authored hsound).resolved
  case commented => exact h'.commented
  case drops => exact hdrops
  case dropped =>
    intro m hm hname hlive
    exact hdrops.live m hm hname (isSome_seen?_of_live hsound hwritten hname hlive)
  case posts => exact h'.closes.others
  case others =>
    intro key hgone hnew
    calc s'.seen? c Kind.comment key
        = s₂.seen? c Kind.comment key := hafter.seen key
      _ = s₁.seen? c Kind.comment key := h'.fills.others key hgone hnew
      _ = s.seen? c Kind.comment key := hbefore.seen key
  case leaves => exact h'.leaves

end PostFilled

/-- In a context that is ready for the blog, reconciling a plain post fills the post of its title,
or a new one. -/
theorem reconcile_post (hsound : Sound s) (hkeeps : s.KeepsOrder scope.context)
    (hready : ∀ k : Kind, k = .tag ∨ k = .author ∨ k = .post →
      s.Ready scope.context k k.keyAttribute Entity.Unused)
    (hschema : s.schemaOf scope.context = blogSchema)
    (hown : ∀ key v, Table.Last Post.title (s.seen? scope.context Kind.post) p.title key →
      s.seen? scope.context Kind.post key = some v → ∀ m ∈ v.members, m.Own s scope.context)
    (hkeys : (mapping.reconcile (T := model) (k := Kind.post) scope p pure s).2.KeysLeft) :
    ∃ h tags authors gone comments s₁ s₂ s',
      mapping.reconcile (T := model) (k := Kind.post) scope p pure s = (some h, s') ∧
      PostFilled s scope.context p h tags authors gone comments s₁ s₂ s' := by
  have hrunAll : Run Deed.Native s (mapping.reconcile (T := model) (k := Kind.post) scope p pure s).2 :=
    (lawful.reconcile (T := model) (k := Kind.post) scope p (fun w => reads_sample.pure w) s hsound).run
  have hordered := hkeeps s (.refl s) (hrunAll.keysLeft hkeys) rfl
  have hpreview : ∀ v : Post, ∃ (shown : Post) (payload : Json),
      scope.preview (T := model) (k := Kind.post) v (mapping.naturalKey (k := Kind.post) p) =
        .ok (shown, payload) ∧ shown.title = some p.title := by
    intro v
    rcases preview_eq_ok (k := .post) trivial scope p v with ⟨shown, payload, hok, _, hkey⟩
    exact ⟨shown, payload, hok, text_key_iff.1 hkey⟩
  have hhook : ∀ (v : Post) (a : Session model),
      (pure : Hook model Kind.post) v a = (id v, a) := fun _ _ => rfl
  rcases (identifies_post p).opens hsound hordered.numbered
    (hready .post (Or.inr (Or.inr rfl))) hhook hpreview with
    ⟨h, shown, s₁, htarget, hmade, hopens, htitle, hrun₁, hreconcile⟩
  rcases hopens.entry with ⟨pending, he₁⟩
  rcases hfill : fillPost p (mapping.reconcileBelow scope 1) scope h.id
    (postSeen s scope.context h) s₁ with ⟨v, s₂⟩
  have hresult := hreconcile v s₂ hfill
  rw [hresult] at hkeys hrunAll ⊢
  -- the fill starts from a session whose ids are in order, and keys are left after it
  have hkeys₂ : s₂.KeysLeft := hkeys
  have hsound₁ : Sound s₁ := hrun₁.sound hsound
  have hrun₂ : Run Deed.Native s₁ s₂ := by
    have hrun := (lawful.fill Kind.post p (mapping.reconcileBelow scope 1) scope h.id
      (postSeen s scope.context h) (lawful.reconcileBelow scope 1) s₁ hsound₁).run
    have hend : (mapping.fill (T := model) (k := Kind.post) p (mapping.reconcileBelow scope 1) scope
        h.id (postSeen s scope.context h) s₁).2 = s₂ := congrArg Prod.snd hfill
    rwa [hend] at hrun
  have hrows₁ := hopens.confined.leaves.rowsOf scope.context
  have hordered₁ := hkeeps s₁ hrun₁ (hrun₂.keysLeft hkeys₂) hrows₁
  have hown₁ : ∀ m ∈ (postSeen s scope.context h).members, m.Own s₁ scope.context := by
    intro m hm
    refine Member.Own.later ?_ (hopens.confined.leaves.registry _)
    rcases htarget with hlast | ⟨hnone, _⟩
    · rcases hlast.entry with ⟨v, hv, _⟩
      rw [postSeen, hv] at hm
      exact hown _ v hlast hv m hm
    · -- a new post has no comments
      rw [postSeen, hnone] at hm
      exact absurd hm List.not_mem_nil
  have htags₁ := hopens.confined.ready hsound hsound₁ (l := Kind.tag) (by decide)
    (hready .tag (Or.inl rfl))
  have hauthors₁ := hopens.confined.ready hsound hsound₁ (l := Kind.author) (by decide)
    (hready .author (Or.inr (Or.inl rfl)))
  have hschema₁ : s₁.schemaOf scope.context = blogSchema :=
    hopens.confined.schemaOf.trans hschema
  rcases fillsPost hsound₁ (hkeeps.later hrun₁ hrows₁) htags₁ hauthors₁ hschema₁ he₁ hopens.seen htitle hown₁
    (by rwa [hfill]) with ⟨tags, authors, gone, comments, _, hfilled, hrunFill, hfills⟩
  rw [hfill] at hfilled
  cases hfilled
  -- the post is closed, and what was done to the other types stays
  have hsound₂ : Sound s₂ := hrun₂.sound hsound₁
  have hcloses := hopens.close hsound₂ hfills.bypasses
    (filledPost p (postSeen s scope.context h)
      (ToOne.pointTo (postSeen s scope.context h).author authors.head?) (MemberSet.ofHandles tags)
      (some (MemberList.ofHandles comments)))
  have hrows := (hcloses.confined.leaves.rowsOf scope.context).trans
    ((hfills.leaves.rowsOf scope.context).trans hrows₁)
  exact ⟨h, tags, authors, gone, comments, s₁, s₂, _, rfl, htarget, hmade, ⟨shown, hopens⟩, hfills,
    hcloses, hordered₁, hsound₂, hkeeps _ (hrun₁.trans (hrun₂.trans hcloses.run)) hkeys hrows⟩

/-- Synchronizing a plain post, from whatever state a session can be in without imports. -/
theorem synchronize_post (hrun : Run Deed.Native .empty s) (hblog : BlogReady s scope.context)
    (hown : ∀ key v, Table.Last Post.title (s.seen? scope.context Kind.post) p.title key →
      s.seen? scope.context Kind.post key = some v → ∀ m ∈ v.members, m.Own s scope.context)
    (hkeys : (mapping.reconcile (T := model) (k := Kind.post) scope p pure s).2.KeysLeft) :
    ∃ h tags authors gone comments s',
      mapping.reconcile (T := model) (k := Kind.post) scope p pure s = (some h, s') ∧
      PostSynced s scope.context p h tags authors gone comments s' ∧
      ∀ s₁ s₂ summary, Run (fun deed => deed.Native ∧ deed ≠ .saved scope.context) s' s₁ →
        s₁.KeysLeft → (scope.save (T := model)).outcome s₁ = (.ok summary, s₂) →
        ∀ m ∈ (postSeen s scope.context h).members, m.id.entity = "Comment" →
          s.Live scope.context m.id ∨ ((s.rowsOf scope.context).row? m.id).isSome →
            (s₂.rowsOf scope.context).row? m.id = none := by
  have hsound : Sound s := hrun.sound sound_empty
  have hwritten : s.RowsWritten := hrun.rowsWritten
  have hrunAll : Run Deed.Native s (mapping.reconcile (T := model) (k := Kind.post) scope p pure s).2 :=
    (lawful.reconcile (T := model) (k := Kind.post) scope p (fun w => reads_sample.pure w) s hsound).run
  have hordered : Ordered s := hrun.ordered ordered_empty (hrunAll.keysLeft hkeys)
  rcases reconcile_post hsound (keepsOrder_of_native hrun scope.context)
      (fun k hk => hblog.ready hsound hwritten hk) hblog.schema hown hkeys with
    ⟨h, tags, authors, gone, comments, s₁, s₂, s', hresult, hfilled⟩
  rw [hresult] at hrunAll
  have hsynced := hfilled.synced hsound hwritten
  refine ⟨h, tags, authors, gone, comments, s', hresult, hsynced, ?_⟩
  intro s₃ s₄ summary hlater hkeys₃ hsave m hm hname hthere
  refine hsynced.drops.row?_after_save hrun hrunAll (hsynced.leaves.registry _) hlater hkeys₃ hsave hm
    hname ?_
  have hpresent : s.Live scope.context m.id ∨ ∃ e,
      (s.registry scope.context).get? m.id.key = some e ∧ e.id = m.id ∧ s.entryDeleted e = true := by
    rcases hthere with hlive | hrow
    · exact Or.inl hlive
    · exact hordered.unambiguous.live_or_deleted hsound hrow
  exact hpresent.imp_left (isSome_seen?_of_live hsound hwritten hname)

/-! ## A post that is known from its row -/

def firstPost : PostPlain :=
  ⟨"Hello", none, some ⟨"ann", some "Ann"⟩, [⟨"red", none⟩], [⟨"bob", "hi"⟩]⟩

def secondPost : PostPlain :=
  ⟨"Hello", some "again", none, [⟨"blue", none⟩, ⟨"red", some "r"⟩],
    [⟨"cid", "one"⟩, ⟨"dan", "two"⟩]⟩

/-- The first context has synchronized and saved a post. -/
def postSaved : Session model :=
  let s := (mapping.reconcile (T := model) (k := Kind.post) (.within ⟨1⟩) firstPost pure bothOpen).2
  ((Scope.within ⟨1⟩).save (T := model)).outcome s |>.2

theorem run_postSaved : Run Deed.Native .empty postSaved := by
  have hopen : Run Deed.Native .empty bothOpen :=
    (((Step.openStore .empty blogSchema .default).run trivial).trans
      ((Step.openContext _ ⟨0⟩ rfl).run trivial)).trans ((Step.openContext _ ⟨0⟩ rfl).run trivial)
  have hfill := (lawful.reconcile (T := model) (k := Kind.post) (.within ⟨1⟩) firstPost
    (fun v => reads_sample.pure v) bothOpen (hopen.sound sound_empty)).run
  have hsave := (advances_save (T := model) (.within ⟨1⟩) _
    ((hopen.trans hfill).sound sound_empty)).run
  exact (hopen.trans hfill).trans hsave

/-- The second context, which has read nothing yet, synchronizes the post: it finds the row, makes
two comments, and deletes the one that it had before. -/
theorem synchronize_secondPost : ∃ h tags authors gone comments s',
    PostSynced postSaved ⟨2⟩ secondPost h tags authors gone comments s' ∧ h.id = ⟨"Post", 1⟩ ∧
      comments.length = 2 ∧ ∃ x ∈ gone, x.id = ⟨"Comment", 4⟩ := by
  have hregistry : (postSaved.registry ⟨2⟩).entries = [] :=
    List.isEmpty_iff.1 (show (postSaved.registry ⟨2⟩).isEmpty = true by decide +kernel)
  have hnone : ∀ key, (postSaved.registry ⟨2⟩).get? key = none := by
    intro key
    rw [SortedMap.get?, hregistry]
    rfl
  have hblog : BlogReady postSaved (Scope.within ⟨2⟩).context := by
    refine ⟨by decide +kernel, by decide +kernel, ?_, ?_, ?_⟩
    · intro key e m he
      cases (hnone key).symm.trans he
    · intro key e he
      cases (hnone key).symm.trans he
    · have hread : ∀ row ∈ postSaved.rowsNamed ⟨2⟩ Kind.tag, (Tag.ofJson? row.2.payload).isSome := by
        decide +kernel
      intro key row hrow _
      exact hread (key, row) (mem_rowsNamed_iff.2 hrow)
  -- what is read from a row is not bound yet
  have hunbound : ∀ row ∈ postSaved.rowsNamed ⟨2⟩ Kind.post,
      ∀ v ∈ Post.ofJson? (some ⟨2⟩) row.2.payload, ∀ m ∈ v.members, m.bound = none := by
    decide +kernel
  have hown : ∀ key v, Table.Last Post.title (postSaved.seen? ⟨2⟩ Kind.post) secondPost.title key →
      postSaved.seen? ⟨2⟩ Kind.post key = some v → ∀ m ∈ v.members, m.Own postSaved ⟨2⟩ := by
    intro key v _ hv m hm h hbound
    rw [seen?_of_row (hnone key)] at hv
    rcases Option.bind_eq_some_iff.1 hv with ⟨row, hrow, hdecode⟩
    cases (hunbound (key, row) (mem_rowsNamed_iff.2 hrow) v hdecode m hm).symm.trans hbound
  rcases synchronize_post run_postSaved hblog hown (by decide +kernel) with
    ⟨h, tags, authors, gone, comments, s', hresult, hsynced, _⟩
  have hid : h.id = ⟨"Post", 1⟩ := by
    have hfound : ((mapping.reconcile (T := model) (k := Kind.post) (.within ⟨2⟩) secondPost pure
        postSaved).1.map Handle.id) = some ⟨"Post", 1⟩ := by decide +kernel
    rw [hresult] at hfound
    exact Option.some.inj hfound
  have hold : (((postSaved.seen? ⟨2⟩ Kind.post 1).getD Post.blank).members.map Member.id) =
      [⟨"Comment", 4⟩] := by decide +kernel
  refine ⟨h, tags, authors, gone, comments, s', hsynced, hid, hsynced.commented.values.length_eq.symm,
    ?_⟩
  have hmember : (⟨"Comment", 4⟩ : EntityId) ∈
      (postSeen postSaved ⟨2⟩ h).members.map Member.id := by
    rw [postSeen, hid, hold]
    exact List.mem_singleton_self _
  rcases List.mem_map.1 hmember with ⟨m, hm, hmid⟩
  have hlive : postSaved.Live ⟨2⟩ m.id := by
    rw [hmid]
    exact Or.inr ⟨hnone 4, by decide +kernel⟩
  rcases hsynced.dropped m hm (by rw [hmid]) hlive with ⟨x, hx, hxid⟩
  exact ⟨x, hx, hxid.trans hmid⟩

/-- With a coded tag of the name in the context, no tag is found by the name while the post is
filled, and the post gets two tags for the one name that it has twice. -/
theorem synchronize_post_red_twice : ∃ h : Handle Kind.post,
    Run Deed.Native .empty codedRed ∧ codedRed.takesPending ⟨1⟩ = true ∧
      codedRed.schemaOf ⟨1⟩ = blogSchema ∧ (∀ m ∈ codedRed.entities, m.Unused) ∧
      (∀ key, codedRed.seen? ⟨1⟩ Kind.post key = none) ∧
      (mapping.reconcile (T := model) (k := Kind.post) (.within ⟨1⟩)
        ⟨"Hello", none, none, [⟨"red", none⟩, ⟨"red", none⟩], []⟩ pure codedRed).1 = some h ∧
      (((mapping.reconcile (T := model) (k := Kind.post) (.within ⟨1⟩)
        ⟨"Hello", none, none, [⟨"red", none⟩, ⟨"red", none⟩], []⟩ pure codedRed).2.value h :
          Post).tags.map MemberSet.ids) = some [⟨"Tag", 3⟩, ⟨"Tag", 4⟩] := by
  refine ⟨⟨1, ⟨"Post", 2⟩, ⟨1⟩⟩, run_codedRed, rfl, rfl, ?_, ?_, by decide +kernel,
    by decide +kernel⟩
  · intro m hm
    have hentities : codedRed.entities =
        #[.new (T := model) Kind.codedTag (⟨some "red", none⟩ : CodedTag) true] := rfl
    rw [hentities] at hm
    cases Array.mem_singleton.1 hm
    exact ⟨rfl, rfl⟩
  · intro key
    cases hentry : (codedRed.registry ⟨1⟩).get? key with
    | none => exact seen?_of_row hentry
    | some e =>
      -- nothing but the coded tag is registered
      have hregistry : (codedRed.registry ⟨1⟩).toList =
          [(1, ⟨Kind.codedTag, ⟨0, ⟨"Tag", 1⟩, ⟨1⟩⟩, true⟩)] := rfl
      have hmem := SortedMap.mem_toList_iff.2 hentry
      rw [hregistry] at hmem
      cases List.mem_singleton.1 hmem
      unfold seen?
      rw [hentry]
      exact if_neg fun h => Kind.noConfusion h.1

end Reconcile.Sample
