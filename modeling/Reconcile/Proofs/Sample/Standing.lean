import Reconcile.Proofs.Mapping.Originating
import Reconcile.Proofs.Sample.Duplicates
import Reconcile.Proofs.Sample.Fitting
import Reconcile.Proofs.Sample.Posts
import Reconcile.Proofs.Sample.Showing

/-!
# A post in a context of its own

A context that has nothing registered and nothing to read is filled with a plain post.  Then the
post stands there with its author, its tags and its comments, and with nothing else (`PostStands`).
-/

namespace Reconcile.Sample

open Session

variable {s s' s₁ s₂ : Session model} {scope : Scope} {c : ContextId} {p : PostPlain}
  {h : Handle Kind.post}

/-! ## Blank contexts -/

/-- Nothing is registered in the context, and there is nothing to read. -/
structure Blank (s : Session model) (c : ContextId) : Prop where
  registry : ∀ key, (s.registry c).get? key = none
  rows : s.rowsOf c = .empty

theorem Blank.seen? (hblank : Blank s c) (k : Kind) (key : UInt64) : s.seen? c k key = none := by
  rw [seen?_of_row (hblank.registry key), hblank.rows]
  rfl

theorem Blank.ready (hblank : Blank s c) (hschema : s.schemaOf c = blogSchema)
    (hpending : s.takesPending c = true) {k : Kind} (hk : k = .tag ∨ k = .author ∨ k = .post) :
    s.Ready c k k.keyAttribute Entity.Unused where
  pending := hpending
  described := described_of_blog hschema hk
  readable key row hrow _ := by
    rw [hblank.rows] at hrow
    cases hrow
  live key e m he := by cases (hblank.registry key).symm.trans he

theorem originating (scope : Scope) : mapping.Originating (T := model) Kind.IsBlog scope := by
  intro k hk p nested this v hnested
  exact leads_fill ((reads_originates scope.context).mono fun _ _ => trivial)
    (originates_markDeleted scope.context) hk p hnested scope this v

/-! ## The post with its parts -/

/-- The value of a post that has these members. -/
def postOf (p : PostPlain) (author : Option (Handle Kind.author)) (tags : MemberSet Kind.tag)
    (comments : List (Handle Kind.comment)) : Post :=
  ⟨some p.title, p.body, author.map ToOne.ofHandle, some tags, some (MemberList.ofHandles comments)⟩

/-- The entity has a value that can be saved in the blog, and if it is a post, it is this one. -/
structure Belongs (s : Session model) (c : ContextId) (h : Handle Kind.post) (e : Entry model) :
    Prop where
  proper : ∃ v : Value e.kind, v.Proper ∧ s.Shows (T := model) c e.handle v
  alone : e.id.entity = "Post" → e.id = h.id

/-- The context has the post with its parts, and nothing else. -/
structure PostStands (s : Session model) (c : ContextId) (p : PostPlain) (h : Handle Kind.post)
    (author : Option (Handle Kind.author)) (set : MemberSet Kind.tag)
    (tags : List (Handle Kind.tag)) (comments : List (Handle Kind.comment)) : Prop where
  ordered : s.OrderedIn c
  schemaOf : s.schemaOf c = blogSchema
  rows : s.rowsOf c = .empty
  post : s.Shows (T := model) c h (postOf p author set comments)
  author : Option.Rel (fun (a : Handle Kind.author) (q : AuthorPlain) =>
    s.Shows (T := model) c a (⟨some q.handle, q.name⟩ : Author)) author p.author
  members : set.members = tags.map .ofHandle
  tags : ∃ qs, List.Forall₂ (fun (t : Handle Kind.tag) (q : TagPlain) =>
    s.Shows (T := model) c t (⟨some q.name, q.colour⟩ : Tag)) tags qs ∧
      sortStable TagPlain.compare qs = TagPlain.merge p.tags
  comments : List.Forall₂ (fun (x : Handle Kind.comment) (q : CommentPlain) =>
    s.Shows (T := model) c x (commentOn h p.title q)) comments p.comments
  entries : ∀ key e, (s.registry c).get? key = some e → Belongs s c h e
  unused : ∀ key e m, (s.registry c).get? key = some e → s.entity? e.slot = some m → m.Unused

/-- What is seen of an entity of another type belongs to the post if it can be saved. -/
theorem belongs_of_shows {k : Kind} {x : Handle k} {v : Value k}
    (hshows : s.Shows (T := model) c x v) (hs : Sound s) (hname : k.entityName ≠ "Post")
    (hproper : v.Proper) {key : UInt64} {e : Entry model} (he : (s.registry c).get? key = some e)
    (hslot : e.slot = x.slot) : Belongs s c h e := by
  rcases hshows.entry_of_slot hs he hslot with ⟨pending, rfl⟩
  exact ⟨⟨v, hproper, hshows⟩, fun hpost => absurd ((hshows.name hs).symm.trans hpost) hname⟩

theorem proper_commentOn (hs : Sound s) {v : Post} (hpost : s.Shows (T := model) c h v)
    (title : String) (q : CommentPlain) : Value.Proper (k := .comment) (commentOn h title q) := by
  refine ⟨rfl, ?_⟩
  intro r hr
  cases hr
  exact hpost.name hs

/-! ## Parts side by side -/

section Parts

variable {α β : Type} {as : List α} {bs : List β}

theorem exists_of_rel {R : α → β → Prop} {o : Option α} {o' : Option β} (hrel : Option.Rel R o o') :
    ∀ a ∈ o, ∃ b, R a b := by
  intro a ha
  cases hrel with
  | none => cases ha
  | some h =>
    cases ha
    exact ⟨_, h⟩

theorem rel_map {γ δ : Type} {R : α → β → Prop} {S : γ → δ → Prop} {f : α → γ} {g : β → δ}
    (h : ∀ a b, R a b → S (f a) (g b)) {o : Option α} {o' : Option β} (hrel : Option.Rel R o o') :
    Option.Rel S (o.map f) (o'.map g) := by
  cases hrel with
  | none => exact .none
  | some hab => exact .some (h _ _ hab)

theorem exists_mem_zip_right (hlength : bs.length = as.length) {b : β} (hb : b ∈ bs) :
    ∃ a, (a, b) ∈ as.zip bs := by
  rw [← List.map_snd_zip hlength.le] at hb
  rcases List.mem_map.1 hb with ⟨⟨a, _⟩, hat, rfl⟩
  exact ⟨a, hat⟩

theorem exists_mem_zip_left (hlength : bs.length = as.length) {a : α} (ha : a ∈ as) :
    ∃ b, (a, b) ∈ as.zip bs := by
  rw [← List.map_fst_zip hlength.ge] at ha
  rcases List.mem_map.1 ha with ⟨⟨_, b⟩, hat, rfl⟩
  exact ⟨b, hat⟩

theorem exists_of_forall₂ {R : α → β → Prop} (hall : List.Forall₂ R as bs) :
    ∀ a ∈ as, ∃ b, R a b := by
  intro a ha
  rcases exists_mem_zip_left hall.length_eq.symm ha with ⟨b, hat⟩
  exact ⟨b, (List.forall₂_iff_zip.1 hall).2 hat⟩

end Parts

/-! ## Filling a blank context -/

section Filled

variable {tags : List (Handle Kind.tag)} {authors : List (Handle Kind.author)}
  {gone comments : List (Handle Kind.comment)}

theorem Blank.postSeen (hblank : Blank s c) (h : Handle Kind.post) : postSeen s c h = Post.blank := by
  rw [Sample.postSeen, hblank.seen?]
  rfl

/-- There were no comments to delete. -/
theorem Blank.gone_eq_nil (hblank : Blank s c)
    (hdrops : Drops (T := model) (k := Kind.comment) s₁ c (Sample.postSeen s c h).members gone s₂) :
    gone = [] := by
  refine List.eq_nil_iff_forall_not_mem.2 ?_
  intro x hx
  rcases hdrops.member x hx with ⟨m, hm, _⟩
  rw [hblank.postSeen] at hm
  cases hm

variable (hfilled : PostFilled s c p h tags authors gone comments s₁ s₂ s') (hblank : Blank s c)
  (hsound : Sound s)

include hfilled hblank hsound

theorem PostFilled.shows_tag {q : TagPlain} {t : Handle Kind.tag} (hat : (q, t) ∈ p.tags.zip tags) :
    s'.Shows (T := model) c t (⟨some q.name, TagPlain.lastColour p.tags q.name⟩ : Tag) := by
  have htagged := hfilled.tagged hsound
  rcases List.of_mem_zip hat with ⟨hq, ht⟩
  refine ⟨htagged.entry t ht, ?_⟩
  have hseen := htagged.seen hat
  rw [hblank.seen? Kind.tag] at hseen
  exact hseen.trans (congrArg some (refill_tag (List.mem_map.2 ⟨q, hq, rfl⟩)))

theorem PostFilled.exists_shows_tag {t : Handle Kind.tag} (ht : t ∈ tags) : ∃ q : TagPlain,
    s'.Shows (T := model) c t (⟨some q.name, TagPlain.lastColour p.tags q.name⟩ : Tag) := by
  rcases exists_mem_zip_right (hfilled.tagged hsound).resolved.length ht with ⟨q, hat⟩
  exact ⟨q, hfilled.shows_tag hblank hsound hat⟩

/-- The tags in the set, in its order. -/
theorem PostFilled.exists_tags : ∃ (ts : List (Handle Kind.tag)) (qs : List TagPlain),
    (MemberSet.ofHandles tags).members = ts.map .ofHandle ∧
    List.Forall₂ (fun (t : Handle Kind.tag) (q : TagPlain) =>
      s'.Shows (T := model) c t (⟨some q.name, q.colour⟩ : Tag)) ts qs ∧
    sortStable TagPlain.compare qs = TagPlain.merge p.tags := by
  have htagged := hfilled.tagged hsound
  have hresolved := htagged.resolved
  rcases htagged.exists_members with ⟨ts, hmembers, hnodup, hmem⟩
  -- every tag was resolved from a plain tag, and shows its name with the last colour
  have hshown : ∀ t ∈ ts, ∃ q, (q, t) ∈ p.tags.zip tags ∧ plainTag (s'.value t) =
      ⟨q.name, TagPlain.lastColour p.tags q.name⟩ := by
    intro t ht
    rcases exists_mem_zip_right hresolved.length ((hmem t).1 ht) with ⟨q, hat⟩
    have hshows := hfilled.shows_tag hblank hsound hat
    rcases hshows.listed with ⟨pending, he⟩
    refine ⟨q, hat, ?_⟩
    rw [Mapping.value_of_seen? (T := model) he hshows.seen]
    rfl
  refine ⟨ts, ts.map fun t => plainTag (s'.value t), hmembers, ?_, ?_⟩
  · refine List.forall₂_map_right_iff.2 (List.forall₂_same.2 ?_)
    intro t ht
    rcases hshown t ht with ⟨q, hat, hplain⟩
    have hshows := hfilled.shows_tag hblank hsound hat
    rwa [hplain]
  · refine TagPlain.merge_of_colours ?_ ?_ ?_
    · rw [List.map_map]
      refine List.Nodup.map_on ?_ hnodup
      intro t ht t' ht' hname
      rcases hshown t ht with ⟨q, hat, hplain⟩
      rcases hshown t' ht' with ⟨q', hat', hplain'⟩
      refine (hresolved.same q t q' t' hat hat').2 ?_
      have hname : (plainTag (s'.value t)).name = (plainTag (s'.value t')).name := hname
      rwa [hplain, hplain'] at hname
    · intro name
      constructor
      · intro hin
        rw [List.map_map] at hin
        rcases List.mem_map.1 hin with ⟨t, ht, rfl⟩
        rcases hshown t ht with ⟨q, hat, hplain⟩
        exact List.mem_map.2 ⟨q, (List.of_mem_zip hat).1, (congrArg TagPlain.name hplain).symm⟩
      · intro hin
        rcases List.mem_map.1 hin with ⟨q, hq, rfl⟩
        rcases exists_mem_zip_left hresolved.length hq with ⟨t, hat⟩
        have ht := (hmem t).2 (List.of_mem_zip hat).2
        rcases hshown t ht with ⟨q', hat', hplain⟩
        have hsame : q.name = q'.name := (hresolved.same q t q' t hat hat').1 rfl
        exact List.mem_map.2 ⟨_, List.mem_map.2 ⟨t, ht, rfl⟩,
          (congrArg TagPlain.name hplain).trans hsame.symm⟩
    · intro q hq
      rcases List.mem_map.1 hq with ⟨t, ht, rfl⟩
      rcases hshown t ht with ⟨q, _, hplain⟩
      rw [hplain]

theorem PostFilled.shows_author : Option.Rel (fun (a : Handle Kind.author) (q : AuthorPlain) =>
    s'.Shows (T := model) c a (⟨some q.handle, q.name⟩ : Author)) authors.head? p.author := by
  have hauthored := hfilled.authored hsound
  have hlength := hauthored.resolved.length
  cases hq : p.author with
  | none =>
    rw [hq] at hlength
    rw [List.eq_nil_of_length_eq_zero hlength]
    exact .none
  | some q =>
    rw [hq] at hauthored hlength
    rcases List.length_eq_one_iff.1 hlength with ⟨a, rfl⟩
    refine .some ⟨hauthored.entry a (List.mem_singleton_self a), ?_⟩
    have hseen := hauthored.seen (p := q) (h := a) (List.mem_singleton_self _)
    rw [hblank.seen? Kind.author] at hseen
    refine hseen.trans (congrArg some ?_)
    have hmine : [q].filter (fun q' => authorFilling.keyOf q' = authorFilling.keyOf q) = [q] :=
      List.filter_eq_self.2 fun q' hq' => by rw [List.mem_singleton.1 hq']; exact decide_eq_true rfl
    exact congrArg (List.foldl _ Author.blank) hmine

omit hblank hsound in
theorem PostFilled.shows_comments : List.Forall₂ (fun (x : Handle Kind.comment) (q : CommentPlain) =>
    s'.Shows (T := model) c x (commentOn h p.title q)) comments p.comments := by
  have hcommented := hfilled.commented
  have hvalues := (List.forall₂_map_left_iff.1 hcommented.values).flip
  refine ((List.forall₂_and_left _ _).2 ⟨hcommented.entry, hvalues⟩).imp ?_
  rintro x q ⟨he, hseen⟩
  exact ⟨⟨true, he⟩, hseen⟩

omit hsound in
theorem PostFilled.shows_post : s'.Shows (T := model) c h
    (postOf p authors.head? (MemberSet.ofHandles tags) comments) := by
  rcases hfilled.made (hblank.seen? Kind.post h.id.key) with ⟨_, he₁⟩
  have he := hfilled.closes.confined.leaves.registry c _ _ (hfilled.fills.bypasses.registry _ _ he₁)
  refine ⟨⟨true, he⟩, hfilled.closes.seen.trans (congrArg some ?_)⟩
  have hbody : assign none p.body false = p.body := by cases p.body <;> rfl
  have hauthor : ToOne.pointTo none authors.head? = authors.head?.map ToOne.ofHandle := by
    cases authors.head? <;> rfl
  rw [hblank.postSeen, filledPost, Post.blank, hbody, hauthor]
  rfl

/-- The post refers to entities of the right types. -/
theorem PostFilled.proper_post : Value.Proper (k := .post)
    (postOf p authors.head? (MemberSet.ofHandles tags) comments) := by
  have hs' : Sound s' := hfilled.ordered.sound
  have htagged := hfilled.tagged hsound
  refine ⟨rfl, ?_, ?_, ?_⟩
  · intro r hr
    rcases Option.map_eq_some_iff.1 hr with ⟨a, ha, rfl⟩
    rcases exists_of_rel (hfilled.shows_author hblank hsound) a ha with ⟨q, hshows⟩
    exact hshows.name hs'
  · intro r hr id hid
    cases hr
    have hids : (MemberSet.ofHandles tags).ids = (MemberSet.ofHandles tags).members.map Member.id :=
      (MemberSet.map_id_members _).symm
    rw [hids] at hid
    rcases List.mem_map.1 hid with ⟨m, hm, rfl⟩
    rcases htagged.mem_members.1 hm with ⟨t, ht, rfl⟩
    rcases hfilled.exists_shows_tag hblank hsound ht with ⟨q, hshows⟩
    exact hshows.name hs'
  · intro r hr id hid
    cases hr
    have hids : (MemberList.ofHandles comments).ids = comments.map Handle.id := List.map_map
    rw [hids] at hid
    rcases List.mem_map.1 hid with ⟨x, hx, rfl⟩
    rcases exists_of_forall₂ hfilled.shows_comments x hx with ⟨q, hshows⟩
    exact hshows.name hs'

/-- Nothing but the post and its parts has come into the registry: without rows an entry is pending,
and what is pending was made for one of these. -/
theorem PostFilled.entry_cases (hadds : AddsPending s s' c) {key : UInt64} {e : Entry model}
    (he : (s'.registry c).get? key = some e) :
    e.slot = h.slot ∨ (∃ t ∈ tags, e.slot = t.slot) ∨ (∃ a ∈ authors.head?, e.slot = a.slot) ∨
      ∃ x ∈ comments, e.slot = x.slot := by
  have hlength := (hfilled.authored hsound).resolved.length
  have hgone : gone = [] := hblank.gone_eq_nil hfilled.fills.drops
  rcases hfilled.leaves.added c key e he with hold | ⟨_, _, hslot | hread⟩
  · cases (hblank.registry key).symm.trans hold
  · rw [hgone, List.map_nil, List.nil_append, List.mem_cons, List.mem_append, List.mem_append]
      at hslot
    rcases hslot with hpost | (htag | hauthor) | hcomment
    · exact Or.inl hpost
    · rcases List.mem_map.1 htag with ⟨t, ht, hsame⟩
      exact Or.inr (Or.inl ⟨t, ht, hsame.symm⟩)
    · rcases List.mem_map.1 hauthor with ⟨a, ha, hsame⟩
      have hfew : authors.length ≤ 1 := hlength.trans_le (Option.length_toList_le)
      rcases List.length_eq_one_iff.1 (hfew.antisymm (List.length_pos_of_mem ha)) with ⟨a', rfl⟩
      exact Or.inr (Or.inr (Or.inl ⟨a, congrArg some (List.mem_singleton.1 ha).symm, hsame.symm⟩))
    · rcases List.mem_map.1 hcomment with ⟨x, hx, hsame⟩
      exact Or.inr (Or.inr (Or.inr ⟨x, hx, hsame.symm⟩))
  · -- what was read is not pending
    rcases (hfilled.ordered.sound.lodged he).entity with ⟨m, hm, _⟩
    rcases hadds.entry key e m he hm with ⟨hpending, _⟩ | ⟨_, hold, _⟩
    · cases hpending.symm.trans hread
    · cases (hblank.registry key).symm.trans hold

theorem PostFilled.belongs (hadds : AddsPending s s' c) {key : UInt64} {e : Entry model}
    (he : (s'.registry c).get? key = some e) : Belongs s' c h e := by
  have hs' : Sound s' := hfilled.ordered.sound
  have hpost := hfilled.shows_post hblank
  rcases hfilled.entry_cases hblank hsound hadds he with
    hslot | ⟨t, ht, hslot⟩ | ⟨a, ha, hslot⟩ | ⟨x, hx, hslot⟩
  · rcases hpost.entry_of_slot hs' he hslot with ⟨pending, rfl⟩
    exact ⟨⟨_, hfilled.proper_post hblank hsound, hpost⟩, fun _ => rfl⟩
  · rcases hfilled.exists_shows_tag hblank hsound ht with ⟨q, hshows⟩
    exact belongs_of_shows hshows hs' (by decide) rfl he hslot
  · rcases exists_of_rel (hfilled.shows_author hblank hsound) a ha with ⟨q, hshows⟩
    exact belongs_of_shows hshows hs' (by decide) rfl he hslot
  · rcases exists_of_forall₂ hfilled.shows_comments x hx with ⟨q, hshows⟩
    exact belongs_of_shows hshows hs' (by decide) (proper_commentOn hs' hpost p.title q) he hslot

theorem PostFilled.stands (hadds : AddsPending s s' c) (hschema : s.schemaOf c = blogSchema) :
    ∃ set ts, PostStands s' c p h authors.head? set ts comments := by
  rcases hfilled.exists_tags hblank hsound with ⟨ts, qs, hmembers, htags, hmerge⟩
  refine ⟨MemberSet.ofHandles tags, ts, ?_⟩
  constructor
  case ordered => exact hfilled.ordered
  case schemaOf => exact hadds.schemaOf.trans hschema
  case rows => exact hadds.rows
  case post => exact hfilled.shows_post hblank
  case author => exact hfilled.shows_author hblank hsound
  case members => exact hmembers
  case tags => exact ⟨qs, htags, hmerge⟩
  case comments => exact hfilled.shows_comments
  case entries => exact fun key e he => hfilled.belongs hblank hsound hadds he
  case unused =>
    intro key e m he hm
    rcases hadds.entry key e m he hm with ⟨_, hunused⟩ | ⟨_, hold, _⟩
    · exact hunused
    · cases (hblank.registry key).symm.trans hold

end Filled

/-- A plain post is filled into a context that has nothing yet. -/
theorem reconcile_blank (hrun : Run (fun _ => True) .empty s) (hblank : Blank s scope.context)
    (hschema : s.schemaOf scope.context = blogSchema)
    (hpending : s.takesPending scope.context = true)
    (hkeys : (mapping.reconcile (T := model) (k := Kind.post) scope p pure s).2.KeysLeft) :
    ∃ h s' author set tags comments,
      mapping.reconcile (T := model) (k := Kind.post) scope p pure s = (some h, s') ∧
      s'.storeIdOf? scope.context = s.storeIdOf? scope.context ∧
      PostStands s' scope.context p h author set tags comments := by
  have hsound : Sound s := hrun.sound sound_empty
  have hown : ∀ key v, Table.Last Post.title (s.seen? scope.context Kind.post) p.title key →
      s.seen? scope.context Kind.post key = some v → ∀ m ∈ v.members, m.Own s scope.context := by
    intro key v _ hv
    cases (hblank.seen? Kind.post key).symm.trans hv
  rcases reconcile_post hsound (keepsOrder_of_no_rows hrun hblank.rows)
      (fun k hk => hblank.ready hschema hpending hk) hschema hown hkeys with
    ⟨h, tags, authors, gone, comments, s₁, s₂, s', hresult, hfilled⟩
  -- there is nothing to read, so all that comes into the registry is the context's own
  have hadds : AddsPending s s' scope.context := by
    have hblog : Kind.post.IsBlog := trivial
    have horiginates := Mapping.originates_reconcileBelow lawful (originating scope) _ hblog p
      (Nat.lt_succ_self (mapping.weight (T := model) (k := Kind.post) p)) id s
    have hend : (mapping.reconcileBelow scope (mapping.weight (k := Kind.post) p + 1) Kind.post p
        (Nat.lt_succ_self _) (fun v => return id v) s).2 = s' := congrArg Prod.snd hresult
    rw [hend] at horiginates
    exact horiginates.adds hsound hblank.rows
  rcases hfilled.stands hblank hsound hadds hschema with ⟨set, ts, hstands⟩
  exact ⟨h, s', authors.head?, set, ts, comments, hresult, hfilled.leaves.storeIdOf? _, hstands⟩

end Reconcile.Sample
