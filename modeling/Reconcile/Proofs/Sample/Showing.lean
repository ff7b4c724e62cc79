import Mathlib.Data.List.Dedup
import Mathlib.Data.Option.Basic
import Reconcile.Proofs.Mapping.Meeting
import Reconcile.Proofs.Query.Sorting
import Reconcile.Proofs.Sample.Keys
import Reconcile.Proofs.Sample.Tags

/-!
# Plain posts

A plain post comes back with its tags merged: one for each name, with the last colour that was given
for it, sorted.  That is what is read off a post whose members are looked up and found
(`plainPost_of_meets`), whatever order its set of tags is in (`merge_of_colours`).
-/

namespace Reconcile.Sample

open Session

/-! ## Merged tags -/

namespace TagPlain

/-- The last colour that is given for the name. -/
def lastColour (ps : List TagPlain) (name : String) : Option String :=
  ((ps.filter fun p => p.name = name).filterMap TagPlain.colour).getLast?

/-- One plain tag for each name, with the last colour that is given for it, sorted. -/
def merge (ps : List TagPlain) : List TagPlain :=
  sortStable compare ((ps.map TagPlain.name).dedup.map fun name => ⟨name, lastColour ps name⟩)

theorem compare_eq_lex : compare = compareLex (compareOn name) (compareOn colour) := by
  funext p q
  rcases p with ⟨m, _ | a⟩ <;> rcases q with ⟨n, _ | b⟩ <;> rfl

theorem arranges_compare : Arranges (fun _ => True) compare := by
  have htotal : Std.TransCmp compare := by
    rw [compare_eq_lex]
    infer_instance
  exact ⟨fun _ _ => Std.OrientedCmp.eq_swap, fun _ _ _ => Std.TransCmp.isLE_trans⟩

theorem eq_of_compare {p q : TagPlain} (h : compare p q = .eq) : p = q := by
  rw [compare_eq_lex] at h
  have hparts : p.name = q.name ∧ p.colour = q.colour := by
    simpa [compareLex, compareOn] using h
  rcases p with ⟨name, colour⟩
  rcases q with ⟨name', colour'⟩
  cases hparts.1
  cases hparts.2
  rfl

/-- Plain tags that have the names of others, each once and with its last colour, are these others
merged, when they are sorted. -/
theorem merge_of_colours {ps qs : List TagPlain} (hnodup : (qs.map TagPlain.name).Nodup)
    (hnames : ∀ name, name ∈ qs.map TagPlain.name ↔ name ∈ ps.map TagPlain.name)
    (hcolours : ∀ q ∈ qs, q.colour = lastColour ps q.name) :
    sortStable compare qs = merge ps := by
  have hperm : (qs.map TagPlain.name).Perm (ps.map TagPlain.name).dedup := by
    refine (List.perm_ext_iff_of_nodup hnodup (List.nodup_dedup _)).2 ?_
    intro name
    rw [List.mem_dedup, hnames]
  have hqs : qs = (qs.map TagPlain.name).map fun name => ⟨name, lastColour ps name⟩ := by
    rw [List.map_map]
    refine (List.map_id qs).symm.trans (List.map_congr_left ?_)
    rintro ⟨name, colour⟩ hq
    exact congrArg (TagPlain.mk name) (hcolours _ hq)
  refine sortStable_perm arranges_compare (fun _ _ => eq_of_compare) (fun _ _ => trivial) ?_
  rw [hqs]
  exact hperm.map _

end TagPlain

/-- Filling plain tags of one name into a tag leaves the last colour that is given for it. -/
theorem foldl_fillTag {name : String} {ps : List TagPlain} (hps : ∀ p ∈ ps, p.name = name) (v : Tag)
    (hne : ps = [] → v.name = some name) : ps.foldl (fun v p => fillTag p v) v =
      ⟨some name, (ps.filterMap TagPlain.colour).getLast?.or v.colour⟩ := by
  induction ps generalizing v with
  | nil =>
    rcases v with ⟨name', colour⟩
    cases hne rfl
    rfl
  | cons p rest ih =>
    have hname : p.name = name := hps p List.mem_cons_self
    rw [List.foldl_cons, ih (fun q hq => hps q (List.mem_cons_of_mem _ hq)) _
      fun _ => congrArg some hname]
    rcases p with ⟨_, _ | colour⟩
    · rfl
    · rw [List.filterMap_cons]
      dsimp only
      rw [List.getLast?_cons]
      cases (rest.filterMap TagPlain.colour).getLast? <;> rfl

theorem refill_tag {ps : List TagPlain} {name : String} (hname : name ∈ ps.map TagPlain.name) :
    (tagFilling id).refill name ps Tag.blank = ⟨some name, TagPlain.lastColour ps name⟩ := by
  have hnamed : ∀ p ∈ ps.filter fun p => p.name = name, p.name = name :=
    fun p hp => of_decide_eq_true (List.mem_filter.1 hp).2
  have hne : (ps.filter fun p => p.name = name) ≠ [] := by
    rcases List.mem_map.1 hname with ⟨p, hp, rfl⟩
    exact List.ne_nil_of_mem (List.mem_filter.2 ⟨hp, decide_eq_true rfl⟩)
  have hfold := foldl_fillTag hnamed Tag.blank fun hnil => absurd hnil hne
  exact hfold.trans (congrArg (Tag.mk (some name)) Option.or_none)

/-! ## Posts that are looked up -/

variable {s s' : Session model} {c : ContextId} {v : Post} {author : Option Author}
  {tags : List Tag} {comments : List Comment}

namespace Post

/-- Looked up, the members of the post are entities with these values. -/
structure Meets (s : Session model) (c : ContextId) (v : Post) (author : Option Author)
    (tags : List Tag) (comments : List Comment) : Prop where
  author : Option.Rel (fun (r : ToOne Kind.author) (a : Author) =>
    r.member.Meets (T := model) s c r.source a) v.author author
  tags : ∃ r, v.tags = some r ∧ List.Forall₂ (fun (m : Member Kind.tag) (t : Tag) =>
    m.Meets (T := model) s c r.source t) r.members tags
  comments : ∃ r, v.comments = some r ∧
    List.Forall₂ (fun (m : Member Kind.comment) (w : Comment) =>
      m.Meets (T := model) s c r.source w) r.members comments

/-- Reading rows of a blog type changes nothing about what is seen of any of them. -/
theorem Meets.loads (hmeets : v.Meets s c author tags comments) (hfree : s.ClashFree c)
    (hs : Sound s) {l : Kind} (hl : l.IsBlog)
    (hloads : Loads (T := model) s s' c l (s.rowsNamed c l)) :
    v.Meets s' c author tags comments := by
  have hmember : ∀ {k : Kind}, k.IsBlog → ∀ {source : Option ContextId} {m : Member k} {w : Value k},
      m.Meets (T := model) s c source w → m.Meets (T := model) s' c source w :=
    fun hk _ _ _ hm => hm.loads hfree hs hloads fun hname => hk.ext hl hname
  rcases v with ⟨_, _, field, _, _⟩
  rcases hmeets with ⟨hauthor, ⟨tagSet, htagSet, htags⟩, ⟨commentList, hcommentList, hcomments⟩⟩
  refine ⟨?_, ⟨tagSet, htagSet, ?_⟩, ⟨commentList, hcommentList, ?_⟩⟩
  · have hauthor : Option.Rel _ field author := hauthor
    cases hauthor with
    | none => exact .none
    | some hm => exact .some (hmember (k := .author) trivial hm)
  · exact htags.imp fun m w hm => hmember (k := .tag) trivial hm
  · exact hcomments.imp fun m w hm => hmember (k := .comment) trivial hm

/-- Every member of the post is bound to an entity of the context. -/
structure Bound (s : Session model) (c : ContextId) (v : Post) : Prop where
  author : ∀ r, v.author = some r → r.member.Bound (T := model) s c
  tags : ∀ r, v.tags = some r → ∀ m ∈ r.members, m.Bound (T := model) s c
  comments : ∀ r, v.comments = some r → ∀ m ∈ r.members, m.Bound (T := model) s c

end Post

/-- What was read off a post: the post has the members that it had, bound to entities of the
context. -/
structure ReadOff (s : Session model) (c : ContextId) (v v' : Post) (s' : Session model) : Prop where
  sound : Sound s'
  grows : Grows s s'
  bound : v'.Bound s' c
  kept : v.Bound s c → v' = v ∧ s' = s

/-- The author of a post is looked up if there is one. -/
def readAuthor (field : Option (ToOne Kind.author)) :
    Work model (Option AuthorPlain × Option (ToOne Kind.author)) := do
  match field with
  | none => return (none, none)
  | some r =>
    let (found, r) ← ToOne.target r
    let s ← get
    return (found.map fun h => plainAuthor (s.value h), some r)

/-- First the tags are looked up, then the author, and then the comments. -/
theorem plainPost_eq {s₁ s₂ s₃ : Session model} {title body : Option String}
    {field field' : Option (ToOne Kind.author)} {author : Option AuthorPlain}
    {tags tags' : MemberSet Kind.tag} {foundTags : List (Handle Kind.tag)}
    {comments comments' : MemberList Kind.comment} {foundComments : List (Handle Kind.comment)}
    (htags : ToMany.handles tags s = ((foundTags, tags'), s₁))
    (hauthor : readAuthor field s₁ = ((author, field'), s₂))
    (hcomments : ToMany.handles comments s₂ = ((foundComments, comments'), s₃)) :
    plainPost ⟨title, body, field, some tags, some comments⟩ s =
      ((⟨title.getD "", body, author,
        sortStable TagPlain.compare (foundTags.map fun h => plainTag (s₁.value h)),
        foundComments.map fun h => plainComment (s₃.value h)⟩,
        ⟨title, body, field', some tags', some comments'⟩), s₃) := by
  unfold plainPost
  simp only [Work.bind_apply, htags, Work.get_apply, Work.pure_apply]
  cases field with
  | none =>
    cases hauthor
    simp only [Work.bind_apply, hcomments, Work.get_apply, Work.pure_apply]
  | some r =>
    rcases htarget : ToOne.target r s₁ with ⟨⟨found, r'⟩, s'⟩
    simp only [readAuthor, Work.bind_apply, Work.get_apply, Work.pure_apply, htarget] at hauthor
    rcases hauthor with ⟨⟨rfl, rfl⟩, rfl⟩
    simp only [Work.bind_apply, htarget, hcomments, Work.get_apply, Work.pure_apply]

theorem readAuthor_of_meets {field : Option (ToOne Kind.author)}
    (hmeets : Option.Rel (fun (r : ToOne Kind.author) (a : Author) =>
      r.member.Meets (T := model) s c r.source a) field author) (hs : Sound s) :
    ∃ field' s', readAuthor field s = ((author.map plainAuthor, field'), s') ∧ Sound s' ∧
      Loads (T := model) s s' c Kind.author (s.rowsNamed c Kind.author) ∧
      (∀ r, field' = some r → r.member.Bound (T := model) s' c) ∧
      ((∀ r, field = some r → r.member.Bound (T := model) s c) → field' = field ∧ s' = s) := by
  cases hmeets with
  | none =>
    exact ⟨none, s, rfl, hs, Loads.refl s c Kind.author _, nofun, fun _ => ⟨rfl, rfl⟩⟩
  | @some r a hmember =>
    rcases ToOne.target_of_meets hmember hs with ⟨h, s', htarget, hmet⟩
    refine ⟨some { r with member := .ofHandle h }, s', ?_, hmet.sound, hmet.loads, ?_, ?_⟩
    · have hvalue : s'.value h = a := (List.cons.inj hmet.values).1
      unfold readAuthor
      simp only [Work.bind_apply, htarget, Work.get_apply, Work.pure_apply, Option.map_some, hvalue]
    · intro r' hr'
      cases hr'
      exact hmet.bound _ (List.mem_singleton_self _)
    · intro hbound
      have hmembers : ∀ m ∈ [r.member], m.bound.isSome := by
        intro m hm
        cases List.mem_singleton.1 hm
        exact (hbound r rfl).isSome
      rcases hmet.kept hmembers with ⟨rfl, hkept⟩
      have hsame : Member.ofHandle h = r.member := (List.cons.inj hkept).1
      exact ⟨congrArg (fun m => some (ToOne.mk m r.source)) hsame, rfl⟩

/-- The author, the tags and the comments go by different names, so looking up some of them does not
change what is seen of the others. -/
theorem plainPost_of_meets (hmeets : v.Meets s c author tags comments) (hfree : s.ClashFree c)
    (hs : Sound s) : ∃ v' s', plainPost v s =
      ((⟨v.title.getD "", v.body, author.map plainAuthor,
        sortStable TagPlain.compare (tags.map plainTag), comments.map plainComment⟩, v'), s') ∧
      ReadOff s c v v' s' := by
  rcases v with ⟨title, body, field, _, _⟩
  rcases hmeets.tags with ⟨tagSet, rfl, htags⟩
  rcases ToMany.handles_of_meets (R := MemberSet) htags hs with ⟨foundTags, s₁, htagSet, hmetTags⟩
  have hmeets₁ := hmeets.loads hfree hs (l := .tag) trivial hmetTags.loads
  have hfree₁ := hfree.loads hs hmetTags.loads
  rcases readAuthor_of_meets hmeets₁.author hmetTags.sound with
    ⟨field', s₂, hread, hs₂, hloads, hbound, hkept⟩
  have hmeets₂ := hmeets₁.loads hfree₁ hmetTags.sound (l := .author) trivial hloads
  rcases hmeets₂.comments with ⟨commentList, rfl, hcomments⟩
  rcases ToMany.handles_of_meets (R := MemberList) hcomments hs₂ with
    ⟨foundComments, s₃, hcommentList, hmetComments⟩
  have htagValues : (foundTags.map fun h => plainTag (s₁.value h)) = tags.map plainTag := by
    rw [← hmetTags.values, List.map_map]
    rfl
  have hcommentValues : (foundComments.map fun h => plainComment (s₃.value h)) =
      comments.map plainComment := by
    rw [← hmetComments.values, List.map_map]
    rfl
  have hresult : plainPost ⟨title, body, field, some tagSet, some commentList⟩ s = _ :=
    plainPost_eq htagSet hread hcommentList
  rw [htagValues, hcommentValues] at hresult
  refine ⟨_, s₃, hresult, ?_⟩
  have hgrows := hloads.toGrows.trans hmetComments.loads.toGrows
  constructor
  case sound => exact hmetComments.sound
  case grows => exact hmetTags.loads.toGrows.trans hgrows
  case bound =>
    constructor
    case author => exact fun r hr => (hbound r hr).grows hmetComments.loads.toGrows
    case tags =>
      intro r hr m hm
      cases Option.some.inj hr
      have hm : m ∈ (ToMany.withMembers tagSet (foundTags.map Member.ofHandle)).members := hm
      rw [Meeting.members_withMembers (T := model) (r := tagSet) hmetTags] at hm
      exact (hmetTags.bound m hm).grows hgrows
    case comments =>
      intro r hr m hm
      cases Option.some.inj hr
      exact hmetComments.bound m hm
  case kept =>
    intro hall
    rcases hmetTags.kept fun m hm => (hall.tags _ rfl m hm).isSome with ⟨rfl, htagMembers⟩
    rcases hkept hall.author with ⟨rfl, rfl⟩
    rcases hmetComments.kept fun m hm => (hall.comments _ rfl m hm).isSome with
      ⟨rfl, hcommentMembers⟩
    have htagSet' : ToMany.withMembers tagSet (foundTags.map Member.ofHandle) = tagSet := by
      rw [htagMembers]
      exact MemberSet.withMembers_members (T := model) tagSet
    have hcommentList' : ToMany.withMembers commentList (foundComments.map Member.ofHandle) =
        commentList := by
      rw [hcommentMembers]
      rfl
    rw [htagSet', hcommentList']
    exact ⟨rfl, rfl⟩

end Reconcile.Sample
