import Reconcile.Proofs.Sample.Exporting
import Reconcile.Proofs.Sample.Standing
import Reconcile.Proofs.Session.Mirroring

/-!
# Plain posts come back

A plain post that was filled into a context over an empty store is read off again as it was, with its
tags merged: in that context, after a save in every context of the store that is opened then, and in
every context of another store that has imported the export.
-/

namespace Reconcile.Sample

open Session

variable {s s' a : Session model} {c d : ContextId} {p : PostPlain} {h : Handle Kind.post}
  {author : Option (Handle Kind.author)} {set : MemberSet Kind.tag} {tags : List (Handle Kind.tag)}
  {comments : List (Handle Kind.comment)}

namespace PostPlain

/-- The plain post with one tag for each name. -/
def merged (p : PostPlain) : PostPlain := { p with tags := TagPlain.merge p.tags }

end PostPlain

/-! ## Reading off the parts -/

/-- Looked up, the members of the post are entities whose plain values are the parts of the merged
plain post. -/
structure Post.Holds (s : Session model) (c : ContextId) (v : Post) (p : PostPlain) : Prop where
  title : v.title = some p.title
  body : v.body = p.body
  parts : ∃ author tags comments, v.Meets s c author tags comments ∧
    author.map plainAuthor = p.author ∧
    sortStable TagPlain.compare (tags.map plainTag) = TagPlain.merge p.tags ∧
    comments.map plainComment = p.comments

theorem Post.Holds.loads {v : Post} (hholds : v.Holds s c p) (hfree : s.ClashFree c) (hs : Sound s)
    {l : Kind} (hl : l.IsBlog) (hloads : Loads (T := model) s s' c l (s.rowsNamed c l)) :
    v.Holds s' c p := by
  rcases hholds.parts with ⟨author, tags, comments, hmeets, hplain⟩
  exact ⟨hholds.title, hholds.body, author, tags, comments, hmeets.loads hfree hs hl hloads, hplain⟩

theorem Post.Holds.plainPost {v : Post} (hholds : v.Holds s c p) (hfree : s.ClashFree c)
    (hs : Sound s) : ∃ v' s', plainPost v s = ((p.merged, v'), s') ∧ ReadOff s c v v' s' := by
  rcases hholds.parts with ⟨author, tags, comments, hmeets, hauthor, htags, hcomments⟩
  rcases plainPost_of_meets hmeets hfree hs with ⟨v', s', hplain, hread⟩
  rw [hholds.title, hholds.body, hauthor, htags, hcomments] at hplain
  exact ⟨v', s', hplain, hread⟩

namespace PostStands

variable (hstands : PostStands s c p h author set tags comments)

include hstands

theorem sound : Sound s := hstands.ordered.sound

/-- There are no rows that a key of an entity could clash with. -/
theorem clashFree : s.ClashFree c where
  apart id id' hrow := by
    rw [hstands.rows] at hrow
    cases hrow
  registered id e hrow := by
    rw [hstands.rows] at hrow
    cases hrow

theorem holds : (postOf p author set comments).Holds s c p := by
  have hs := hstands.sound
  rcases hstands.tags with ⟨qs, hqs, hmerge⟩
  refine ⟨rfl, rfl, p.author.map fun q => ⟨some q.handle, q.name⟩, qs.map fun q => ⟨some q.name, q.colour⟩,
    p.comments.map (commentOn h p.title), ⟨?_, ⟨set, rfl, ?_⟩, ⟨_, rfl, ?_⟩⟩, ?_, ?_, ?_⟩
  · exact rel_map (fun a q hshows => hshows.meets hs _) hstands.author
  · rw [hstands.members]
    refine List.forall₂_map_left_iff.2 (List.forall₂_map_right_iff.2 ?_)
    exact hqs.imp fun t q hshows => hshows.meets hs _
  · refine List.forall₂_map_left_iff.2 (List.forall₂_map_right_iff.2 ?_)
    exact hstands.comments.imp fun x q hshows => hshows.meets hs _
  · cases p.author <;> rfl
  · rw [List.map_map, ← hmerge]
    exact congrArg (sortStable TagPlain.compare) (List.map_id _)
  · rw [List.map_map]
    exact List.map_id _

/-- The members of the post are bound to its parts. -/
theorem bound : (postOf p author set comments).Bound s c := by
  constructor
  case author =>
    intro r hr
    rcases Option.map_eq_some_iff.1 hr with ⟨a, ha, rfl⟩
    rcases exists_of_rel hstands.author a ha with ⟨q, hshows⟩
    exact ⟨a, rfl, hshows.listed⟩
  case tags =>
    intro r hr m hm
    cases hr
    rw [hstands.members] at hm
    rcases List.mem_map.1 hm with ⟨t, ht, rfl⟩
    rcases hstands.tags with ⟨qs, hqs, _⟩
    rcases exists_of_forall₂ hqs t ht with ⟨q, hshows⟩
    exact ⟨t, rfl, hshows.listed⟩
  case comments =>
    intro r hr m hm
    cases hr
    rcases List.mem_map.1 hm with ⟨x, hx, rfl⟩
    rcases exists_of_forall₂ hstands.comments x hx with ⟨q, hshows⟩
    exact ⟨x, rfl, hshows.listed⟩

/-- The post reads as the merged plain post right away, which changes nothing. -/
theorem plainOf : mapping.plainOf h s = (p.merged, s) := by
  have hs := hstands.sound
  rcases hstands.post.listed with ⟨pending, he⟩
  have hvalue : s.value h = postOf p author set comments :=
    Mapping.value_of_seen? he hstands.post.seen
  rcases hstands.holds.plainPost hstands.clashFree hs with ⟨v, s', hplain, hread⟩
  -- the fill has left every member bound, so the lookups change nothing
  rcases hread.kept hstands.bound with ⟨rfl, rfl⟩
  have htoPlain : mapping.toPlain (T := model) (k := Kind.post) (s'.value h) s' =
      ((p.merged, s'.value h), s') := by
    rw [hvalue]
    exact hplain
  rw [Mapping.plainOf_of_toPlain htoPlain, rebind_value (hstands.post.listed.holds hs)]
  rfl

/-! ## Saving -/

/-- Every entity of the context has a payload, which fits the blog. -/
theorem exists_savable {key : UInt64} {e : Entry model} (he : (s.registry c).get? key = some e) :
    ∃ payload, s.Savable e payload ∧ payload.Exact Snapshot.payloadBudget ∧
      ∃ d, blogSchema.require e.id.entity = .ok d ∧ d.check payload = .ok () := by
  rcases e with ⟨k, x, pending⟩
  rcases (hstands.entries key _ he).proper with ⟨v, hproper, hshows⟩
  rcases hproper.exists_check with ⟨d, payload, hd, hencode, hcheck⟩
  have hloose : k ≠ .loose := by
    rintro rfl
    exact hproper
  refine ⟨payload, ?_, exact_encode hloose hencode _, d, ?_, hcheck⟩
  · exact (hshows.savable_iff hstands.sound fun m hm => hstands.unused key _ m he hm).2 hencode
  · rw [(hstands.sound.lodged he).name]
    exact hd

theorem fits {key : UInt64} {e : Entry model} (he : (s.registry c).get? key = some e)
    {payload : Json} (hsavable : s.Savable e payload) : payload.Exact Snapshot.payloadBudget ∧
      ∃ d, blogSchema.require e.id.entity = .ok d ∧ d.check payload = .ok () := by
  rcases hstands.exists_savable he with ⟨payload', hsavable', hfits⟩
  cases hsavable.unique hsavable'
  exact hfits

end PostStands

/-! ## Reading off the post elsewhere -/

/-- The context finds the post by the plain post, and reads the merged plain post off it.  Then every
member of the post is bound in the context. -/
def Recalls (a : Session model) (d : ContextId) (p : PostPlain) (id : EntityId) : Prop :=
  ∃ h s₁ s₂, mapping.findUnique (T := model) (k := Kind.post) (.within d) p a = (some h, s₁) ∧
    h.id = id ∧ mapping.plainOf h s₁ = (p.merged, s₂) ∧ (s₂.value h : Post).Bound s₂ d

namespace PostStands

variable (hstands : PostStands s c p h author set tags comments)
  (hmirrors : s.Mirrors c (a.rowsOf d)) (hfresh : ∀ key, (a.registry d).get? key = none)

include hstands hmirrors hfresh

theorem seen?_elsewhere {k : Kind} {x : Handle k} {v : Value k} (hshows : s.Shows (T := model) c x v) :
    a.seen? d k x.id.key = some (v.reread (some d)) := by
  rcases hmirrors.seen? rfl hfresh hstands.sound hshows with ⟨payload, hencode, hseen⟩
  exact hseen.trans (Value.decode_of_encode (some d) hencode)

theorem holds_elsewhere : ((postOf p author set comments).reread (some d)).Holds a d p := by
  have hmeets : ∀ {k : Kind} {x : Handle k} {v : Value k}, s.Shows (T := model) c x v →
      (Member.unbound x.id : Member k).Meets (T := model) a d (some d) (v.reread (some d)) :=
    fun hshows => ⟨hshows.name hstands.sound, nofun, fun _ => rfl,
      hstands.seen?_elsewhere hmirrors hfresh hshows⟩
  rcases hstands.tags with ⟨qs, hqs, hmerge⟩
  refine ⟨rfl, rfl, p.author.map fun q => ⟨some q.handle, q.name⟩, qs.map fun q => ⟨some q.name, q.colour⟩,
    p.comments.map fun q => (commentOn h p.title q).reread (some d),
    ⟨?_, ⟨_, rfl, ?_⟩, ⟨_, rfl, ?_⟩⟩, ?_, ?_, ?_⟩
  · have hfield : ((postOf p author set comments).reread (some d)).author =
        author.map fun x => ⟨.unbound x.id, some d⟩ := Option.map_map _ _ _
    rw [hfield]
    refine rel_map ?_ hstands.author
    exact fun x q hshows => hmeets hshows
  · rw [MemberSet.members_reread, hstands.members, List.map_map]
    refine List.forall₂_map_left_iff.2 (List.forall₂_map_right_iff.2 ?_)
    exact hqs.imp fun t q hshows => hmeets hshows
  · rw [MemberList.members_reread, MemberList.ofHandles, List.map_map]
    refine List.forall₂_map_left_iff.2 (List.forall₂_map_right_iff.2 ?_)
    exact hstands.comments.imp fun x q hshows => hmeets hshows
  · cases p.author <;> rfl
  · rw [List.map_map, ← hmerge]
    exact congrArg (sortStable TagPlain.compare) (List.map_id _)
  · rw [List.map_map]
    exact List.map_id _

/-- The context finds the row of the post, as there is no other post. -/
theorem findUnique_elsewhere (ha : Sound a) (hschema : a.schemaOf d = blogSchema) : ∃ h' s₁,
    mapping.findUnique (T := model) (k := Kind.post) (.within d) p a = (some h', s₁) ∧
      h'.id = h.id ∧ Sound s₁ ∧ s₁.Lists d h' ∧
      Loads (T := model) a s₁ d Kind.post (a.rowsNamed d Kind.post) := by
  have hs := hstands.sound
  have hid : (⟨"Post", h.id.key⟩ : EntityId) = h.id :=
    congrArg (EntityId.mk · h.id.key) (hstands.post.name hs).symm
  rcases hmirrors.row? hs hstands.post with ⟨payload, hencode, hrow⟩
  -- every row was written for an entity of the first context, which has one post
  have honly : ∀ key row, (a.rowsOf d).row? ⟨"Post", key⟩ = some row → key = h.id.key := by
    intro key row hrow'
    rcases hmirrors.only _ (by rw [hrow']; rfl) with ⟨e, he, heid, _⟩
    have hsame := (hstands.entries key e he).alone (congrArg EntityId.entity heid)
    exact congrArg EntityId.key (heid.symm.trans hsame)
  have hrequire : (a.schemaOf d).require "Post" = .ok postDescription := by
    rw [hschema]
    rfl
  have hlegible : a.Legible d Kind.post := by
    refine ⟨⟨postDescription, hrequire⟩, ?_⟩
    intro key row hmem
    have hget := mem_rowsNamed_iff.1 hmem
    have hkey := honly key row hget
    subst hkey
    have hget : (a.rowsOf d).row? h.id = some row := hid ▸ hget
    cases hrow.symm.trans hget
    let v : Value .post := postOf p author set comments
    have hdecode : Value.decode .post (some d) payload = some (v.reread (some d)) :=
      Value.decode_of_encode (some d) hencode
    exact ⟨v.reread (some d), payload, hdecode, (Value.encode_reread (some d) v).trans hencode⟩
  rcases identifies_post p with ⟨value, hkey, hvalue⟩
  rcases hvalue (postOf p author set comments) with ⟨payload', hencode', hsame⟩
  cases hencode.symm.trans hencode'
  rcases Mapping.findUnique_of_only_row (.within d) faithful ha hfresh hkey hrequire rfl hlegible
      (hid ▸ hrow) honly ⟨Kind.post, _, rfl, hencode⟩ (hsame.2 rfl) with
    ⟨h', s₁, hfound, hid', hrest⟩
  exact ⟨h', s₁, hfound, hid'.trans hid, hrest⟩

theorem recalls (ha : Sound a) (hschema : a.schemaOf d = blogSchema) : Recalls a d p h.id := by
  rcases hstands.findUnique_elsewhere hmirrors hfresh ha hschema with
    ⟨h', s₁, hfound, hid, hs₁, hlisted, hloads⟩
  have hfree : a.ClashFree d := hmirrors.clashFree rfl hfresh
  -- no more than rows of posts was read, so the parts are seen as before
  have hpost : Kind.post.IsBlog := trivial
  have hholds := (hstands.holds_elsewhere hmirrors hfresh).loads hfree ha hpost hloads
  have hseen : s₁.seen? d Kind.post h'.id.key = some ((postOf p author set comments).reread (some d)) := by
    rw [hloads.seen?_eq ha, hid]
    exact hstands.seen?_elsewhere hmirrors hfresh hstands.post
  have hvalue : s₁.value h' = (postOf p author set comments).reread (some d) := by
    rcases hlisted with ⟨pending, he⟩
    exact Mapping.value_of_seen? he hseen
  rcases hholds.plainPost (hfree.loads ha hloads) hs₁ with ⟨v, s₂, hplain, hread⟩
  have htoPlain : mapping.toPlain (T := model) (k := Kind.post) (s₁.value h') s₁ =
      ((p.merged, v), s₂) := by
    rw [hvalue]
    exact hplain
  -- the value with the members bound is put back under the same handle
  refine ⟨h', s₁, s₂.rebind h' v, hfound, hid, Mapping.plainOf_of_toPlain htoPlain, ?_⟩
  rw [value_rebind ((hlisted.grows hread.grows).holds hread.sound)]
  exact ⟨hread.bound.author, hread.bound.tags, hread.bound.comments⟩

end PostStands

/-! ## Stores that have the rows -/

section Stores

variable {scope : Scope} {i : StoreId} {store : Store} {summary : Summary}

theorem PostStands.recalls_openContext (hstands : PostStands s c p h author set tags comments)
    (hmirrors : s.Mirrors c store.rows) (ha : Sound a) (hstore : a.store? i = some store)
    (hschema : store.schema = blogSchema) :
    Recalls (a.openContext i).2 (a.openContext i).1 p h.id := by
  have hopened := (storeOf?_openContext a i).trans hstore
  have hrows : (a.openContext i).2.rowsOf (a.openContext i).1 = store.rows :=
    rowsOf_of_storeOf? hopened
  have hblog : (a.openContext i).2.schemaOf (a.openContext i).1 = blogSchema := by
    rw [Session.schemaOf, hopened]
    exact hschema
  refine hstands.recalls (hrows ▸ hmirrors) (registry_openContext a i) (ha.openContext ?_) hblog
  rw [hstore]
  rfl

theorem PostStands.exists_save
    (hstands : PostStands s scope.context p h author set tags comments) :
    ∃ summary s', (scope.save (T := model)).outcome s = (.ok summary, s') := by
  refine Session.exists_save ?_
  intro key e he _
  rcases hstands.exists_savable he with ⟨payload, hsavable, _, d, hd, hcheck⟩
  refine ⟨payload, hsavable, ?_⟩
  intro _
  rw [hstands.schemaOf]
  exact ⟨d, hd, hcheck⟩

/-- What is exported once the rows are there is read back from its text, and fits the blog. -/
theorem PostStands.exported (hstands : PostStands s c p h author set tags comments)
    (hstore : s.storeOf? c = some store) {rows : Rows} (hmirrors : s.Mirrors c rows) :
    let exported := Store.snapshot { store with rows := rows }
    Snapshot.ofText exported.text = .ok exported ∧ exported.check blogSchema = .ok () := by
  have hschema : store.schema = blogSchema := by
    have hof := hstands.schemaOf
    rw [Session.schemaOf, hstore] at hof
    exact hof
  have hexact : Snapshot.Exact ⟨Snapshot.currentFormat, store.schema.version, store.nextKey, rows⟩ :=
    hmirrors.exact fun key e payload he hsavable => (hstands.fits he hsavable).1
  rcases Option.bind_eq_some_iff.1 ((storeOf?_eq s c).symm.trans hstore) with ⟨i, hi, hget⟩
  have hbelow : ∀ key e, (s.registry c).get? key = some e → e.id.key < store.nextKey :=
    fun key e he => hstands.ordered.numbered i store e.id hget (Or.inr ⟨c, key, e, hi, he, rfl⟩)
  have hfits : ∀ key e payload, (s.registry c).get? key = some e → s.Savable e payload →
      ∃ d, store.schema.require e.id.entity = .ok d ∧ d.check payload = .ok () := by
    intro key e payload he hsavable
    rw [hschema]
    exact (hstands.fits he hsavable).2
  have hformed := hmirrors.wellFormed hfits hbelow
  exact ⟨Snapshot.ofText_text hexact rfl, hschema ▸ Snapshot.check_eq_ok_iff.2 hformed⟩

theorem PostStands.recalls_import (hstands : PostStands s c p h author set tags comments)
    {snapshot : Snapshot} (hmirrors : s.Mirrors c snapshot.entities) (ha : Sound a)
    (hstore : a.store? i = some store) (hschema : store.schema = blogSchema)
    (hcheck : snapshot.check blogSchema = .ok ()) : ∃ a',
      (i.restore (T := model) snapshot).outcome a = (.ok (), a') ∧
        Recalls (a'.openContext i).2 (a'.openContext i).1 p h.id := by
  let restored : Store := { store with
    nextKey := max store.nextKey snapshot.nextKey, rows := snapshot.entities }
  have hrestore : store.restore snapshot = .ok restored :=
    Store.restore_of_check (hschema ▸ hcheck)
  have himport := outcome_restore hstore hrestore
  have hsound := (run_restore i snapshot a).sound ha
  rw [himport] at hsound
  have hrestored : ((a.modifyStore i fun _ => restored).report
      (.imported restored.rows.count)).store? i = some restored := by
    show (a.modifyStore i fun _ => restored).store? i = some restored
    rw [store?_modifyStore, if_pos rfl, hstore]
    rfl
  exact ⟨_, himport, hstands.recalls_openContext hmirrors hsound hrestored hschema⟩

end Stores

/-! ## The way there and back -/

/-- A plain post that is filled into a context over an empty store of the blog comes back with its
tags merged: from the context itself, from a context that is opened after the save, and from one
that is opened over any store of the blog after the import of what was exported. -/
theorem post_returns {scope : Scope} (hrun : Run (fun _ => True) .empty s)
    (hblank : Blank s scope.context) (hschema : s.schemaOf scope.context = blogSchema)
    (hpending : s.takesPending scope.context = true)
    (hkeys : (mapping.reconcile (T := model) (k := Kind.post) scope p pure s).2.KeysLeft) :
    ∃ h s₁ summary s₂ i store,
      mapping.reconcile (T := model) (k := Kind.post) scope p pure s = (some h, s₁) ∧
      mapping.plainOf h s₁ = (p.merged, s₁) ∧
      (scope.save (T := model)).outcome s₁ = (.ok summary, s₂) ∧
      s.storeIdOf? scope.context = some i ∧ s₂.store? i = some store ∧
      Recalls (s₂.openContext i).2 (s₂.openContext i).1 p h.id ∧
      ∀ (a : Session model) (j : StoreId) (target : Store), Run (fun _ => True) .empty a →
        a.store? j = some target → target.schema = blogSchema → ∃ snapshot a',
          Snapshot.ofText store.snapshot.text = .ok snapshot ∧
          (j.restore (T := model) snapshot).outcome a = (.ok (), a') ∧
          Recalls (a'.openContext j).2 (a'.openContext j).1 p h.id := by
  rcases reconcile_blank hrun hblank hschema hpending hkeys with
    ⟨h, s₁, author, set, tags, comments, hresult, hplace, hstands⟩
  have hs₁ := hstands.sound
  rcases hstands.exists_save with ⟨summary, s₂, hsave⟩
  have hs₂ : Sound s₂ := by
    have hrun₂ := (advances_save (T := model) scope s₁ hs₁).run
    rw [hsave] at hrun₂
    exact hrun₂.sound hs₁
  have hmirrors := mirrors_save hs₁ hstands.rows hsave
  -- the store after the save
  rcases hstands.post.listed with ⟨pending, he⟩
  rcases storeOf?_of_registry hs₁ he with ⟨store, hstore⟩
  have hstore₂ := storeOf?_save hsave hstore
  rcases Option.bind_eq_some_iff.1 ((storeOf?_eq s₂ _).symm.trans hstore₂) with ⟨i, hi, hget⟩
  have hblog : store.schema = blogSchema := by
    have hof := hstands.schemaOf
    rw [Session.schemaOf, hstore] at hof
    exact hof
  refine ⟨h, s₁, summary, s₂, i, _, hresult, hstands.plainOf, hsave,
    hplace.symm.trans ((storeIdOf?_save hsave _).symm.trans hi), hget,
    hstands.recalls_openContext hmirrors hs₂ hget hblog, ?_⟩
  intro a j target hruna htarget hschema'
  rcases hstands.exported hstore hmirrors with ⟨hread, hcheck⟩
  rcases hstands.recalls_import hmirrors (hruna.sound sound_empty) htarget hschema' hcheck with
    ⟨a', himport, hrecalls⟩
  exact ⟨_, a', hread, himport, hrecalls⟩

/-- One tag is named twice, with a colour the second time. -/
def twiceRed : PostPlain :=
  ⟨"Hello", none, some ⟨"ann", some "Ann"⟩, [⟨"red", none⟩, ⟨"blue", none⟩, ⟨"red", some "r"⟩],
    [⟨"bob", "hi"⟩, ⟨"bob", "hi"⟩]⟩

theorem merged_twiceRed : twiceRed.merged =
    { twiceRed with tags := [⟨"blue", none⟩, ⟨"red", some "r"⟩] } := by decide +kernel

/-- The first context fills in the post and saves it, and a store of another session imports it. -/
theorem twiceRed_returns : ∃ h s₁ summary s₂ store snapshot a',
    mapping.reconcile (T := model) (k := Kind.post) (.within ⟨1⟩) twiceRed pure bothOpen =
      (some h, s₁) ∧
    mapping.plainOf h s₁ =
      ({ twiceRed with tags := [⟨"blue", none⟩, ⟨"red", some "r"⟩] }, s₁) ∧
    ((Scope.within ⟨1⟩).save (T := model)).outcome s₁ = (.ok summary, s₂) ∧
    s₂.store? ⟨0⟩ = some store ∧
    Recalls (s₂.openContext ⟨0⟩).2 (s₂.openContext ⟨0⟩).1 twiceRed h.id ∧
    Snapshot.ofText store.snapshot.text = .ok snapshot ∧
    ((⟨0⟩ : StoreId).restore (T := model) snapshot).outcome bothOpen = (.ok (), a') ∧
    Recalls (a'.openContext ⟨0⟩).2 (a'.openContext ⟨0⟩).1 twiceRed h.id := by
  have hopen : Run (fun _ => True) .empty bothOpen :=
    (((Step.openStore .empty blogSchema .default).run trivial).trans
      ((Step.openContext _ ⟨0⟩ rfl).run trivial)).trans ((Step.openContext _ ⟨0⟩ rfl).run trivial)
  have hblank : Blank bothOpen (Scope.within ⟨1⟩).context := ⟨fun _ => rfl, rfl⟩
  rcases post_returns (p := twiceRed) hopen hblank rfl rfl (by decide +kernel) with
    ⟨h, s₁, summary, s₂, i, store, hresult, hplain, hsave, hi, hstore, hrecalls, himport⟩
  cases hi
  rw [merged_twiceRed] at hplain
  rcases himport bothOpen ⟨0⟩ _ hopen rfl rfl with ⟨snapshot, a', hread, hrestore, himported⟩
  exact ⟨h, s₁, summary, s₂, store, snapshot, a', hresult, hplain, hsave, hstore, hrecalls, hread,
    hrestore, himported⟩

/-- The first context of a store that leaves pending entities out of its results. -/
def pendingUnseen : Session model :=
  ((Session.empty.openStore blogSchema ⟨true, false⟩).2.openContext ⟨0⟩).2

/-- There the second red tag does not find the first one, and both are read off the post. -/
theorem twiceRed_pendingUnseen : ∃ h : Handle Kind.post, Blank pendingUnseen ⟨1⟩ ∧
    pendingUnseen.schemaOf ⟨1⟩ = blogSchema ∧
    (mapping.reconcile (T := model) (k := Kind.post) (.within ⟨1⟩) twiceRed pure pendingUnseen).1 =
      some h ∧
    (mapping.reconcile (T := model) (k := Kind.post) (.within ⟨1⟩) twiceRed pure
      pendingUnseen).2.KeysLeft ∧
    PostPlain.tags (mapping.plainOf h (mapping.reconcile (T := model) (k := Kind.post) (.within ⟨1⟩)
      twiceRed pure pendingUnseen).2).1 = [⟨"blue", none⟩, ⟨"red", none⟩, ⟨"red", some "r"⟩] ∧
    PostPlain.tags (mapping.plainOf h (mapping.reconcile (T := model) (k := Kind.post) (.within ⟨1⟩)
      twiceRed pure pendingUnseen).2).1 ≠ twiceRed.merged.tags := by
  refine ⟨⟨0, ⟨"Post", 1⟩, ⟨1⟩⟩, ⟨fun _ => rfl, rfl⟩, rfl, ?_, ?_, ?_, ?_⟩
  · decide +kernel
  · decide +kernel
  · decide +kernel
  · decide +kernel

end Reconcile.Sample
