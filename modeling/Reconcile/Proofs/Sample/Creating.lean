import Reconcile.Proofs.Sample.Retaining

/-!
# At most one new entity for a key

A call that synchronizes plain values looks up the entity of each by its key, and the lookup finds
what the call has created before.  So whatever the context was like, the call creates at most one
entity for a key, and none for a key that an entity in the registry has (`one_created`), as long as
lookups of the type succeed.  A lookup that fails counts as nothing found, so every plain value gets
an entity of its own then.

The context may hold duplicates from before, entities may be held or be filling, and rows may come
from snapshots.  What has to be kept in the course of the call is only about what it creates
(`Frugal`).
-/

namespace Reconcile.Sample

open Session

variable {s s₁ s' s'' : Session model} {scope : Scope} {c d : ContextId} {k l : Kind}
  {key key' : UInt64} {slot base : Nat} {value : Json} {m m' : Entity model} {e : Entry model}

/-! ## Fills -/

/-- As long as keys are left, the work is careful with what was created before it, and with what is
seen. -/
structure Careful (base : Nat) (c : ContextId) (l : Kind) (s s' : Session model) : Prop where
  advances : Advances s s'
  frugal : Frugal base c l s → s'.KeysLeft → Frugal base c l s' ∧ Retains c l s s'

theorem Careful.trans (h : Careful base c l s s') (h' : Careful base c l s' s'') :
    Careful base c l s s'' := by
  refine ⟨reads_advances.trans h.advances h'.advances, ?_⟩
  intro hfrugal hkeys
  have hs := hfrugal.sound
  -- keys that are left at the end were left in between
  have hkeys' : s'.KeysLeft := (h'.advances ((h.advances hs).run.sound hs)).run.keysLeft hkeys
  rcases h.frugal hfrugal hkeys' with ⟨hfrugal', hretains⟩
  rcases h'.frugal hfrugal' hkeys with ⟨hfrugal'', hretains'⟩
  exact ⟨hfrugal'', hretains.trans hretains'⟩

theorem reads_careful (hl : l.IsKeyed) : Reads (T := model) Kind.IsBlog (Careful base c l) where
  refl s := ⟨reads_advances.refl s, fun h _ => ⟨h, Retains.refl c l s⟩⟩
  trans := Careful.trans
  report s event := ⟨reads_advances.report s event,
    fun h _ => ⟨h.report event, retains_report event⟩⟩
  locate k hk scope id s := by
    refine ⟨fun hs => (run_locate hs scope k id).proceeds, ?_⟩
    intro hfrugal _
    have hloads := (locates (T := model) hfrugal.sound scope k id).loads
    exact ⟨hfrugal.loads hl hk hloads (run_locate hfrugal.sound scope k id),
      retains_of_loads hloads⟩

/-- Deleting a comment does nothing to what has keys. -/
theorem careful_markDeleted (hl : l.IsKeyed) (s : Session model) (h : Handle Kind.comment)
    (hholds : s.Holds (T := model) h) : Careful base c l s (s.markDeleted h) := by
  refine ⟨advances_markDeleted s h.slot, ?_⟩
  intro hfrugal _
  have hcomment : Kind.comment ≠ l := by
    rintro rfl
    exact hl
  have halters : ∀ m, s.entity? h.slot = some m → Alters l s m { m with deleted := true } := by
    intro m hm
    rcases hholds with ⟨m', hm', hkind⟩
    cases hm.symm.trans hm'
    have hm₁ : m.kind ≠ l := fun hml => hcomment (hkind.symm.trans hml)
    refine ⟨rfl, hkind ▸ trivial, (fun hlive => by cases hlive), ?_, ?_⟩
    · intro value
      exact iff_of_false (not_bears_of_kind hm₁) (not_bears_of_kind hm₁)
    · refine proper_of_ne_post ?_ m.state
      rw [hkind]
      exact fun h => by cases h
  have hsound : Sound (s.markDeleted h) := (Step.delete s h.slot).sound hfrugal.sound
  exact ⟨hfrugal.modifyEntity hl hsound halters, retains_modifyEntity halters⟩

/-- The types that the fill of a post or a folder reconciles. -/
def Kind.IsNested (k : Kind) : Prop := k.IsBlog ∧ k ≠ .post

/-- Builds the comments of a post anew. -/
def rebuildComments (p : PostPlain) (nested : Nested 1) (post : Option (ToOne Kind.post)) :
    Work model (MemberList Kind.comment) :=
  MemberList.build p.comments fun q _ =>
    nested .comment q Nat.one_pos fun c => return { (c : Comment) with post }

/-- All that the fill of a post does in the end is to delete its comments and to build new ones. -/
theorem fillPost_comments {R : Session model → Session model → Prop}
    (hR : Reads (T := model) Kind.IsBlog R) (p : PostPlain) {nested : Nested 1}
    (hnested : NestedLeads Kind.IsNested R nested) (scope : Scope) (this : EntityId) (v : Post)
    (s : Session model) : ∃ (s₁ : Session model) (post : Option (ToOne Kind.post)), R s s₁ ∧
      (fillPost p nested scope this v s).1.comments = some (rebuildComments p nested post
        (scope.deleteCascade (T := model) v.comments s₁).2).1 ∧
      (fillPost p nested scope this v s).2 = (rebuildComments p nested post
        (scope.deleteCascade (T := model) v.comments s₁).2).2 := by
  have htags : Work.Leads R (MemberSet.build p.tags fun q _ => nested .tag q Nat.one_pos pure) :=
    hR.buildSet fun q _ => hnested .tag ⟨trivial, fun h => by cases h⟩ q Nat.one_pos id
  have hlocate := hR.locate Kind.post trivial scope this
  rcases p with ⟨title, body, author, tags, comments⟩
  cases author with
  | none => exact ⟨_, _, hR.trans (htags s) (hlocate _), rfl, rfl⟩
  | some q =>
    have hauthor := hnested .author ⟨trivial, fun h => by cases h⟩ q Nat.one_pos id
    exact ⟨_, _, hR.trans (htags s) (hR.trans (hauthor _) (hlocate _)), rfl, rfl⟩

variable {bound : Nat} {nested : Nested bound}

theorem Kind.IsNested.isBlog (hk : k.IsNested) : k.IsBlog := hk.1

/-- A fill of the blog or the folders is careful if what it reconciles is. -/
theorem careful_fill (hl : l.IsKeyed) (hk : k.IsBlog) (p : Plain k)
    {nested : Nested (Plain.weight p)}
    (hnested : NestedLeads Kind.IsNested (Careful base c l) nested) (scope : Scope)
    (this : EntityId) (v : Value k) (hs : Sound s) (hproper : Proper s v) :
    Careful base c l s (fill p nested scope this v s).2 := by
  have hR : Reads (T := model) Kind.IsBlog (Careful base c l) := reads_careful hl
  cases k with
  | tag => exact hR.refl s
  | author => exact hR.refl s
  | comment => exact leads_fillComment hR trivial p v s
  | folder =>
    exact leads_fillFolder (hR.mono fun _ hk => hk.isBlog) ⟨trivial, fun h => by cases h⟩ p
      hnested v s
  | post =>
    rcases fillPost_comments hR p hnested scope this v s with ⟨s₁, post, hbefore, _, hend⟩
    have hrun := (hbefore.advances hs).run
    have hcascade : Careful base c l s₁
        (scope.deleteCascade (T := model) (v : Post).comments s₁).2 := by
      refine hR.deleteCascade_held (careful_markDeleted hl) trivial scope (hrun.sound hs) ?_
      intro members hmembers x hx
      refine (hproper.run hrun) x ?_
      show x ∈ ((v : Post).comments.map MemberList.members).getD []
      rw [hmembers]
      exact hx
    have hrebuild : Work.Leads (Careful base c l) (rebuildComments p nested post) :=
      hR.buildList fun q _ => hnested .comment ⟨trivial, fun h => by cases h⟩ q Nat.one_pos _
    refine hR.trans hbefore (hR.trans hcascade ?_)
    rw [show (fill p nested scope this v s).2 = _ from hend]
    exact hrebuild _
  | _ => exact absurd hk id

/-- What a fill leaves as comments of a post are comments. -/
theorem proper_fill (hk : k.IsBlog) (p : Plain k) {nested : Nested (Plain.weight p)}
    (hnested : NestedLeads Kind.IsNested Advances nested)
    (hholds : ∀ l (q : Plain l) hq (g : Value l → Value l) s, Sound s → ∀ h : Handle l,
      (nested l q hq (fun v => return g v) s).1 = some h →
        (nested l q hq (fun v => return g v) s).2.Holds (T := model) h)
    (scope : Scope) (this : EntityId) (v : Value k) (hs : Sound s) :
    Proper (fill p nested scope this v s).2 (fill p nested scope this v s).1 := by
  by_cases hpost : k = .post
  · subst hpost
    have hR : Reads (T := model) Kind.IsBlog Advances := reads_advances.mono fun _ _ => trivial
    rcases fillPost_comments hR p hnested scope this v s with
      ⟨s₁, post, hbefore, hcomments, hend⟩
    have hs₁ : Sound s₁ := (hbefore hs).run.sound hs
    have hcomment : Kind.comment.IsBlog := trivial
    have hcascade := (hR.deleteCascade advances_markDeleted hcomment scope
      (v : Post).comments s₁ hs₁).run
    have hheld : ∀ x ∈ (rebuildComments p nested post
        (scope.deleteCascade (T := model) (v : Post).comments s₁).2).1.members,
        x.Held (T := model) (rebuildComments p nested post
          (scope.deleteCascade (T := model) (v : Post).comments s₁).2).2 := by
      refine held_buildList ?_ ?_ (hcascade.sound hs₁)
      · exact fun q _ => hnested .comment ⟨trivial, fun h => by cases h⟩ q Nat.one_pos _
      · exact fun q _ => hholds .comment q Nat.one_pos _
    intro x hx
    have hx : x ∈ ((fillPost p nested scope this v s).1.comments.map
      MemberList.members).getD [] := hx
    rw [hcomments] at hx
    rw [show (fill p nested scope this v s).2 = _ from hend]
    exact hheld x hx
  · exact proper_of_ne_post hpost _

/-! ## Reconciling -/

theorem advances_reconcileBelow (scope : Scope) (bound : Nat) (p : Plain k)
    (hp : Plain.weight p < bound) (g : Value k → Value k) : Work.Leads Advances
      (mapping.reconcileBelow (T := model) scope bound k p hp fun v => return g v) :=
  lawful.reconcileBelow scope bound k p hp _ fun v => reads_sample.pure (g v)

theorem bears_of_open {p : Plain k} {n : NaturalKey} (hk : k.IsBlog) (hkind : m.kind = k)
    (hopen : Open m) (hlive : m.deleted = false) (hkey : Plain.naturalKey p = some n)
    (hvalue : Value.naturalKey? (m.state : Value m.kind) = some n) : Bears k n.value m := by
  subst hkind
  rcases exists_encode hk m.state with ⟨payload, hencode⟩
  have hpayload := payload_of_encode (T := model) hencode
  refine ⟨rfl, hlive, payload, ?_, ?_⟩
  · exact (hopen.shown hk).trans (congrArg some hpayload)
  · rw [← keyAttribute_eq hk hkey]
    exact (carries_iff hk hkey hencode).2 hvalue

/-- Putting a value with the key back does not change what key is seen. -/
theorem alters_checkIn {p : Plain k} (hl : l.IsKeyed) (hk : k.IsBlog) (hkind : m.kind = k)
    {v : Value k} (hvalue : Value.naturalKey? v = Plain.naturalKey p) (hproper : Proper s v)
    (hbears : k = l → m.deleted = false → ∀ n, Plain.naturalKey p = some n → Bears k n.value m) :
    Alters l s m (m.checkIn v) := by
  refine ⟨hkind.symm, hkind ▸ hk, id, ?_, hproper⟩
  intro value
  by_cases hkl : k = l
  · subst hkl
    cases hdeleted : m.deleted with
    | true =>
      -- what is deleted is not seen at all
      refine iff_of_false ?_ ?_
      · rintro ⟨_, hlive, _⟩
        cases hdeleted.symm.trans hlive
      · rintro ⟨_, hlive, _⟩
        cases hdeleted.symm.trans hlive
    | false =>
      rcases hl.naturalKey p with ⟨n, hn⟩
      have hafter : Bears k n.value (m.checkIn v) :=
        bears_of_open (m := m.checkIn v) hk rfl rfl hdeleted hn (hvalue.trans hn)
      exact bears_iff (hbears rfl hdeleted n hn) hafter value
  · have hm : m.kind ≠ l := fun h => hkl (hkind.symm.trans h)
    exact iff_of_false (not_bears_of_kind hkl) (not_bears_of_kind hm)

/-- What is taken out of an entity can be previewed, so that the entity is seen with the key of its
plain value while it fills. -/
theorem exists_presents {p : Plain m.kind} {h : Handle m.kind} (hk : Kind.IsBlog m.kind)
    (scope : Scope) (v : Value m.kind) (s : Session model) : ∃ shown : Entity model,
      m.Edited shown ∧ shown.filling = true ∧ Presents p shown ∧
      (∀ s : Session model, Proper s (shown.state : Value shown.kind)) ∧
      scope.showPreview h v (mapping.naturalKey p) (s.modifyEntity h.slot fun _ =>
        { m.withState (Value.blank m.kind) with filling := true }) =
          ((), s.modifyEntity h.slot fun _ => shown) := by
  rcases preview_eq_ok hk scope p v with ⟨w, payload, hpreview, hencode, hkey⟩
  rcases Scope.decode_of_preview hpreview with ⟨_, _, _, hdecode⟩
  refine ⟨Entity.standIn { m.withState (Value.blank m.kind) with filling := true } w payload,
    ⟨rfl, rfl, rfl, fun _ hfilling => by cases hfilling⟩, rfl, ?_,
    fun _ => proper_of_decode hdecode, ?_⟩
  · intro n hn hlive
    have hopen : Open (Entity.standIn { m.withState (Value.blank m.kind) with filling := true } w
        payload) := (congrArg Except.toOption hencode).symm
    exact bears_of_open hk rfl hopen hlive hn (hkey.trans hn)
  · exact (Mapping.showPreview_of_ok hpreview).trans
      (congrArg (Prod.mk ()) (Mapping.modifyEntity_twice s h.slot _ _))

/-- When a fill is over, its entity is still seen with the key that it was shown with, so putting
the value with this key back changes nothing of that. -/
theorem alters_checkIn_of_presents {shown : Entity model} {p : Plain k} {h : Handle k}
    (hl : l.IsKeyed) (hk : k.IsBlog) (hshown : s.entity? h.slot = some shown)
    (hkind : shown.kind = k) (hpresents : Presents p shown) (hrun : Run Deed.Native s s')
    (hretains : Retains c l s s') {w : Value k} (hvalue : Value.naturalKey? w = Plain.naturalKey p)
    (hproper : Proper s' w) (hm : s'.entity? h.slot = some m) : Alters l s' m (m.checkIn w) := by
  have hmkind : m.kind = k := by
    rcases hrun.kind hshown with ⟨m', hm', hkind'⟩
    cases hm.symm.trans hm'
    exact hkind'.trans hkind
  refine alters_checkIn hl hk hmkind hvalue hproper ?_
  intro hkl hlive n hn
  -- what was deleted before would be deleted still
  have hliveShown : shown.deleted = false := by
    by_contra hdeleted
    have hkept : s'.isDeleted h = true := by
      refine hrun.induct (P := fun s => s.isDeleted h = true) ?_ ?_
      · exact fun _ hstep => hstep.deleted
      · rw [isDeleted, hshown]
        exact Bool.of_not_eq_false hdeleted
    rw [isDeleted, hm] at hkept
    cases hlive.symm.trans hkept
  have hcarries : Carries s l h.slot n.value :=
    ⟨shown, hshown, hkl ▸ hpresents n hn hliveShown⟩
  rcases hretains.carries h.slot n.value hcarries with ⟨m', hm', hbears⟩
  cases hm.symm.trans hm'
  exact hkl.symm ▸ hbears

/-- Taking a value out of the entity of a plain value, and putting it back filled. -/
theorem Staged.refill {m : Entity model} {p : Plain m.kind} {h : Handle m.kind} {bound : Nat}
    (hstaged : s₁.KeysLeft → Staged base scope.context l p s (some h) s₁) (hl : l.IsKeyed)
    (hs₁ : Sound s₁) (hm : s₁.entity? h.slot = some m) (hk : Kind.IsBlog m.kind)
    (hp : Plain.weight p < bound + 1)
    (hnested : NestedLeads Kind.IsNested (Careful base scope.context l) (mapping.nested scope hp))
    (g : Value m.kind → Value m.kind)
    (hg : ∀ v, ownedComments (g v) = ownedComments v)
    (hrefill : (mapping.refill (T := model) scope hp (fun v => return g v) h (m.value m.kind)
      (s₁.modifyEntity h.slot fun _ =>
        { m.withState (Value.blank m.kind) with filling := true })).2 = s')
    (hkeys : s'.KeysLeft) : Frugal base scope.context l s' ∧
      Retains scope.context l s s' := by
  -- the fill goes on from where the entity is shown, and leaves it filling
  rcases exists_presents (p := p) (h := h) hk scope (g (m.value m.kind)) s₁ with
    ⟨shown, hedited, hfilling, hpresents, hproperShown, hpreviewed⟩
  let s₀ : Session model := s₁.modifyEntity h.slot fun _ => shown
  have hs₀ : Sound s₀ := hs₁.replaceEntity hm hedited
  have hshown : s₀.entity? h.slot = some shown := entity?_modifyEntity_self hm fun _ => shown
  have hadvances : Proceeds s₀ (fill p (mapping.nested scope hp) scope h.id (g (m.value m.kind))
      s₀).2 := by
    refine lawful.fill m.kind p (mapping.nested scope hp) scope h.id _ ?_ s₀ hs₀
    exact fun l q hq hook hhook => lawful.reconcileBelow scope bound l q _ hook hhook
  have hvalue := naturalKey?_fill hk p (mapping.nested scope hp) scope h.id (g (m.value m.kind)) s₀
  have hadvancing : NestedLeads Kind.IsNested Advances
      (mapping.nested (T := model) (p := p) scope hp) :=
    fun l _ q hq g => advances_reconcileBelow scope bound q _ g
  have hproper := proper_fill hk p hadvancing
    (fun l q hq g s hs h hh => lawful.holds_reconcileBelow scope bound _ _
      (fun v => reads_sample.pure (g v)) hs hh) scope h.id (g (m.value m.kind)) hs₀
  have hcareful : Proper s₀ (g (m.value m.kind)) → Careful base scope.context l s₀
      (fill p (mapping.nested scope hp) scope h.id (g (m.value m.kind)) s₀).2 :=
    careful_fill hl hk p hnested scope h.id _ hs₀
  rcases hfilled : fill p (mapping.nested scope hp) scope h.id (g (m.value m.kind)) s₀ with ⟨w, s₂⟩
  rw [hfilled] at hadvances hvalue hproper hcareful
  have hend : s' = s₂.checkIn h w :=
    hrefill.symm.trans (Mapping.refill_snd rfl hpreviewed hfilled)
  subst hend
  have hkeys₂ : s₂.KeysLeft := hkeys
  have hstaged := hstaged (hadvances.run.keysLeft hkeys₂)
  rcases hstaged.shown h m shown rfl hm hedited (hproperShown s₁) hpresents with
    ⟨hfrugal₀, hretains₀⟩
  have hproper₀ : Proper s₀ (g (m.value m.kind)) := by
    intro x hx b hbound
    rw [hg, Entity.value_self] at hx
    refine holds_modifyEntity ?_ (hstaged.proper h m rfl hm x hx b hbound)
    intro m' hm'
    cases hm.symm.trans hm'
    exact hedited.kind
  rcases (hcareful hproper₀).frugal hfrugal₀ hkeys₂ with ⟨hfrugal₂, hretains₂⟩
  have hout : Mapping.CheckedOut s₂ h :=
    Mapping.CheckedOut.proceeds ⟨shown, hshown, hedited.kind, hfilling⟩ hadvances
  have halters : ∀ m₂, s₂.entity? h.slot = some m₂ → Alters l s₂ m₂ (m₂.checkIn w) :=
    fun _ hm₂ => alters_checkIn_of_presents hl hk hshown hedited.kind hpresents hadvances.run
      hretains₂ hvalue hproper hm₂
  exact ⟨hfrugal₂.modifyEntity hl ((Mapping.run_checkIn hout w).sound hfrugal₂.sound) halters,
    (hretains₀.trans hretains₂).trans (retains_modifyEntity halters)⟩

theorem careful_reconcileBelow (hl : l.IsKeyed) (scope : Scope) (bound : Nat) (hk : k.IsBlog)
    (p : Plain k) (hp : Plain.weight p < bound) (g : Value k → Value k)
    (hg : ∀ v, ownedComments (g v) = ownedComments v) :
    Work.Leads (Careful base scope.context l)
      (mapping.reconcileBelow (T := model) scope bound k p hp fun v => return g v) := by
  -- by induction on the bound, as fills reconcile lighter plain values
  induction bound generalizing k with
  | zero => exact absurd hp (Nat.not_lt_zero _)
  | succ bound ih =>
    intro s
    refine ⟨advances_reconcileBelow scope (bound + 1) p hp g s, ?_⟩
    intro hfrugal hkeys
    have hs := hfrugal.sound
    rcases Mapping.reconcileBelow_cases (M := mapping) hs scope hp (fun v => return g v) with
      ⟨s₁, hfound, hend⟩ | ⟨h, s₁, m, hfound, hm, _, hfilling, hend⟩ |
      ⟨h, s₁, m, hfound, hm, rfl, _, hend⟩
    · rw [hend] at hkeys ⊢
      have hstaged := hfrugal.stage hl hk hfound hkeys
      exact ⟨hstaged.idle fun h _ hh => (by cases hh), hstaged.retains⟩
    · rw [hend] at hkeys ⊢
      have hstaged := hfrugal.stage hl hk hfound ((Step.report s₁ _).keysLeft hkeys)
      refine ⟨(hstaged.idle ?_).report _, hstaged.retains.trans (retains_report _)⟩
      intro h' m' hh hm'
      cases hh
      cases hm.symm.trans hm'
      exact hfilling
    · rw [hend] at hkeys ⊢
      have hs₁ : Sound s₁ := (Mapping.proceeds_findOrInsertUnique hs hfound).run.sound hs
      have hnested : NestedLeads Kind.IsNested (Careful base scope.context l)
          (mapping.nested (T := model) (p := p) scope hp) := by
        intro l hl q hq g
        refine ih hl.isBlog q _ g ?_
        intro v
        cases l <;> first | rfl | exact absurd rfl hl.2
      exact Staged.refill (hfrugal.stage hl hk hfound) hl hs₁ hm hk hp hnested g hg rfl hkeys

/-! ## Synchronizing -/

/-- A call that synchronizes plain values of a type, as a set or as a list. -/
inductive Synchronizes (scope : Scope) (k : Kind) (s : Session model) : Session model → Prop where
  | set (ps : List (Plain k)) : Synchronizes scope k s
      (mapping.syncSet (T := model) (k := k) scope ps pure s).2
  | list (ps : List (Plain k)) : Synchronizes scope k s
      (mapping.syncList (T := model) (k := k) scope ps pure s).2

theorem Synchronizes.careful (hl : l.IsKeyed) (hk : k.IsBlog) (h : Synchronizes scope k s s') :
    Careful base scope.context l s s' := by
  have hreconcile : ∀ p : Plain k, Work.Leads (Careful base scope.context l)
      (mapping.reconcile (T := model) scope p pure) :=
    fun p => careful_reconcileBelow hl scope _ hk p _ id fun _ => rfl
  cases h with
  | set ps => exact (reads_careful hl).buildSet (fun p _ => hreconcile p) s
  | list ps => exact (reads_careful hl).buildList (fun p _ => hreconcile p) s

/-- Whatever has happened before, if entities of a type can be looked up by their keys, a call that
synchronizes plain values leaves every entity of the type that it has created with a key, no two of
them with the same one, and none with a key that an entity in the registry was seen with before. -/
theorem one_created (hrun : Run (fun _ => True) .empty s) (hk : k.IsKeyed) (hl : l.IsKeyed)
    (hpending : s.takesPending scope.context = true) (htyped : Typed scope.context s)
    (hlookup : ∀ value, ∃ found s₁,
      (scope.fetch (T := model) l (keyQuery l value)).outcome s = (.ok found, s₁))
    (hsync : Synchronizes scope k s s') (hkeys : s'.KeysLeft) :
    (∀ key e, Created s.entities.size s' scope.context l key e →
      ∃ value, Carries s' l e.slot value) ∧
    (∀ key key' e e' value, Created s.entities.size s' scope.context l key e →
      Created s.entities.size s' scope.context l key' e' →
      Carries s' l e.slot value → Carries s' l e'.slot value → key = key') ∧
    ∀ key key' e e' value, (s.registry scope.context).get? key = some e →
      Carries s l e.slot value → Created s.entities.size s' scope.context l key' e' →
      ¬ Carries s' l e'.slot value := by
  have hs : Sound s := hrun.sound sound_empty
  have hcareful : Careful s.entities.size scope.context l s s' := hsync.careful hl hk.isBlog
  have hrun' := (hcareful.advances hs).run
  have hnumbered : Numbered s :=
    hrun.numbered sound_empty numbered_empty (hrun'.keysLeft hkeys)
  have hstart : Frugal s.entities.size scope.context l s :=
    frugal_start hs hnumbered (searchable_of_lookups hs hpending hlookup) htyped
  rcases hcareful.frugal hstart hkeys with ⟨hend, hretains⟩
  refine ⟨hend.keyed, ?_, ?_⟩
  · intro key key' e e' value hcreated hcreated' hcarries hcarries'
    exact (hend.apart key e key' e' value hcreated hcreated'.entry hcarries hcarries').symm
  · intro key key' e e' value he hcarries hcreated' hcarries'
    have he' := hretains.entry key e he
    -- what was there before has an older slot than what was created
    have hkey := hend.apart key' e' key e value hcreated' he' hcarries'
      (hretains.carries _ _ hcarries)
    subst hkey
    cases he'.symm.trans hcreated'.entry
    rcases (hs.lodged he).entity with ⟨m, hm, _⟩
    exact Nat.not_lt.2 hcreated'.later (lt_size_of_entity? hm)

/-- The red tag has a row that the second context has not read yet, and blue comes twice. -/
def redBlueBlue : List TagPlain := [⟨"red", none⟩, ⟨"blue", some "b"⟩, ⟨"blue", none⟩]

def blueCreated : Session model :=
  (mapping.syncSet (T := model) (k := Kind.tag) (.within ⟨2⟩) redBlueBlue pure redSaved).2

/-- One tag is created, and it is blue. -/
theorem one_created_blue :
    (∃ e, Created redSaved.entities.size blueCreated ⟨2⟩ Kind.tag 2 e ∧
      Carries blueCreated Kind.tag e.slot (.string "blue")) ∧
    ∀ key e, Created redSaved.entities.size blueCreated ⟨2⟩ Kind.tag key e →
      Carries blueCreated Kind.tag e.slot (.string "blue") → key = 2 := by
  have hrun : Run (fun _ => True) .empty redSaved := run_redSaved.mono fun _ _ => trivial
  have hready := ready_redSaved Entity.Shown
  have hidentifies := identifies (k := Kind.tag) (p := (⟨"red", none⟩ : TagPlain)) trivial rfl
  have htyped : Typed (Scope.within ⟨2⟩).context redSaved := by
    intro key e m he
    have hregistry : redSaved.registry (Scope.within ⟨2⟩).context = .empty := rfl
    rw [hregistry] at he
    cases he
  have hblue : ∃ e, Created redSaved.entities.size blueCreated ⟨2⟩ Kind.tag 2 e ∧
      Carries blueCreated Kind.tag e.slot (.string "blue") := by
    have hentry : ((blueCreated.registry ⟨2⟩).get? 2).any (fun e =>
        e.kind = Kind.tag ∧ e.pending = true ∧ e.slot = 2) = true := by decide +kernel
    have hentity : (blueCreated.entity? 2).any (fun m =>
        m.kind = Kind.tag ∧ m.deleted = false ∧ m.visible?.any (fun visible =>
          visible.toOption.any fun payload =>
            (payload.valueAt "name").same (.string "blue"))) = true := by
      decide +kernel
    have hsize : redSaved.entities.size ≤ 2 := by decide +kernel
    rcases (Option.any_eq_true _ _).1 hentry with ⟨e, he, hfound⟩
    rcases (Option.any_eq_true _ _).1 hentity with ⟨m, hm, hshown⟩
    rcases of_decide_eq_true hfound with ⟨hkind, hpending, hslot⟩
    rcases of_decide_eq_true hshown with ⟨hmkind, hlive, hvisible⟩
    rcases (Option.any_eq_true _ _).1 hvisible with ⟨visible, hvisible, hpayload⟩
    rcases (Option.any_eq_true _ _).1 hpayload with ⟨payload, hok, hsame⟩
    cases visible with
    | error fault => cases hok
    | ok _ =>
      cases hok
      refine ⟨e, ⟨he, hkind, hpending, hslot ▸ hsize⟩, m, hslot ▸ hm, hmkind, hlive, payload,
        hvisible, hsame⟩
  have hsync : Synchronizes (.within ⟨2⟩) Kind.tag redSaved blueCreated :=
    Synchronizes.set (k := Kind.tag) redBlueBlue
  rcases one_created hrun (k := Kind.tag) (l := Kind.tag) trivial trivial rfl htyped
    (hidentifies.fetch (hrun.sound sound_empty) (.within ⟨2⟩) hready) hsync
    (by decide +kernel) with ⟨_, hapart, _⟩
  refine ⟨hblue, ?_⟩
  rcases hblue with ⟨e', hcreated', hcarries'⟩
  intro key e hcreated hcarries
  exact hapart key 2 e e' _ hcreated hcreated' hcarries hcarries'

/-! ### Lookups that fail -/

/-- The row of a node with a code that is too large for nodes. -/
def oversized : Rows :=
  Rows.file .empty "Node" 1 ⟨⟨"Node", 1⟩, 1, .object [("code", .ofUInt64 18446744073709551615)]⟩

/-- A store that took in the row, and a context. -/
def oversizedOpen : Session model :=
  (((Session.empty.openStore standardSchema .default).2.modifyStore ⟨0⟩ fun _ =>
    ⟨standardSchema, .default, 2, oversized⟩).openContext ⟨0⟩).2

/-- With a row that cannot be read, no node is found by its code, and each occurrence of the code in
the list gets a node of its own. -/
theorem create_nodes_twice : Run (fun _ => True) .empty oversizedOpen ∧
    oversizedOpen.takesPending ⟨1⟩ = true ∧ oversizedOpen.entities.size = 0 ∧
    ∃ members s', mapping.syncList (T := model) (k := Kind.node) (.within ⟨1⟩)
        [.leaf (some 7) none, .leaf (some 7) none] pure oversizedOpen = (members, s') ∧
      members.ids = [⟨"Node", 2⟩, ⟨"Node", 3⟩] ∧
      (s'.seen? ⟨1⟩ Kind.node 2).map Node.code = some (some 7) ∧
      (s'.seen? ⟨1⟩ Kind.node 3).map Node.code = some (some 7) := by
  have hcheck : (⟨1, 1, 2, oversized⟩ : Snapshot).check standardSchema = .ok () := rfl
  have hrun : Run (fun _ => True) .empty oversizedOpen := run_ofSnapshot hcheck
  exact ⟨hrun, rfl, rfl, _, _, rfl, by decide +kernel, by decide +kernel, by decide +kernel⟩

end Reconcile.Sample
