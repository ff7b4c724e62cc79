import Reconcile.Proofs.Session.Bracketing
import Reconcile.Proofs.Session.Reconciling

/-!
# The course of fills

What goes on while plain values are reconciled is a tree: a fill takes a value out of its entity,
runs the hook, shows a preview, runs the fill of the application and puts the filled value back, and
in the course of the hook and of the fill other fills may begin and end (`Course`).  A course says
which fills are in progress around it.

A course leaves every entity filling or not as it was (`Course.spec`), and whatever was taken out in
it has come back filled (`Course.sourced`): the value of an entity was there before, was read from a
row, or was put back by a fill of that entity in this very course (`PutsBack`).
-/

namespace Reconcile

open Session

variable {T : Model} {k : T.Kind} {s s' s'' s₁ s₂ s₃ : Session T} {scope : Scope}

namespace Mapping

/-- What happens while these fills are in progress, the innermost of them first.  Besides fills,
steps are taken that are allowed and leave alone what fills. -/
inductive Course (M : Mapping T) (allow : Deed → Prop) : List Nat → Session T → Session T → Prop
  where
  | refl (slots : List Nat) (s : Session T) : Course M allow slots s s
  | trans {slots : List Nat} {s s' s'' : Session T} (first : Course M allow slots s s')
      (second : Course M allow slots s' s'') : Course M allow slots s s''
  | step {slots : List Nat} {s s' : Session T} {deed : Deed} (hallow : allow deed)
      (hstep : Step s deed s') (hbrackets : Brackets s s') : Course M allow slots s s'
  /-- The entity of a plain value is being filled already. -/
  | again {slots : List Nat} {s s₁ : Session T} {scope : Scope} {k : T.Kind} {p : M.Plain k}
      {h : Handle k} (hfound : M.findOrInsertUnique scope p s = (some h, s₁))
      (hmem : h.slot ∈ slots) : Course M allow slots s (s₁.report (.alreadyFilling h.id))
  | fill {slots : List Nat} {s s₁ s₂ s₃ s₄ s₅ : Session T} {scope : Scope} {k : T.Kind}
      {p : M.Plain k} {hook : Hook T k} {nested : Reconciler T M.Plain M.weight (M.weight p)}
      {h : Handle k} {v v₁ v₂ : T.Value k}
      (hfound : M.findOrInsertUnique scope p s = (some h, s₁)) (hfree : h.slot ∉ slots)
      (hout : s₁.checkOut? h = some (v, s₂)) (hhook : hook v s₂ = (v₁, s₃))
      (hooked : Course M allow (h.slot :: slots) s₂ s₃)
      (hshow : scope.showPreview h v₁ (M.naturalKey p) s₃ = ((), s₄))
      (hfill : M.fill p nested scope h.id v₁ s₄ = (v₂, s₅))
      (filled : Course M allow (h.slot :: slots) s₄ s₅) : Course M allow slots s (s₅.checkIn h v₂)

variable {M : Mapping T} {p : M.Plain k} {h : Handle k} {allow : Deed → Prop} {slots : List Nat}

/-! ## Looking an entity up -/

/-- What is found was read, and what is not found is inserted after all was read. -/
theorem findOrInsertUnique_cases (hs : Sound s) {found : Option (Handle k)}
    (hfound : M.findOrInsertUnique scope p s = (found, s₁)) :
    Run Deed.Reading s s₁ ∨ ∃ s₀ store, Run Deed.Reading s s₀ ∧
      s₀.storeOf? scope.context = some store ∧ s₁ = s₀.insertUnder scope.context k store.nextKey ∧
      ∃ h, found = some h ∧ h.slot = s₀.entities.size := by
  rcases hfind : M.findUnique scope p s with ⟨found', s₀⟩
  have hread : Run Deed.Reading s s₀ := by
    have hrun := reaches_findByKey scope k (M.naturalKey p) s hs
    have hend : (scope.findByKey k (M.naturalKey p) s).2 = s₀ := congrArg Prod.snd hfind
    rwa [hend] at hrun
  cases found' with
  | some h' =>
    rw [findOrInsertUnique_of_found hfind] at hfound
    cases hfound
    exact Or.inl hread
  | none =>
    rw [findOrInsertUnique_of_none hfind] at hfound
    rcases insert_cases scope k s₀ with ⟨fault, hfault, _⟩ | ⟨store, hstore, hinsert⟩
    · simp only [Scope.insertOrReport, Work.bind_apply, hfault] at hfound
      cases hfound
      exact Or.inl (hread.trans ((Step.report s₀ _).run trivial))
    · simp only [Scope.insertOrReport, Work.bind_apply, hinsert] at hfound
      cases hfound
      exact Or.inr ⟨s₀, store, hread, hstore, rfl, _, rfl, rfl⟩

theorem loads_findUnique (hs : Sound s) (scope : Scope) (p : M.Plain k) :
    Loads s (M.findUnique scope p s).2 scope.context k (s.rowsNamed scope.context k) := by
  cases hkey : M.naturalKey p with
  | none =>
    rw [findUnique, hkey]
    exact Loads.refl s _ k _
  | some key =>
    have hloads := loads_fetch hs scope k (.matching (T.entityName k) key.filter)
    rcases hfetch : (scope.fetch k (.matching (T.entityName k) key.filter)).outcome s with
      ⟨fault | found, s₁⟩
    · rw [hfetch] at hloads
      rw [findUnique, hkey]
      simp only [Scope.findByKey, Scope.findMatching, Scope.fetchOrReport, Work.bind_apply, hfetch]
      exact hloads.trans (Loads.journal s₁ _ k _ _)
    · rw [hfetch] at hloads
      rw [findUnique_of_fetch hkey hfetch]
      exact hloads

/-- Looking an entity up does nothing to the entities that are there. -/
theorem entity?_findOrInsertUnique (hs : Sound s) {found : Option (Handle k)}
    (hfound : M.findOrInsertUnique scope p s = (found, s₁)) {n : Nat} {m : Entity T}
    (hm : s.entity? n = some m) : s₁.entity? n = some m := by
  rcases hfind : M.findUnique scope p s with ⟨found', s₀⟩
  have hloads := loads_findUnique hs scope p
  rw [hfind] at hloads
  have hm₀ : s₀.entity? n = some m := hloads.entity hm
  cases found' with
  | some h' =>
    rw [findOrInsertUnique_of_found hfind] at hfound
    cases hfound
    exact hm₀
  | none =>
    rw [findOrInsertUnique_of_none hfind] at hfound
    rcases insert_cases scope k s₀ with ⟨fault, hfault, _⟩ | ⟨store, _, hinsert⟩
    · simp only [Scope.insertOrReport, Work.bind_apply, hfault] at hfound
      cases hfound
      exact hm₀
    · simp only [Scope.insertOrReport, Work.bind_apply, hinsert] at hfound
      cases hfound
      exact entity?_insertUnder hm₀

theorem run_findOrInsertUnique (hs : Sound s) {found : Option (Handle k)}
    (hfound : M.findOrInsertUnique scope p s = (found, s₁)) : Run Deed.Native s s₁ :=
  (proceeds_findOrInsertUnique hs hfound).run

theorem brackets_findOrInsertUnique (hs : Sound s) {found : Option (Handle k)}
    (hfound : M.findOrInsertUnique scope p s = (found, s₁)) : Brackets s s₁ := by
  have hread : ∀ {s₀}, Run Deed.Reading s s₀ → Brackets s s₀ := by
    intro s₀ hrun
    refine hrun.brackets ?_
    rintro deed hdeed slot rfl
    exact hdeed
  rcases findOrInsertUnique_cases hs hfound with hrun | ⟨s₀, store, hrun, hstore, rfl, _⟩
  · exact hread hrun
  · refine (hread hrun).trans ((Step.insert k hstore).brackets ?_)
    intro slot hdeed
    cases hdeed

/-! ## The stages of a fill -/

theorem CheckedOut.brackets (hout : CheckedOut s h) (hbrackets : Brackets s s') :
    CheckedOut s' h := by
  rcases hout with ⟨m, hm, hkind, hfills⟩
  rcases hbrackets.kept _ m hm with ⟨m', hm', hfilling, hshown⟩
  exact ⟨m', hm', (hshown hfills).kind.trans hkind, hfilling.trans hfills⟩

/-- The value was taken out of an entity that did not fill, and nothing else was done. -/
structure ChecksOut (s : Session T) (h : Handle k) (v : T.Value k) (s₁ : Session T) : Prop where
  run : Run (fun _ => True) s s₁
  out : CheckedOut s₁ h
  but : BracketsBut h.slot s s₁
  free : ∃ m, s.entity? h.slot = some m ∧ m.filling = false ∧ v = m.value k
  push : ∀ slots, s.Stack slots → s₁.Stack (h.slot :: slots)
  others : ∀ n, n ≠ h.slot → s₁.entity? n = s.entity? n

theorem checksOut {v : T.Value k} (hholds : s.Holds h) (hout : s.checkOut? h = some (v, s₁)) :
    ChecksOut s h v s₁ := by
  rcases checkOut?_eq_some hholds hout with ⟨m, out, hm, hfree, rfl, rfl, hblank, rfl⟩
  have hfills : out.filling = true := by rw [hblank]
  have hkind : out.kind = m.kind := by rw [hblank]; rfl
  constructor
  case run =>
    rw [hblank]
    exact (Step.edit hm (Entity.edited_checkOut m (T.blank m.kind))).run trivial
  case out => exact ⟨out, entity?_modifyEntity_self hm _, hkind, hfills⟩
  case but => exact BracketsBut.modifyEntity s h.slot _
  case free => exact ⟨m, hm, hfree, rfl⟩
  case push => exact fun slots hstack => hstack.push hm hfree hfills
  case others => exact fun n hn => entity?_modifyEntity_of_ne s hn _

/-- A preview is shown of the entity that fills and of no other. -/
structure Shows (s : Session T) (h : Handle k) (s₁ : Session T) : Prop where
  run : Run (fun _ => True) s s₁
  out : CheckedOut s₁ h
  but : BracketsBut h.slot s s₁
  stack : ∀ slots, s.Stack slots → s₁.Stack slots
  others : ∀ n, n ≠ h.slot → s₁.entity? n = s.entity? n

theorem shows_showPreview {v : T.Value k} {key : Option NaturalKey} (hout : CheckedOut s h)
    (hshow : scope.showPreview h v key s = ((), s₁)) : Shows s h s₁ := by
  have hproceeds := proceeds_showPreview scope hout v key
  rw [hshow] at hproceeds
  have hrun : Run (fun _ => True) s s₁ := hproceeds.run.mono fun _ _ => trivial
  have hout' := hout.proceeds hproceeds
  cases hpreview : scope.preview v key with
  | ok preview =>
    rw [showPreview_of_ok hpreview] at hshow
    cases hshow
    exact ⟨hrun, hout', BracketsBut.modifyEntity s h.slot _,
      fun slots hstack => hstack.modifyEntity fun _ => rfl,
      fun n hn => entity?_modifyEntity_of_ne s hn _⟩
  | error fault =>
    rw [showPreview_of_error hpreview] at hshow
    cases hshow
    have hbrackets : Brackets s (s.report (.previewFailed h.id fault)) := Brackets.of_entities rfl
    exact ⟨hrun, hout', hbrackets.but h.slot, fun slots hstack => hstack.brackets hbrackets,
      fun n _ => rfl⟩

/-! ## What a course does -/

/-- A course is a run, and it ends with the same fills in progress. -/
theorem Course.spec (hcourse : Course M allow slots s s') (hs : Sound s) :
    Run (fun _ => True) s s' ∧ Brackets s s' := by
  induction hcourse with
  | refl => exact ⟨Run.refl _, Brackets.refl _⟩
  | trans _ _ ih ih' =>
    rcases ih hs with ⟨hrun, hbrackets⟩
    rcases ih' (hrun.sound hs) with ⟨hrun', hbrackets'⟩
    exact ⟨hrun.trans hrun', hbrackets.trans hbrackets'⟩
  | step _ hstep hbrackets => exact ⟨hstep.run trivial, hbrackets⟩
  | again hfound _ =>
    have hrun := (run_findOrInsertUnique hs hfound).mono fun _ _ => trivial
    exact ⟨hrun.trans ((Step.report _ _).run trivial),
      (brackets_findOrInsertUnique hs hfound).trans (Brackets.of_entities rfl)⟩
  | @fill slots s s₁ s₂ s₃ s₄ s₅ scope k p hook nested h v v₁ v₂ hfound _ hout hhook _ hshow hfill _
      ihHook ihFill =>
    have hrun₁ : Run (fun _ => True) s s₁ :=
      (run_findOrInsertUnique hs hfound).mono fun _ _ => trivial
    have hs₁ := hrun₁.sound hs
    have hchecksOut := checksOut (holds_of_findOrInsertUnique hs hfound) hout
    -- in the meantime the entity is left to the fill
    rcases ihHook (hchecksOut.run.sound hs₁) with ⟨hrun₃, hbrackets₃⟩
    have hshows := shows_showPreview (hchecksOut.out.brackets hbrackets₃) hshow
    have hrun₄ := ((hrun₁.trans hchecksOut.run).trans hrun₃).trans hshows.run
    rcases ihFill (hrun₄.sound hs) with ⟨hrun₅, hbrackets₅⟩
    have hout₅ := hshows.out.brackets hbrackets₅
    have hclosed : Run (fun _ => True) s₅ (s₅.checkIn h v₂) :=
      (run_checkIn hout₅ v₂).mono fun _ _ => trivial
    refine ⟨(hrun₄.trans hrun₅).trans hclosed, ?_⟩
    have hbut := (((hchecksOut.but.trans (hbrackets₃.but h.slot)).trans hshows.but).trans
      (hbrackets₅.but h.slot)).trans (BracketsBut.modifyEntity s₅ h.slot fun m => m.checkIn v₂)
    rcases hchecksOut.free with ⟨m, hm, hfree, _⟩
    refine (brackets_findOrInsertUnique hs hfound).trans (hbut.close hm hfree ?_)
    intro m' hm'
    rcases hout₅ with ⟨m₅, hm₅, _⟩
    rw [entity?_modifyEntity_self hm₅] at hm'
    cases hm'
    rfl

/-! ## Fills that put a value back -/

/-- The stages of a fill that is about to put `w` back: the value is taken out at `s₂`, the hook has
run at `s₃`, the preview is shown at `s₄`, and the fill of the application has made `w` at `s₅`. -/
inductive Stages (M : Mapping T) (h : Handle k) (w : T.Value k) :
    Session T → Session T → Session T → Session T → Session T → Prop
  | mk {s s₁ s₂ s₃ s₄ s₅ : Session T} {scope : Scope} {p : M.Plain k} {hook : Hook T k}
      {nested : Reconciler T M.Plain M.weight (M.weight p)} {v v₁ : T.Value k}
      (hfound : M.findOrInsertUnique scope p s = (some h, s₁))
      (hout : s₁.checkOut? h = some (v, s₂)) (hhook : hook v s₂ = (v₁, s₃))
      (hshow : scope.showPreview h v₁ (M.naturalKey p) s₃ = ((), s₄))
      (hfill : M.fill p nested scope h.id v₁ s₄ = (w, s₅)) : Stages M h w s s₂ s₃ s₄ s₅

/-- A course in which a fill of the entity puts this value back. -/
inductive PutsBack (M : Mapping T) (allow : Deed → Prop) (n : Nat) (w : T.Value k) :
    List Nat → Session T → Session T → Prop
  | here {slots : List Nat} {s s₂ s₃ s₄ s₅ : Session T} {h : Handle k} (hslot : h.slot = n)
      (hfree : n ∉ slots) (hstages : Stages M h w s s₂ s₃ s₄ s₅)
      (hooked : Course M allow (n :: slots) s₂ s₃) (filled : Course M allow (n :: slots) s₄ s₅) :
      PutsBack M allow n w slots s (s₅.checkIn h w)
  | first {slots : List Nat} {s s' s'' : Session T} (first : PutsBack M allow n w slots s s')
      (second : Course M allow slots s' s'') : PutsBack M allow n w slots s s''
  | second {slots : List Nat} {s s' s'' : Session T} (first : Course M allow slots s s')
      (second : PutsBack M allow n w slots s' s'') : PutsBack M allow n w slots s s''
  /-- In the course of the hook of another fill. -/
  | hooked {slots : List Nat} {s s₂ s₃ s₄ s₅ : Session T} {l : T.Kind} {h : Handle l}
      {v : T.Value l} (hfree : h.slot ∉ slots) (hstages : Stages M h v s s₂ s₃ s₄ s₅)
      (hooked : PutsBack M allow n w (h.slot :: slots) s₂ s₃)
      (filled : Course M allow (h.slot :: slots) s₄ s₅) :
      PutsBack M allow n w slots s (s₅.checkIn h v)
  /-- In the course of what the application does in another fill. -/
  | filled {slots : List Nat} {s s₂ s₃ s₄ s₅ : Session T} {l : T.Kind} {h : Handle l}
      {v : T.Value l} (hfree : h.slot ∉ slots) (hstages : Stages M h v s s₂ s₃ s₄ s₅)
      (hooked : Course M allow (h.slot :: slots) s₂ s₃)
      (filled : PutsBack M allow n w (h.slot :: slots) s₄ s₅) :
      PutsBack M allow n w slots s (s₅.checkIn h v)

/-! ## Where values come from -/

section Given

variable {n : Nat} {m m' : Entity T}

/-- The value of an entity was there before, or the entity is new and was read from a row. -/
inductive Given (s : Session T) (n : Nat) (m' : Entity T) : Prop
  | had {m : Entity T} (hm : s.entity? n = some m) (hfree : m.filling = false)
      (hkind : m'.kind = m.kind) (hencode : T.encode m'.state = T.encode m.state)
  | read {a : Session T} {c : ContextId} {row : Row} {v : T.Value m'.kind}
      (hnew : s.entities.size ≤ n) (hrun : Run (fun _ => True) s a)
      (hrow : (a.rowsOf c).row? row.id = some row)
      (hname : row.id.entity = T.entityName m'.kind)
      (hdecode : T.decode m'.kind (some c) row.payload = some v)
      (hencode : T.encode m'.state = T.encode v)

namespace Given

theorem congr (hgiven : Given s n m) (hkind : m'.kind = m.kind)
    (hencode : T.encode m'.state = T.encode m.state) : Given s n m' := by
  rcases m' with ⟨k', state, published, temporary, deleted, filling, guard⟩
  obtain rfl : k' = m.kind := hkind
  cases hgiven with
  | had hm hfree hkind' hencode' => exact had hm hfree hkind' (hencode.trans hencode')
  | read hnew hrun hrow hname hdecode hencode' =>
    exact read hnew hrun hrow hname hdecode (hencode.trans hencode')

theorem trans (hrun : Run (fun _ => True) s s') (hgiven : Given s' n m')
    (hbefore : ∀ m, s'.entity? n = some m → m.filling = false → Given s n m) : Given s n m' := by
  cases hgiven with
  | had hm hfree hkind hencode => exact (hbefore _ hm hfree).congr hkind hencode
  | read hnew hrun' hrow hname hdecode hencode =>
    exact read (Nat.le_trans hrun.size_le hnew) (hrun.trans hrun') hrow hname hdecode hencode

theorem of_entity? (hentity : s'.entity? n = s.entity? n) (hm : s'.entity? n = some m)
    (hfree : m.filling = false) : Given s n m :=
  had (hentity.symm.trans hm) hfree rfl rfl

end Given

/-- Besides fills, values only come in with rows. -/
theorem given_step {deed : Deed} (h : Step s deed s') (hdeed : deed.Aside)
    (hm' : s'.entity? n = some m') (hfree : m'.filling = false) : Given s n m' := by
  by_cases hn : n < s.entities.size
  · rcases entity?_of_lt_size hn with ⟨m, hm⟩
    rcases h.entityFate hm with ⟨m'', hm'', hfate⟩
    cases hm'.symm.trans hm''
    cases hfate with
    | regarded hregarded =>
      exact .had hm (hregarded.filling.symm.trans hfree) hregarded.kind hregarded.encode
    | confirmed => exact .had hm hfree rfl rfl
    | edited => exact absurd hdeed id
    | deleted => exact .had hm hfree rfl rfl
  · rcases h.added hm' (Nat.not_lt.1 hn) with
      ⟨k, rfl, _⟩ | ⟨k, v, c, row, _, hrow, hname, hdecode, rfl⟩
    · exact absurd hdeed id
    · exact .read (Nat.not_lt.1 hn) (Run.refl s) hrow hname hdecode rfl

theorem given_run (h : Run Deed.Aside s s') (hm' : s'.entity? n = some m')
    (hfree : m'.filling = false) : Given s n m' := by
  have hgiven := h.induct (P := fun a => Run (fun _ => True) s a ∧
    ∀ n m, a.entity? n = some m → m.filling = false → Given s n m) ?_
    ⟨Run.refl s, fun _ _ hm hfree => Given.of_entity? rfl hm hfree⟩
  · exact hgiven.2 n m' hm' hfree
  · rintro a b deed hdeed hstep ⟨hrun, ih⟩
    refine ⟨hrun.trans (hstep.run trivial), ?_⟩
    intro n m hm hfree
    exact Given.trans hrun (given_step hstep hdeed hm hfree) (ih n)

/-- Looking an entity up makes no value but that of the entity it inserts. -/
theorem given_findOrInsertUnique (hs : Sound s)
    (hfound : M.findOrInsertUnique scope p s = (some h, s₁))
    (hn : n ≠ h.slot ∨ n < s.entities.size) (hm : s₁.entity? n = some m)
    (hfree : m.filling = false) : Given s n m := by
  rcases findOrInsertUnique_cases hs hfound with hrun | ⟨s₀, store, hrun, hstore, rfl, h', hh', hslot⟩
  · exact given_run (hrun.mono fun _ hdeed => hdeed.aside) hm hfree
  · cases hh'
    have hlt : n < s₀.entities.size := by
      rcases hn with hne | hold
      · rw [hslot] at hne
        have hlt := lt_size_of_entity? hm
        rw [size_insertUnder] at hlt
        exact Nat.lt_of_le_of_ne (Nat.le_of_lt_succ hlt) hne
      · exact Nat.lt_of_lt_of_le hold hrun.size_le
    rw [entity?_insertUnder_of_lt hlt] at hm
    exact given_run (hrun.mono fun _ hdeed => hdeed.aside) hm hfree

end Given

/-- The value of an entity was given, or a fill of the entity has put it back. -/
inductive Origin (M : Mapping T) (allow : Deed → Prop) (slots : List Nat) (s s' : Session T)
    (n : Nat) (m' : Entity T) : Prop
  | given (hgiven : Given s n m')
  | filled {w : T.Value m'.kind} (hput : PutsBack M allow n w slots s s')
      (hencode : T.encode m'.state = T.encode w)

namespace Origin

variable {slots' : List Nat} {a b : Session T} {n : Nat} {m m' : Entity T}

theorem congr (horigin : Origin M allow slots s s' n m) (hkind : m'.kind = m.kind)
    (hencode : T.encode m'.state = T.encode m.state) : Origin M allow slots s s' n m' := by
  cases horigin with
  | given hgiven => exact .given (hgiven.congr hkind hencode)
  | filled hput hencode' =>
    rcases m' with ⟨k', state, published, temporary, deleted, filling, guard⟩
    obtain rfl : k' = m.kind := hkind
    exact .filled hput (hencode.trans hencode')

/-- A value that has an origin in a part of the course has one in the whole, if what was there when
the part began has one. -/
theorem within (horigin : Origin M allow slots' a b n m') (hrun : Run (fun _ => True) s a)
    (hput : ∀ {k : T.Kind} (w : T.Value k), PutsBack M allow n w slots' a b →
      PutsBack M allow n w slots s s')
    (hbefore : ∀ m, a.entity? n = some m → m.filling = false → Origin M allow slots s s' n m) :
    Origin M allow slots s s' n m' := by
  cases horigin with
  | given hgiven =>
    cases hgiven with
    | had hm hfree hkind hencode => exact (hbefore _ hm hfree).congr hkind hencode
    | read hnew hrun' hrow hname hdecode hencode =>
      exact .given (.read (Nat.le_trans hrun.size_le hnew) (hrun.trans hrun') hrow hname hdecode
        hencode)
  | filled hpart hencode => exact .filled (hput _ hpart) hencode

end Origin

/-- In a course with these fills in progress, every entity that does not fill afterwards has its
value from where values come from. -/
def Sourced (M : Mapping T) (allow : Deed → Prop) (slots : List Nat) (s s' : Session T) : Prop :=
  ∀ n m, s'.entity? n = some m → m.filling = false → Origin M allow slots s s' n m

/-- In a course beside which nothing is inserted or changed, every value that a fill has taken out
comes back filled. -/
theorem Course.sourced (hcourse : Course M allow slots s s') (hs : Sound s)
    (hstack : s.Stack slots) (hallow : ∀ deed, allow deed → deed.Aside) :
    Sourced M allow slots s s' := by
  induction hcourse with
  | refl => exact fun n m hm hfree => .given (.of_entity? rfl hm hfree)
  | trans first second ih ih' =>
    rcases first.spec hs with ⟨hrun, hbrackets⟩
    intro n m hm hfree
    refine (ih' (hrun.sound hs) (hstack.brackets hbrackets) n m hm hfree).within hrun
      (fun w => .second first) ?_
    intro m hm hfree
    exact (ih hs hstack n m hm hfree).within (Run.refl _) (fun w hput => .first hput second)
      fun m hm hfree => .given (.of_entity? rfl hm hfree)
  | step hdeed hstep _ =>
    exact fun n m hm hfree => .given (given_step hstep (hallow _ hdeed) hm hfree)
  | @again slots s s₁ scope k p h hfound hmem =>
    intro n m hm hfree
    refine .given (given_findOrInsertUnique hs hfound ?_ hm hfree)
    -- an entity that fills is not a new one
    rcases (hstack.mem_iff _).1 hmem with ⟨m', hm', _⟩
    by_cases hn : n = h.slot
    · exact Or.inr (hn ▸ lt_size_of_entity? hm')
    · exact Or.inl hn
  | @fill slots s s₁ s₂ s₃ s₄ s₅ scope k p hook nested h v v₁ v₂ hfound hnot hout hhook hooked hshow
      hfill filled ihHook ihFill =>
    have hrun₁ : Run (fun _ => True) s s₁ :=
      (run_findOrInsertUnique hs hfound).mono fun _ _ => trivial
    have hs₁ := hrun₁.sound hs
    have hstack₁ := hstack.brackets (brackets_findOrInsertUnique hs hfound)
    have hchecksOut := checksOut (holds_of_findOrInsertUnique hs hfound) hout
    have hrun₂ := hrun₁.trans hchecksOut.run
    have hs₂ := hrun₂.sound hs
    have hstack₂ := hchecksOut.push _ hstack₁
    rcases hooked.spec hs₂ with ⟨hrun₃, hbrackets₃⟩
    have hshows := shows_showPreview (hchecksOut.out.brackets hbrackets₃) hshow
    have hrun₄ := (hrun₂.trans hrun₃).trans hshows.run
    have hs₄ := hrun₄.sound hs
    have hstack₄ := hshows.stack _ (hstack₂.brackets hbrackets₃)
    rcases filled.spec hs₄ with ⟨_, hbrackets₅⟩
    rcases hshows.out.brackets hbrackets₅ with ⟨m₅, hm₅, hkind₅, _⟩
    have hstages : Stages M h v₂ s s₂ s₃ s₄ s₅ := .mk hfound hout hhook hshow hfill
    intro n m' hm' hfree
    by_cases hn : n = h.slot
    · subst hn
      have hend := (entity?_modifyEntity_self hm₅ fun m => m.checkIn v₂).symm.trans hm'
      cases hend
      exact .filled (.here rfl hnot hstages hooked filled) rfl
    · -- another entity got its value in the fill, in the hook, or while this one was looked up
      have hm₅' : s₅.entity? n = some m' := (entity?_modifyEntity_of_ne s₅ hn _).symm.trans hm'
      refine (ihFill hs₄ hstack₄ n m' hm₅' hfree).within hrun₄
        (fun w hput => .filled hnot hstages hooked hput) ?_
      intro m₄ hm₄ hfree₄
      rw [hshows.others n hn] at hm₄
      refine (ihHook hs₂ hstack₂ n m₄ hm₄ hfree₄).within hrun₂
        (fun w hput => .hooked hnot hstages hput filled) ?_
      intro m₂ hm₂ hfree₂
      rw [hchecksOut.others n hn] at hm₂
      exact .given (given_findOrInsertUnique hs hfound (Or.inl hn) hm₂ hfree₂)

/-! ## Work that takes such a course -/

/-- A sound session gets to the other one in a course, whatever fills are in progress. -/
def Follows (M : Mapping T) (allow : Deed → Prop) (s s' : Session T) : Prop :=
  Sound s → ∀ slots, s.Stack slots → Course M allow slots s s'

section Follows

variable (hallow : ∀ deed, deed.Aside → allow deed)
include hallow

theorem course_of_reading (hrun : Run Deed.Reading s s') : Course M allow slots s s' := by
  refine hrun.induct (P := Course M allow slots s) ?_ (.refl slots s)
  intro a b deed hdeed hstep ih
  refine ih.trans (.step (hallow deed hdeed.aside) hstep (hstep.brackets ?_))
  rintro slot rfl
  exact hdeed

theorem follows_step {deed : Deed} (hstep : Step s deed s') (hdeed : deed.Aside) :
    Follows M allow s s' := by
  intro _ slots _
  refine .step (hallow deed hdeed) hstep (hstep.brackets ?_)
  rintro slot rfl
  exact hdeed

theorem follows_markDeleted (s : Session T) (slot : Nat) :
    Follows M allow s (s.modifyEntity slot fun e => { e with deleted := true }) :=
  follows_step hallow (Step.delete s slot) trivial

theorem follows_save (scope : Scope) :
    Work.Leads (Follows M allow) (scope.save (T := T)).outcome := by
  intro s hs slots hstack
  rcases save_cases scope s with ⟨fault, _, hfault⟩ | ⟨changes, hcollect, hsave⟩
  · rw [hfault]
    exact .refl slots s
  · rw [hsave]
    have hcommit := follows_step (M := M) hallow (Step.save hcollect) trivial hs slots hstack
    have hbrackets := (hcommit.spec hs).2
    have hsound := (hcommit.spec hs).1.sound hs
    exact hcommit.trans (follows_step hallow (Step.report _ _) trivial hsound slots
      (hstack.brackets hbrackets))

theorem reads_follows : Reads (fun _ => True) (Follows M allow) where
  refl s _ slots _ := .refl slots s
  trans h h' hs slots hstack := by
    have hfirst := h hs slots hstack
    rcases hfirst.spec hs with ⟨hrun, hbrackets⟩
    exact hfirst.trans (h' (hrun.sound hs) slots (hstack.brackets hbrackets))
  report s event := follows_step hallow (Step.report s event) trivial
  locate k _ scope id s hs slots _ := course_of_reading hallow (run_locate hs scope k id)

end Follows

/-- Hooks and fills that take such a course, if what they reconcile does. -/
structure Orderly (M : Mapping T) (allow : Deed → Prop) : Prop where
  fill : ∀ (k : T.Kind) (p : M.Plain k) (nested : Reconciler T M.Plain M.weight (M.weight p))
    (scope : Scope) (this : EntityId) (v : T.Value k),
    (∀ l (q : M.Plain l) hq (hook : Hook T l), (∀ v, (hook v).Leads (Follows M allow)) →
      (nested l q hq hook).Leads (Follows M allow)) →
    (M.fill p nested scope this v).Leads (Follows M allow)

theorem Orderly.reconcileBelow (hM : M.Orderly allow)
    (hallow : ∀ deed, deed.Aside → allow deed) (scope : Scope) (bound : Nat) (k : T.Kind)
    (p : M.Plain k) (hp : M.weight p < bound) (hook : Hook T k)
    (hhook : ∀ v, (hook v).Leads (Follows M allow)) :
    Work.Leads (Follows M allow) (M.reconcileBelow scope bound k p hp hook) := by
  induction bound generalizing k with
  | zero => exact absurd hp (Nat.not_lt_zero _)
  | succ bound ih =>
    intro s hs slots hstack
    rcases reconcileBelow_cases hs scope hp hook with ⟨s₁, hfound, hend⟩ |
      ⟨h, s₁, m, hfound, hm, _, hfilling, hend⟩ | ⟨h, s₁, m, hfound, hm, hkind, hfree, hend⟩
    · rw [hend]
      rcases findOrInsertUnique_cases hs hfound with hread | ⟨_, _, _, _, _, h, hh, _⟩
      · exact course_of_reading hallow hread
      · cases hh
    · rw [hend]
      have hstack₁ := hstack.brackets (brackets_findOrInsertUnique hs hfound)
      exact .again hfound ((hstack₁.mem_iff _).2 ⟨m, hm, hfilling⟩)
    · have hstack₁ := hstack.brackets (brackets_findOrInsertUnique hs hfound)
      have hout := checkOut?_of_free (h := h) hm hfree
      generalize s₁.modifyEntity h.slot _ = s₂ at hout hend
      have hchecksOut := checksOut ⟨m, hm, hkind⟩ hout
      have hs₂ := hchecksOut.run.sound ((run_findOrInsertUnique hs hfound).sound hs)
      have hstack₂ := hchecksOut.push _ hstack₁
      -- the hook takes its course, and so does the fill, and what was taken out is put back
      rcases hhooked : hook (m.value k) s₂ with ⟨v₁, s₃⟩
      rcases hshown : scope.showPreview h v₁ (M.naturalKey p) s₃ with ⟨_, s₄⟩
      rcases hfilled : M.fill p (M.nested scope hp) scope h.id v₁ s₄ with ⟨v₂, s₅⟩
      have hcourse₃ := hhook (m.value k) s₂ hs₂ _ hstack₂
      rw [hhooked] at hcourse₃
      rcases hcourse₃.spec hs₂ with ⟨hrun₃, hbrackets₃⟩
      have hshows := shows_showPreview (hchecksOut.out.brackets hbrackets₃) hshown
      have hcourse₅ := hM.fill k p (M.nested scope hp) scope h.id v₁
        (fun l q hq hook hhook => ih l q _ hook hhook) s₄ (hshows.run.sound (hrun₃.sound hs₂)) _
        (hshows.stack _ (hstack₂.brackets hbrackets₃))
      rw [hfilled] at hcourse₅
      rw [hend, refill_snd hhooked hshown hfilled]
      exact .fill hfound (hstack₁.free hm hfree) hout hhooked hcourse₃ hshown hfilled hcourse₅

theorem Orderly.syncs (hM : M.Orderly allow) (hallow : ∀ deed, deed.Aside → allow deed)
    (h : Syncs M (Follows M allow) scope s s') : Follows M allow s s' :=
  h.leads (reads_follows hallow) (follows_markDeleted hallow) fun p _ hhook =>
    hM.reconcileBelow hallow scope _ _ p _ _ hhook

end Mapping

end Reconcile
