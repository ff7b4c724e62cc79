import Reconcile.Proofs.Session.Operations

/-!
# Reconciling is made of steps

Reconciling a plain value finds or inserts one entity, takes its value out, shows a preview in its
place, and puts the filled value back.  In between the hook and the fill can do anything that leaves
the entity to be filled; if they only proceed, so does reconciling (`Mapping.Lawful`).
-/

namespace Reconcile

variable {T : Model} {k : T.Kind} {s s₁ s₂ : Session T} {scope : Scope}

open Session

namespace Scope

variable {v v' : T.Value k} {payload : Json}

/-- A payload with the natural key set ahead of a fill. -/
def keyed (payload : Json) : Option NaturalKey → Json
  | some key => payload.withField key.key key.value
  | none => payload

theorem preview_of_decode {scope : Scope} {key : Option NaturalKey}
    (hencode : T.encode v = .ok payload)
    (hdecode : T.decode k scope.source (keyed payload key) = some v') :
    scope.preview v key = .ok (v', keyed payload key) := by
  have hpayload := Session.payload_of_encode hencode
  have hread : Model.ofPayload k scope.source (keyed payload key) = .ok v' := by
    unfold Model.ofPayload
    rw [hdecode]
  unfold Scope.preview
  cases key with
  | none => exact Outcome.bind_eq_ok.2 ⟨_, hpayload, Outcome.bind_eq_ok.2 ⟨_, hread, rfl⟩⟩
  | some key => exact Outcome.bind_eq_ok.2 ⟨_, hpayload, Outcome.bind_eq_ok.2 ⟨_, hread, rfl⟩⟩

/-- A preview is read from the payload with the natural key. -/
theorem decode_of_preview {scope : Scope} {key : Option NaturalKey}
    (h : scope.preview v key = .ok (v', payload)) :
    ∃ plain, T.encode v = .ok plain ∧ payload = keyed plain key ∧
      T.decode k scope.source payload = some v' := by
  unfold Scope.preview at h
  rcases Outcome.bind_eq_ok.1 h with ⟨plain, hplain, h⟩
  rcases Outcome.bind_eq_ok.1 h with ⟨read, hread, h⟩
  cases h
  refine ⟨plain, ?_, ?_, ?_⟩
  · exact Session.payload_eq_ok hplain
  · cases key <;> rfl
  · unfold Model.ofPayload at hread
    split at hread
    · next w hw => cases hread; exact hw
    · cases hread

end Scope

namespace Mapping

variable {M : Mapping T} {p : M.Plain k} {bound : Nat} {hook : Hook T k} {h : Handle k}

/-! ## The course of it -/

/-- What the fill of a plain value reconciles others with. -/
def nested (M : Mapping T) (scope : Scope) {bound : Nat} {p : M.Plain k}
    (hp : M.weight p < bound + 1) : Reconciler T M.Plain M.weight (M.weight p) :=
  fun l q hq => M.reconcileBelow scope bound l q (Nat.lt_of_lt_of_le hq (Nat.le_of_lt_succ hp))

/-- Takes the value that was checked out through hook, preview and fill, and checks it in. -/
def refill (M : Mapping T) (scope : Scope) {bound : Nat} {p : M.Plain k}
    (hp : M.weight p < bound + 1) (hook : Hook T k) (item : Handle k) (v : T.Value k) :
    Work T Unit := do
  let v ← hook v
  scope.showPreview item v (M.naturalKey p)
  let v ← M.fill p (M.nested scope hp) scope item.id v
  modify (·.checkIn item v)

variable {hp : M.weight p < bound + 1}

theorem reconcileBelow_of_none (hnone : M.findOrInsertUnique scope p s = (none, s₁)) :
    M.reconcileBelow scope (bound + 1) k p hp hook s = (none, s₁) := by
  rw [reconcileBelow, Work.bind_apply, hnone]
  rfl

theorem reconcileBelow_of_filling (hfound : M.findOrInsertUnique scope p s = (some h, s₁))
    (hout : s₁.checkOut? h = none) : M.reconcileBelow scope (bound + 1) k p hp hook s =
      (some h, s₁.report (.alreadyFilling h.id)) := by
  rw [reconcileBelow, Work.bind_apply, hfound]
  dsimp only
  rw [Work.bind_apply]
  dsimp only [Work.get_apply]
  rw [hout]
  rfl

theorem reconcileBelow_of_checkOut {v : T.Value k}
    (hfound : M.findOrInsertUnique scope p s = (some h, s₁))
    (hout : s₁.checkOut? h = some (v, s₂)) : M.reconcileBelow scope (bound + 1) k p hp hook s =
      (some h, (M.refill scope hp hook h v s₂).2) := by
  rw [reconcileBelow, Work.bind_apply, hfound]
  dsimp only
  rw [Work.bind_apply]
  dsimp only [Work.get_apply]
  rw [hout]
  rfl

theorem showPreview_of_ok {v shown : T.Value k} {payload : Json} {key : Option NaturalKey}
    (hpreview : scope.preview v key = .ok (shown, payload)) :
    scope.showPreview h v key s = ((), s.standIn h shown payload) := by
  unfold Scope.showPreview
  rw [hpreview]
  rfl

theorem showPreview_of_error {v : T.Value k} {fault : Fault} {key : Option NaturalKey}
    (hpreview : scope.preview v key = .error fault) :
    scope.showPreview h v key s = ((), s.report (.previewFailed h.id fault)) := by
  unfold Scope.showPreview
  rw [hpreview]
  rfl

theorem refill_snd {v v₁ v₂ : T.Value k} {s₃ : Session T} (hhooked : hook v s = (v₁, s₁))
    (hshown : scope.showPreview h v₁ (M.naturalKey p) s₁ = ((), s₂))
    (hfilled : M.fill p (M.nested scope hp) scope h.id v₁ s₂ = (v₂, s₃)) :
    (M.refill scope hp hook h v s).2 = s₃.checkIn h v₂ := by
  simp only [Mapping.refill, Work.bind_apply, hhooked, hshown, hfilled]
  rfl

/-! ## Finding and inserting -/

theorem advances_findOrInsertUnique (scope : Scope) (p : M.Plain k) :
    Work.Leads Advances (M.findOrInsertUnique scope p) := by
  refine reads_advances.bind ?_ ?_
  · intro s hs
    exact (reaches_findByKey scope k _ s hs).proceeds
  · intro found
    cases found with
    | some h => exact reads_advances.pure _
    | none => exact advances_insertOrReport scope k

theorem proceeds_findOrInsertUnique (hs : Sound s) {found : Option (Handle k)}
    (hfound : M.findOrInsertUnique scope p s = (found, s₁)) : Proceeds s s₁ := by
  have hproceeds := advances_findOrInsertUnique (M := M) scope p s hs
  rwa [hfound] at hproceeds

theorem holds_of_fetch {q : Query} {found : List (Handle k)} (hs : Sound s)
    (hfetch : (scope.fetch k q).outcome s = (.ok found, s₁)) {h : Handle k} (hmem : h ∈ found) :
    s₁.Holds h := by
  have hspec := fetch_spec hs scope k q
  rw [hfetch] at hspec
  have hs₁ : Sound s₁ := hspec.1.sound hs
  rw [(hspec.2 found s₁ rfl).found] at hmem
  rcases List.mem_map.1 hmem with ⟨m, hm, rfl⟩
  rw [Query.mem_arrange] at hm
  rcases List.mem_filterMap.1 hm with ⟨e, he, hmatch⟩
  rcases matchOf?_eq_some hmatch with ⟨hhandle, hkind, _⟩
  rcases SortedMap.mem_values_iff.1 he with ⟨key, hget⟩
  rcases (hs₁.lodged hget).entity with ⟨m', hm', hkind'⟩
  rw [hhandle]
  exact ⟨m', hm', hkind'.trans hkind⟩

section Find

variable {key : NaturalKey} {found : List (Handle k)}

theorem findUnique_of_fetch (hkey : M.naturalKey p = some key)
    (hfetch : (scope.fetch k (.matching (T.entityName k) key.filter)).outcome s =
      (.ok found, s₁)) : M.findUnique scope p s = (found.getLast?, s₁) := by
  rw [findUnique, hkey]
  simp only [Scope.findByKey, Scope.findMatching, Scope.fetchOrReport, Work.bind_apply, hfetch]
  rfl

/-- What is found by a natural key is the last result of a fetch. -/
theorem findUnique_eq_some (hfound : M.findUnique scope p s = (some h, s₁)) :
    ∃ key found, M.naturalKey p = some key ∧
      (scope.fetch k (.matching (T.entityName k) key.filter)).outcome s = (.ok found, s₁) ∧
      found.getLast? = some h := by
  cases hkey : M.naturalKey p with
  | none =>
    rw [findUnique, hkey] at hfound
    cases hfound
  | some key =>
    rcases hfetch : (scope.fetch k (.matching (T.entityName k) key.filter)).outcome s with
      ⟨fault | found, s'⟩
    · rw [findUnique, hkey] at hfound
      simp only [Scope.findByKey, Scope.findMatching, Scope.fetchOrReport, Work.bind_apply,
        hfetch] at hfound
      cases hfound
    · rw [findUnique_of_fetch hkey hfetch] at hfound
      rcases Prod.mk.inj hfound with ⟨hlast, rfl⟩
      exact ⟨key, found, rfl, hfetch, hlast⟩

theorem findOrInsertUnique_of_found (hfound : M.findUnique scope p s = (some h, s₁)) :
    M.findOrInsertUnique scope p s = (some h, s₁) := by
  rw [findOrInsertUnique, Work.bind_apply, hfound]
  rfl

theorem findOrInsertUnique_of_none (hnone : M.findUnique scope p s = (none, s₁)) :
    M.findOrInsertUnique scope p s = scope.insertOrReport k s₁ := by
  rw [findOrInsertUnique, Work.bind_apply, hnone]

end Find

theorem holds_of_insert {c : ContextId} {key : UInt64} {id : EntityId} :
    (s.insertUnder c k key).Holds (⟨s.entities.size, id, c⟩ : Handle k) :=
  ⟨_, entity?_insertUnder_new, rfl⟩

theorem holds_of_findOrInsertUnique (hs : Sound s)
    (hfound : M.findOrInsertUnique scope p s = (some h, s₁)) : s₁.Holds h := by
  rcases hfind : M.findUnique scope p s with ⟨found, s'⟩
  cases found with
  | some h' =>
    rw [findOrInsertUnique_of_found hfind] at hfound
    cases hfound
    rcases findUnique_eq_some hfind with ⟨key, found, _, hfetch, hlast⟩
    exact holds_of_fetch hs hfetch (List.mem_of_getLast? hlast)
  | none =>
    rw [findOrInsertUnique_of_none hfind] at hfound
    rcases insert_cases scope k s' with ⟨fault, hfault, _⟩ | ⟨store, _, hinsert⟩
    · simp only [Scope.insertOrReport, Work.bind_apply, hfault] at hfound
      cases hfound
    · simp only [Scope.insertOrReport, Work.bind_apply, hinsert] at hfound
      cases hfound
      exact holds_of_insert

/-- Reconciling a plain value ends at the entity that is found or created for it. -/
theorem reconcile_fst (hfound : M.findOrInsertUnique scope p s = (some h, s₁))
    (hook : Hook T k) : (M.reconcile scope p hook s).1 = some h := by
  cases hout : s₁.checkOut? h with
  | none => exact congrArg (·.1) (reconcileBelow_of_filling hfound hout)
  | some out => exact congrArg (·.1) (reconcileBelow_of_checkOut hfound hout)

/-- The first plain value is reconciled, and then the rest from where that has led. -/
theorem reconcileEach_cons {ps : List (M.Plain k)}
    (hresult : M.reconcile scope p hook s = (some h, s₁)) :
    resolveEach (p :: ps) (fun p _ => M.reconcile scope p hook) s =
      (h :: (resolveEach ps (fun p _ => M.reconcile scope p hook) s₁).1,
        (resolveEach ps (fun p _ => M.reconcile scope p hook) s₁).2) := by
  rw [resolveEach, Work.bind_apply, hresult]
  rfl

/-! ## Filling -/

theorem checkOut?_of_filling {m : Entity T} (hm : s.entity? h.slot = some m)
    (hfilling : m.filling = true) : s.checkOut? h = none := by
  unfold Session.checkOut? Entity.checkOut?
  rw [hm, Option.bind_some, hfilling]
  rfl

theorem checkOut?_of_free {m : Entity T} (hm : s.entity? h.slot = some m)
    (hfree : m.filling = false) : s.checkOut? h = some (m.value k,
      s.modifyEntity h.slot fun _ => { m.withState (T.blank k) with filling := true }) := by
  unfold Session.checkOut? Entity.checkOut?
  rw [hm, Option.bind_some, hfree]
  rfl

theorem checkOut?_eq_some {v : T.Value k} (hholds : s₁.Holds h)
    (hout : s₁.checkOut? h = some (v, s₂)) : ∃ m m', s₁.entity? h.slot = some m ∧
      m.filling = false ∧ m.kind = k ∧ v = m.value k ∧ m' = { m.withState (T.blank k) with
        filling := true } ∧ s₂ = s₁.modifyEntity h.slot fun _ => m' := by
  rcases hholds with ⟨m, hm, hkind⟩
  cases hfilling : m.filling with
  | true => cases hout.symm.trans (checkOut?_of_filling hm hfilling)
  | false =>
    cases hout.symm.trans (checkOut?_of_free hm hfilling)
    exact ⟨m, _, hm, hfilling, hkind, rfl, rfl, rfl⟩

/-- Reconciling ends where no entity is found or inserted, or where the entity fills already, with a
report; otherwise the value of the entity is taken out and put back filled. -/
theorem reconcileBelow_cases (hs : Sound s) (scope : Scope) (hp : M.weight p < bound + 1)
    (hook : Hook T k) :
    (∃ s₁, M.findOrInsertUnique scope p s = (none, s₁) ∧
      M.reconcileBelow scope (bound + 1) k p hp hook s = (none, s₁)) ∨
    (∃ h s₁ m, M.findOrInsertUnique scope p s = (some h, s₁) ∧ s₁.entity? h.slot = some m ∧
      m.kind = k ∧ m.filling = true ∧ M.reconcileBelow scope (bound + 1) k p hp hook s =
        (some h, s₁.report (.alreadyFilling h.id))) ∨
    ∃ h s₁ m, M.findOrInsertUnique scope p s = (some h, s₁) ∧ s₁.entity? h.slot = some m ∧
      m.kind = k ∧ m.filling = false ∧ M.reconcileBelow scope (bound + 1) k p hp hook s =
        (some h, (M.refill scope hp hook h (m.value k)
          (s₁.modifyEntity h.slot fun _ => { m.withState (T.blank k) with filling := true })).2) := by
  rcases hfound : M.findOrInsertUnique scope p s with ⟨found, s₁⟩
  cases found with
  | none => exact Or.inl ⟨s₁, rfl, reconcileBelow_of_none hfound⟩
  | some h =>
    rcases holds_of_findOrInsertUnique hs hfound with ⟨m, hm, hkind⟩
    cases hfilling : m.filling with
    | true =>
      exact Or.inr (Or.inl ⟨h, s₁, m, rfl, hm, hkind, hfilling,
        reconcileBelow_of_filling hfound (checkOut?_of_filling hm hfilling)⟩)
    | false =>
      exact Or.inr (Or.inr ⟨h, s₁, m, rfl, hm, hkind, hfilling,
        reconcileBelow_of_checkOut hfound (checkOut?_of_free hm hfilling)⟩)

/-- Hooks and fills that proceed, if what they reconcile proceeds. -/
structure Lawful (M : Mapping T) : Prop where
  fill : ∀ (k : T.Kind) (p : M.Plain k) (nested : Reconciler T M.Plain M.weight (M.weight p))
    (scope : Scope) (this : EntityId) (v : T.Value k),
    (∀ l (q : M.Plain l) hq (hook : Hook T l), (∀ v, (hook v).Leads Advances) →
      (nested l q hq hook).Leads Advances) →
    (M.fill p nested scope this v).Leads Advances

/-- The handle refers to an entity of its type that fills. -/
def CheckedOut (s : Session T) (h : Handle k) : Prop :=
  ∃ m, s.entity? h.slot = some m ∧ m.kind = k ∧ m.filling = true

theorem CheckedOut.proceeds (hout : CheckedOut s h) (hproceeds : Proceeds s s₁) :
    CheckedOut s₁ h := by
  rcases hout with ⟨m, hm, hkind, hfilling⟩
  rcases hproceeds.run.kind hm with ⟨m', hm', hkind'⟩
  rcases hproceeds.filling _ m hm hfilling with ⟨m'', hm'', hfilling'⟩
  cases hm'.symm.trans hm''
  exact ⟨m', hm', hkind'.trans hkind, hfilling'⟩

theorem proceeds_showPreview (scope : Scope) (hout : CheckedOut s h) (v : T.Value k)
    (key : Option NaturalKey) :
    Proceeds s (scope.showPreview h v key s).2 := by
  unfold Scope.showPreview
  rcases scope.preview v key with fault | ⟨shown, payload⟩
  · exact (Step.report s _).proceeds trivial fun _ hdeed => by cases hdeed
  · rcases hout with ⟨m, hm, rfl, hfilling⟩
    show Proceeds s (s.standIn h shown payload)
    rw [standIn, modifyEntity_of_entity? hm]
    exact proceeds_edit hm (Entity.edited_standIn hfilling shown payload) fun _ => hfilling

theorem run_checkIn (hout : CheckedOut s h) (v : T.Value k) :
    Run Deed.Native s (s.checkIn h v) := by
  rcases hout with ⟨m, hm, rfl, _⟩
  rw [checkIn, modifyEntity_of_entity? hm]
  exact (Step.edit hm (Entity.edited_checkIn m v)).run trivial

/-- The entity that was checked out is the only one that a refill puts back. -/
theorem Lawful.refill (hM : M.Lawful) (scope : Scope) (hp : M.weight p < bound + 1) (hs : Sound s)
    (hout : CheckedOut s h) (hhook : ∀ v, (hook v).Leads Advances)
    (hnested : ∀ l (q : M.Plain l) hq (hook : Hook T l), (∀ v, (hook v).Leads Advances) →
      (M.nested scope hp l q hq hook).Leads Advances) (v : T.Value k) :
    Run Deed.Native s (M.refill scope hp hook h v s).2 ∧
      ∀ n m, n ≠ h.slot → s.entity? n = some m → m.filling = true →
        ∃ m', (M.refill scope hp hook h v s).2.entity? n = some m' ∧ m'.filling = true := by
  rcases hhooked : hook v s with ⟨v₁, s₁⟩
  rcases hshown : scope.showPreview h v₁ (M.naturalKey p) s₁ with ⟨_, s₂⟩
  rcases hfilled : M.fill p (M.nested scope hp) scope h.id v₁ s₂ with ⟨v₂, s₃⟩
  have hend : (M.refill scope hp hook h v s).2 = s₃.checkIn h v₂ :=
    refill_snd hhooked hshown hfilled
  -- the hook, the preview and the fill proceed one after the other
  have hproceeds₁ : Proceeds s s₁ := by
    have hproceeds := hhook v s hs
    rwa [hhooked] at hproceeds
  have hproceeds₂ : Proceeds s₁ s₂ := by
    have hproceeds := proceeds_showPreview scope (hout.proceeds hproceeds₁) v₁
      (M.naturalKey p)
    rwa [hshown] at hproceeds
  have hproceeds₃ : Proceeds s₂ s₃ := by
    have hs₂ := (hproceeds₁.trans hproceeds₂).run.sound hs
    have hproceeds := hM.fill k p _ scope h.id v₁ hnested s₂ hs₂
    rwa [hfilled] at hproceeds
  have hproceeds : Proceeds s s₃ := (hproceeds₁.trans hproceeds₂).trans hproceeds₃
  rcases hout.proceeds hproceeds with ⟨m, hm, rfl, _⟩
  rw [hend, checkIn, modifyEntity_of_entity? hm]
  refine ⟨hproceeds.run.trans ((Step.edit hm (Entity.edited_checkIn m v₂)).run trivial), ?_⟩
  intro n e hn he hfilling
  rcases hproceeds.filling n e he hfilling with ⟨e', he', hfilling'⟩
  exact ⟨e', (entity?_modifyEntity_of_ne s₃ hn _).trans he', hfilling'⟩

theorem Lawful.reconcileBelow (hM : M.Lawful) (scope : Scope) (bound : Nat) (k : T.Kind)
    (p : M.Plain k) (hp : M.weight p < bound) (hook : Hook T k)
    (hhook : ∀ v, (hook v).Leads Advances) :
    Work.Leads Advances (M.reconcileBelow scope bound k p hp hook) := by
  induction bound generalizing k with
  | zero => exact absurd hp (Nat.not_lt_zero _)
  | succ bound ih =>
    intro s hs
    rcases reconcileBelow_cases hs scope hp hook with ⟨s₁, hfound, hend⟩ |
      ⟨h, s₁, m, hfound, hm, _, _, hend⟩ | ⟨h, s₁, m, hfound, hm, rfl, hfree, hend⟩
    · rw [hend]
      exact proceeds_findOrInsertUnique hs hfound
    · rw [hend]
      exact (proceeds_findOrInsertUnique hs hfound).trans
        ((Step.report s₁ _).proceeds trivial fun _ hdeed => by cases hdeed)
    · rw [hend]
      have hfirst := proceeds_findOrInsertUnique hs hfound
      have hentity := entity?_modifyEntity_self hm fun _ =>
        { m.withState (T.blank m.kind) with filling := true }
      have hcheckedOut : CheckedOut _ h := ⟨_, hentity, rfl, rfl⟩
      have hedit := proceeds_edit hm (Entity.edited_checkOut m (T.blank m.kind)) fun _ => rfl
      -- what the fill reconciles is lighter, so it stays below the smaller bound
      have hrefill := hM.refill scope hp (hedit.run.sound (hfirst.run.sound hs)) hcheckedOut hhook
        (fun l q hq hook hhook => ih l q _ hook hhook) (m.value m.kind)
      refine ⟨(hfirst.run.trans hedit.run).trans hrefill.1, ?_⟩
      intro n e he hfilling
      rcases hfirst.filling n e he hfilling with ⟨e', he', hfilling'⟩
      -- the entity that was found does not fill yet
      have hn : n ≠ h.slot := by
        rintro rfl
        cases hm.symm.trans he'
        cases hfree.symm.trans hfilling'
      exact hrefill.2 n e' hn ((entity?_modifyEntity_of_ne s₁ hn _).trans he') hfilling'

/-! ## Fills that are functions -/

theorem modifyEntity_twice (s : Session T) (n : Nat) (f g : Entity T → Entity T) :
    (s.modifyEntity n f).modifyEntity n g = s.modifyEntity n fun m => g (f m) := by
  have hentities : (s.entities.modify n f).modify n g = s.entities.modify n fun m => g (f m) := by
    refine Array.ext_getElem? ?_
    intro i
    rw [Array.getElem?_modify, Array.getElem?_modify, Array.getElem?_modify]
    split
    · rw [Option.map_map]
      rfl
    · rfl
  rw [modifyEntity, modifyEntity, modifyEntity]
  dsimp only
  rw [hentities]

/-- If hook and fill only read the session, whatever is shown of the entity in the meantime,
reconciling puts their value into the entity that it found or inserted, and all else it does is to
report. -/
theorem reconcileBelow_of_readers {v v' : T.Value k}
    (hfound : M.findOrInsertUnique scope p s = (some h, s₁)) {m : Entity T}
    (hm : s₁.entity? h.slot = some m) (hfree : m.filling = false)
    (hhook : ∀ f, hook (m.value k) (s₁.modifyEntity h.slot f) = (v, s₁.modifyEntity h.slot f))
    (hfill : ∀ f journal, M.fill p (M.nested scope hp) scope h.id v
      { s₁.modifyEntity h.slot f with journal } =
        (v', { s₁.modifyEntity h.slot f with journal })) :
    ∃ journal, M.reconcileBelow scope (bound + 1) k p hp hook s =
      (some h, { s₁.modifyEntity h.slot (·.checkIn v') with journal }) := by
  rw [reconcileBelow_of_checkOut hfound (checkOut?_of_free hm hfree),
    modifyEntity_of_entity? hm (·.checkIn v')]
  -- whatever is shown in the meantime, the value that is put back overwrites it
  cases hpreview : scope.preview v (M.naturalKey p) with
  | error fault =>
    rw [refill_snd (hhook _) (showPreview_of_error hpreview) (hfill _ _)]
    refine ⟨(s₁.report (.previewFailed h.id fault)).journal, ?_⟩
    have hstate := modifyEntity_twice s₁ h.slot
      (fun _ => { m.withState (T.blank k) with filling := true }) (·.checkIn v')
    exact congrArg (fun s => (some h, { s with
      journal := (s₁.report (.previewFailed h.id fault)).journal })) hstate
  | ok preview =>
    rcases preview with ⟨shown, payload⟩
    let out : Entity T → Entity T := fun _ => { m.withState (T.blank k) with filling := true }
    have hshown : scope.showPreview h v (M.naturalKey p) (s₁.modifyEntity h.slot out) =
        ((), s₁.modifyEntity h.slot fun m' => (out m').standIn shown payload) :=
      (showPreview_of_ok hpreview).trans
        (congrArg (Prod.mk ()) (modifyEntity_twice s₁ h.slot out _))
    have hfilled := hfill (fun m' => (out m').standIn shown payload) s₁.journal
    rw [refill_snd (hhook out) hshown hfilled]
    have hstate := modifyEntity_twice s₁ h.slot (fun m' => (out m').standIn shown payload)
      (·.checkIn v')
    exact ⟨s₁.journal, congrArg (Prod.mk (some h)) hstate⟩

/-- If hook and fill are functions of the value, they need not know what session they are in. -/
theorem reconcileBelow_of_functions {v v' : T.Value k}
    (hfound : M.findOrInsertUnique scope p s = (some h, s₁)) {m : Entity T}
    (hm : s₁.entity? h.slot = some m) (hfree : m.filling = false)
    (hhook : ∀ s, hook (m.value k) s = (v, s))
    (hfill : ∀ s, M.fill p (M.nested scope hp) scope h.id v s = (v', s)) :
    ∃ journal, M.reconcileBelow scope (bound + 1) k p hp hook s =
      (some h, { s₁.modifyEntity h.slot (·.checkIn v') with journal }) :=
  reconcileBelow_of_readers hfound hm hfree (fun _ => hhook _) fun _ _ => hfill _

/-! ## Synchronizing and replacing -/

/-- A call that synchronizes with plain values, by where it ends.  What its hooks do leads so. -/
inductive Syncs (M : Mapping T) (R : Session T → Session T → Prop) (scope : Scope) (s : Session T) :
    Session T → Prop
  | reconcile {k : T.Kind} (p : M.Plain k) {hook : Hook T k} (hhook : ∀ v, (hook v).Leads R) :
      Syncs M R scope s (M.reconcile scope p hook s).2
  | syncSet {k : T.Kind} (ps : List (M.Plain k)) {hook : Hook T k}
      (hhook : ∀ v, (hook v).Leads R) : Syncs M R scope s (M.syncSet scope ps hook s).2
  | syncList {k : T.Kind} (ps : List (M.Plain k)) {hook : Hook T k}
      (hhook : ∀ v, (hook v).Leads R) : Syncs M R scope s (M.syncList scope ps hook s).2
  | syncOne {k : T.Kind} (field : Option (ToOne k)) (p : Option (M.Plain k)) :
      Syncs M R scope s (M.syncOne scope field p s).2
  | replaceSet {k : T.Kind} (field : Option (MemberSet k)) (ps : Option (List (M.Plain k)))
      {hook : Hook T k} (hhook : ∀ v, (hook v).Leads R) :
      Syncs M R scope s (M.replaceSet scope field ps hook s).2
  | replaceList {k : T.Kind} (field : Option (MemberList k)) (ps : Option (List (M.Plain k)))
      {hook : Hook T k} (hhook : ∀ v, (hook v).Leads R) :
      Syncs M R scope s (M.replaceList scope field ps hook s).2
  | replaceOne {k : T.Kind} (field : Option (ToOne k)) (p : Option (M.Plain k)) :
      Syncs M R scope s (M.replaceOne scope field p s).2

/-- Every such call leads where looking up, deleting and reconciling lead. -/
theorem Syncs.leads {R : Session T → Session T → Prop} {s' : Session T}
    (h : Syncs M R scope s s') (hR : Reads (fun _ => True) R)
    (hdelete : ∀ (s : Session T) (slot : Nat),
      R s (s.modifyEntity slot fun e => { e with deleted := true }))
    (hreconcile : ∀ {k : T.Kind} (p : M.Plain k) {hook : Hook T k},
      (∀ v, (hook v).Leads R) → (M.reconcile scope p hook).Leads R) : R s s' := by
  have hplain : ∀ {k : T.Kind} (p : M.Plain k), (M.reconcile scope p pure).Leads R :=
    fun p => hreconcile p fun _ => hR.pure _
  cases h with
  | reconcile p hhook => exact hreconcile p hhook s
  | syncSet ps hhook => exact hR.buildSet (fun p _ => hreconcile p hhook) s
  | syncList ps hhook => exact hR.buildList (fun p _ => hreconcile p hhook) s
  | syncOne field p =>
    cases p with
    | none => exact hR.refl s
    | some p => exact hR.bind (hplain p) (fun _ => hR.pure _) s
  | replaceSet field ps hhook =>
    refine hR.replaceAll hdelete trivial scope field ?_ s
    intro build hbuild
    rcases Option.map_eq_some_iff.1 hbuild with ⟨ps, _, rfl⟩
    exact hR.buildSet fun p _ => hreconcile p hhook
  | replaceList field ps hhook =>
    refine hR.replaceAll hdelete trivial scope field ?_ s
    intro build hbuild
    rcases Option.map_eq_some_iff.1 hbuild with ⟨ps, _, rfl⟩
    exact hR.buildList fun p _ => hreconcile p hhook
  | replaceOne field p =>
    refine hR.replaceOne hdelete trivial scope field ?_ s
    intro build hbuild
    rcases Option.map_eq_some_iff.1 hbuild with ⟨p, _, rfl⟩
    exact hplain p

section Lawful

variable (hM : M.Lawful)
include hM

theorem Lawful.reconcile (scope : Scope) (p : M.Plain k)
    (hhook : ∀ v, (hook v).Leads Advances) : Work.Leads Advances (M.reconcile scope p hook) :=
  hM.reconcileBelow scope _ k p _ hook hhook

theorem Lawful.syncs {s' : Session T} (h : Syncs M Advances scope s s') : Advances s s' :=
  h.leads reads_advances advances_markDeleted fun p _ hhook => hM.reconcile scope p hhook

theorem Lawful.syncSet (scope : Scope) (ps : List (M.Plain k))
    (hhook : ∀ v, (hook v).Leads Advances) : Work.Leads Advances (M.syncSet scope ps hook) :=
  fun _ => hM.syncs (.syncSet ps hhook)

theorem Lawful.syncList (scope : Scope) (ps : List (M.Plain k))
    (hhook : ∀ v, (hook v).Leads Advances) : Work.Leads Advances (M.syncList scope ps hook) :=
  fun _ => hM.syncs (.syncList ps hhook)

theorem Lawful.syncOne (scope : Scope) (field : Option (ToOne k)) (p : Option (M.Plain k)) :
    Work.Leads Advances (M.syncOne scope field p) := fun _ => hM.syncs (.syncOne field p)

theorem Lawful.replaceList (scope : Scope) (field : Option (MemberList k))
    (ps : Option (List (M.Plain k))) (hhook : ∀ v, (hook v).Leads Advances) :
    Work.Leads Advances (M.replaceList scope field ps hook) :=
  fun _ => hM.syncs (.replaceList field ps hhook)

end Lawful

end Mapping

end Reconcile
