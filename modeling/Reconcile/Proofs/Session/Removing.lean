import Reconcile.Proofs.Session.Confinement
import Reconcile.Proofs.Session.Identity

/-!
# Deleting the members of a relationship

Every live member is found in the context, whether it was bound there or only has its id, and then
all that were found are deleted (`Clears`).  Members that were bound elsewhere are out of reach, so
they are asked to be the context's own (`Member.Own`).
-/

namespace Reconcile

open Session

variable {T : Model} {k : T.Kind} {s s₁ s' : Session T} {scope : Scope} {c : ContextId}
  {m : Member k} {ms : List (Member k)} {h : Handle k} {hs : List (Handle k)}

/-! ## Finding members -/

/-- The context has a live entity of this id, in its registry or as a row that it has not read. -/
def Session.Live (s : Session T) (c : ContextId) (id : EntityId) : Prop :=
  (∃ e, (s.registry c).get? id.key = some e ∧ e.id = id ∧ s.entryDeleted e = false) ∨
    ((s.registry c).get? id.key = none ∧ ((s.rowsOf c).row? id).isSome)

/-- If a member is bound, then to the entity that the context has registered under its id. -/
def Member.Own (s : Session T) (c : ContextId) (m : Member k) : Prop :=
  ∀ h, m.bound = some h →
    h.id = m.id ∧ ∃ pending, (s.registry c).get? m.id.key = some ⟨k, h, pending⟩

theorem Member.Own.later (hown : m.Own s c)
    (hregistry : ∀ key e, (s.registry c).get? key = some e → (s'.registry c).get? key = some e) :
    m.Own s' c := by
  intro h hbound
  rcases hown h hbound with ⟨hid, pending, he⟩
  exact ⟨hid, pending, hregistry _ _ he⟩

namespace Session

/-- What is live in the registry is found there by its id. -/
theorem locate_of_entry (hsound : Sound s) {pending : Bool}
    (he : (s.registry scope.context).get? h.id.key = some ⟨k, h, pending⟩) {m : Entity T}
    (hm : s.entity? h.slot = some m) (hlive : m.deleted = false) :
    (scope.locate k h.id).outcome s = (.ok h, s) := by
  have hname : h.id.entity = T.entityName k := (hsound.lodged he).name
  have hnot : s.entryDeleted ⟨k, h, pending⟩ = false :=
    (entryDeleted_of_entity? hm).trans hlive
  have hhandle : (⟨k, h, pending⟩ : Entry T).handle? k = some h := if_pos rfl
  unfold Scope.locate
  dsimp only
  rw [if_neg (not_not.2 hname), Attempt.outcome_bind_of_ok (Attempt.outcome_get s)]
  simp only [he, hnot, hhandle]
  rfl

/-- What is seen under an id can be looked up by it. -/
theorem locate_of_seen? {id : EntityId} (hname : id.entity = T.entityName k)
    {v : T.Value k} (hv : s.seen? scope.context k id.key = some v) :
    ∃ h s₁, (scope.locate k id).outcome s = (.ok h, s₁) := by
  unfold Scope.locate
  dsimp only
  rw [if_neg (not_not.2 hname), Attempt.outcome_bind_of_ok (Attempt.outcome_get s)]
  rcases seen?_eq_some hv with ⟨e, m, he, hkind, hm, hlive, _⟩ | ⟨hnone, row, hrow, hdecode⟩
  · have hhandle : e.handle? k = some ⟨e.handle.slot, e.handle.id, e.handle.context⟩ :=
      if_pos hkind
    simp only [he, entryDeleted_of_entity? hm, hlive, hhandle]
    exact ⟨_, _, rfl⟩
  · rw [← hname] at hrow
    simp only [hnone, hrow]
    exact ⟨_, _, materialize_of_decoded hdecode⟩

/-- What was found of members, in a registry that has read some rows for it. -/
structure Finds (s : Session T) (c : ContextId) (ms : List (Member k)) (hs : List (Handle k))
    (s' : Session T) : Prop where
  loads : Loads s s' c k (s.rowsNamed c k)
  entry : ∀ h ∈ hs, ∃ pending, (s'.registry c).get? h.id.key = some ⟨k, h, pending⟩
  member : ∀ h ∈ hs, ∃ m ∈ ms, h.id = m.id
  live : ∀ m ∈ ms, m.id.entity = T.entityName k → (s.seen? c k m.id.key).isSome →
    ∃ h ∈ hs, h.id = m.id

theorem finds_bindIn (hsound : Sound s) (hown : m.Own s scope.context) :
    ∃ found m' s', m.bindIn scope s = ((found, m'), s') ∧ Sound s' ∧
      Finds s scope.context [m] found.toList s' := by
  unfold Member.bindIn
  cases hbound : m.bound with
  | some h =>
    rcases hown h hbound with ⟨hid, pending, he⟩
    refine ⟨some h, m, s, rfl, hsound, Loads.refl s _ k _, ?_, ?_, ?_⟩
    · intro h' hh'
      cases List.mem_singleton.1 hh'
      exact ⟨pending, hid ▸ he⟩
    · intro h' hh'
      cases List.mem_singleton.1 hh'
      exact ⟨m, List.mem_singleton_self m, hid⟩
    · intro m' hm' _ _
      cases List.mem_singleton.1 hm'
      exact ⟨h, List.mem_singleton_self h, hid⟩
  | none =>
    have hlocates := locates hsound scope k m.id
    rcases hlocate : (scope.locate k m.id).outcome s with ⟨fault | h, s₁⟩
    · rw [hlocate] at hlocates
      refine ⟨none, m, s₁.report (.bindFailed m.id fault), ?_,
        (hlocates.run.sound hsound).report _,
        hlocates.loads.trans ((Loads.journal s₁ _ k _ _)), ?_, ?_, ?_⟩
      · simp only [Work.bind_apply, hlocate]
        rfl
      · intro h hh
        cases hh
      · intro h hh
        cases hh
      · -- the lookup would have succeeded
        intro m' hm' hname hseen
        cases List.mem_singleton.1 hm'
        rcases Option.isSome_iff_exists.1 hseen with ⟨v, hv⟩
        rcases locate_of_seen? hname hv with ⟨h, s₂, hok⟩
        cases hlocate.symm.trans hok
    · rw [hlocate] at hlocates
      rcases delivers_locate hsound hlocate with ⟨hdelivers, hid⟩
      rcases hdelivers.enrolled with ⟨pending, he⟩
      rw [hdelivers.context] at he
      refine ⟨some h, { m with bound := some h }, s₁, ?_, hlocates.run.sound hsound,
        hlocates.loads, ?_, ?_, ?_⟩
      · simp only [Work.bind_apply, hlocate]
        rfl
      · intro h' hh'
        cases List.mem_singleton.1 hh'
        exact ⟨pending, he⟩
      · intro h' hh'
        cases List.mem_singleton.1 hh'
        exact ⟨m, List.mem_singleton_self m, hid⟩
      · intro m' hm' _ _
        cases List.mem_singleton.1 hm'
        exact ⟨h, List.mem_singleton_self h, hid⟩

/-- What was found of a member and then of others, which leave out only members of its id. -/
theorem Finds.cons {found others : List (Handle k)} {rest rest' : List (Member k)}
    (hfirst : Finds s c [m] found s₁) (hrest : Finds s₁ c rest others s') (hsound : Sound s)
    (hsub : ∀ m' ∈ rest, m' ∈ rest') (hleft : ∀ m' ∈ rest', m'.id = m.id ∨ m' ∈ rest) :
    Finds s c (m :: rest') (found ++ others) s' where
  loads := by
    have hrows : s₁.rowsNamed c k = s.rowsNamed c k := rowsNamed_of_grows hfirst.loads.toGrows
    exact hfirst.loads.trans (hrows ▸ hrest.loads)
  entry h hh := by
    rcases List.mem_append.1 hh with hfound | hothers
    · rcases hfirst.entry h hfound with ⟨pending, he⟩
      exact ⟨pending, hrest.loads.registry c _ _ he⟩
    · exact hrest.entry h hothers
  member h hh := by
    rcases List.mem_append.1 hh with hfound | hothers
    · rcases hfirst.member h hfound with ⟨m', hm', hid⟩
      exact ⟨m', List.mem_cons.2 (Or.inl (List.mem_singleton.1 hm')), hid⟩
    · rcases hrest.member h hothers with ⟨m', hm', hid⟩
      exact ⟨m', List.mem_cons_of_mem _ (hsub m' hm'), hid⟩
  live m' hm' hname hseen := by
    -- a member with the id of the first one is found where that is
    have hsame : m'.id = m.id ∨ m' ∈ rest := by
      rcases List.mem_cons.1 hm' with rfl | htail
      · exact Or.inl rfl
      · exact hleft m' htail
    rcases hsame with hid | htail
    · rw [hid] at hname hseen ⊢
      rcases hfirst.live m (List.mem_singleton_self m) hname hseen with ⟨h, hh, hid'⟩
      exact ⟨h, List.mem_append.2 (Or.inl hh), hid'⟩
    · rw [← hfirst.loads.seen?_eq hsound] at hseen
      rcases hrest.live m' htail hname hseen with ⟨h, hh, hid'⟩
      exact ⟨h, List.mem_append.2 (Or.inr hh), hid'⟩

theorem bindDistinctIn_of_seen {seen : List EntityId} {found : List (Handle k)}
    {ms' : List (Member k)} (hseen : m.id ∈ seen)
    (hrest : Member.bindDistinctIn scope seen ms s = ((found, ms'), s')) :
    Member.bindDistinctIn scope seen (m :: ms) s = ((found, m :: ms'), s') := by
  rw [Member.bindDistinctIn, if_pos hseen, Work.bind_apply, hrest]
  rfl

theorem bindDistinctIn_of_unseen {seen : List EntityId} {o : Option (Handle k)}
    {found : List (Handle k)} {m' : Member k} {ms' : List (Member k)} (hseen : m.id ∉ seen)
    (hfirst : m.bindIn scope s = ((o, m'), s₁))
    (hrest : Member.bindDistinctIn scope (m.id :: seen) ms s₁ = ((found, ms'), s')) :
    Member.bindDistinctIn scope seen (m :: ms) s = ((o.toList ++ found, m' :: ms'), s') := by
  rw [Member.bindDistinctIn, if_neg hseen, Work.bind_apply, hfirst]
  dsimp only
  rw [Work.bind_apply, hrest]
  rfl

theorem finds_bindDistinctIn (hsound : Sound s) (seen : List EntityId)
    (hown : ∀ m ∈ ms, m.Own s scope.context) :
    ∃ found ms' s', Member.bindDistinctIn scope seen ms s = ((found, ms'), s') ∧ Sound s' ∧
      Finds s scope.context (ms.filter fun m => m.id ∉ seen) found s' := by
  induction ms generalizing s seen with
  | nil =>
    refine ⟨[], [], s, rfl, hsound, Loads.refl s _ k _, ?_, ?_, ?_⟩
    · exact fun h hh => absurd hh List.not_mem_nil
    · exact fun h hh => absurd hh List.not_mem_nil
    · exact fun m hm => absurd hm List.not_mem_nil
  | cons m rest ih =>
    rcases List.forall_mem_cons.1 hown with ⟨hownFirst, hownRest⟩
    by_cases hseen : m.id ∈ seen
    · -- another member of the id came before
      rcases ih hsound seen hownRest with ⟨found, ms', s', hbound, hsound', hfinds⟩
      refine ⟨found, m :: ms', s', bindDistinctIn_of_seen hseen hbound, hsound', ?_⟩
      simpa [hseen] using hfinds
    · rcases finds_bindIn hsound hownFirst with ⟨found, m', s₁, hbind, hsound₁, hfirst⟩
      have hownRest₁ : ∀ m' ∈ rest, m'.Own s₁ scope.context :=
        fun m' hm' => (hownRest m' hm').later (hfirst.loads.registry _)
      rcases ih hsound₁ (m.id :: seen) hownRest₁ with
        ⟨others, ms', s', hbound, hsound', hrest⟩
      refine ⟨found.toList ++ others, m' :: ms', s', bindDistinctIn_of_unseen hseen hbind hbound,
        hsound', ?_⟩
      rw [List.filter_cons_of_pos (by simpa using hseen)]
      refine hfirst.cons hrest hsound ?_ ?_
      · intro m' hm'
        simp only [List.mem_filter, List.mem_cons, not_or, decide_eq_true_eq] at hm' ⊢
        exact ⟨hm'.1, hm'.2.2⟩
      · intro m' hm'
        by_cases hid : m'.id = m.id
        · exact Or.inl hid
        · simp only [List.mem_filter, List.mem_cons, not_or, decide_eq_true_eq] at hm' ⊢
          exact Or.inr ⟨hm'.1, hid, hm'.2⟩

/-! ## Deleting what was found -/

theorem isRegistered_of_entry (hsound : Sound s) {pending : Bool}
    (he : (s.registry c).get? h.id.key = some ⟨k, h, pending⟩) : s.isRegistered c h = true := by
  have hcontext : h.context = c := (hsound.lodged he).context
  simp [isRegistered, hcontext, SortedMap.contains, he]

/-- A delete goes by the context and the key of a handle, and marks the object of the handle. -/
theorem delete_of_registered (hregistered : s.isRegistered scope.context h = true) :
    (scope.delete h).outcome s = (.ok !s.isDeleted h, s.markDeleted h) := by
  unfold Scope.delete
  rw [Attempt.outcome_bind_of_ok (Attempt.outcome_get s), hregistered]
  rfl

theorem delete_of_unregistered (hregistered : s.isRegistered scope.context h = false) :
    (scope.delete h).outcome s = (.error (.foreignObject h.id scope.context), s) := by
  unfold Scope.delete
  rw [Attempt.outcome_bind_of_ok (Attempt.outcome_get s), hregistered]
  rfl

theorem deleteOrReport_of_registered (hsound : Sound s) {pending : Bool}
    (he : (s.registry scope.context).get? h.id.key = some ⟨k, h, pending⟩) :
    scope.deleteOrReport h s = (!s.isDeleted h, s.markDeleted h) := by
  rw [Scope.deleteOrReport, Work.bind_apply,
    delete_of_registered (isRegistered_of_entry hsound he)]
  rfl

/-- The session with these entities deleted. -/
def markAll (s : Session T) (hs : List (Handle k)) : Session T :=
  hs.foldl (fun s h => s.markDeleted h) s

theorem entity?_markAll (s : Session T) (hs : List (Handle k)) (n : Nat) :
    (s.markAll hs).entity? n = if n ∈ hs.map Handle.slot then
      (s.entity? n).map fun m => { m with deleted := true } else s.entity? n := by
  induction hs generalizing s with
  | nil => simp [markAll]
  | cons h rest ih =>
    have hstep : (s.markAll (h :: rest)).entity? n = ((s.markDeleted h).markAll rest).entity? n :=
      rfl
    rw [hstep, ih, markDeleted, entity?_modifyEntity]
    by_cases hn : h.slot = n
    · cases s.entity? n <;> simp [hn]
    · simp [hn, Ne.symm hn]

/-- Only entities are touched. -/
theorem markAll_eq (s : Session T) (hs : List (Handle k)) :
    s.markAll hs = { s with entities := (s.markAll hs).entities } := by
  induction hs generalizing s with
  | nil => rfl
  | cons h rest ih => exact ih (s.markDeleted h)

@[simp]
theorem registry_markAll (s : Session T) (hs : List (Handle k)) (d : ContextId) :
    (s.markAll hs).registry d = s.registry d := by
  rw [markAll_eq]
  rfl

theorem Sound.markAll (hsound : Sound s) (hs : List (Handle k)) : Sound (s.markAll hs) := by
  induction hs generalizing s with
  | nil => exact hsound
  | cons h rest ih => exact ih ((Step.delete s h.slot).sound hsound)

theorem confined_markAll (hsound : Sound s)
    (hentry : ∀ h ∈ hs, ∃ pending, (s.registry c).get? h.id.key = some ⟨k, h, pending⟩) :
    Confined s (s.markAll hs) c k (hs.map Handle.slot) := by
  induction hs generalizing s with
  | nil => exact Confined.refl s c k
  | cons h rest ih =>
    have hdelete : Confined s (s.markDeleted h) c k [h.slot] := by
      let mark : Entity T → Entity T := fun m => { m with deleted := true }
      refine ⟨Adds.modifyEntity s c k h.slot mark s.journal,
        Leaves.modifyEntity s c h.slot mark s.journal, ?_⟩
      intro key e he hslot
      have hhandle : ∀ h' ∈ [h], ∃ pending,
          (s.registry c).get? h'.id.key = some ⟨k, h', pending⟩ := by
        intro h' hh'
        cases List.mem_singleton.1 hh'
        exact hentry h List.mem_cons_self
      exact hsound.touched hhandle he (by simpa using hslot)
    have hrest := ih ((Step.delete s h.slot).sound hsound)
      fun h' hh' => hentry h' (List.mem_cons_of_mem _ hh')
    exact hdelete.trans hrest

theorem deleteEach_of_registered (hsound : Sound s)
    (hentry : ∀ h ∈ hs, ∃ pending,
      (s.registry scope.context).get? h.id.key = some ⟨k, h, pending⟩) :
    (scope.deleteEach hs s).2 = s.markAll hs := by
  induction hs generalizing s with
  | nil => rfl
  | cons h rest ih =>
    rcases hentry h List.mem_cons_self with ⟨pending, he⟩
    have hrest := ih ((Step.delete s h.slot).sound hsound)
      fun h' hh' => hentry h' (List.mem_cons_of_mem _ hh')
    rw [Scope.deleteEach, Work.bind_apply, deleteOrReport_of_registered hsound he]
    exact hrest

/-! ## Clearing a relationship -/

/-- These entities are deleted: members, and among them every one that was live. -/
structure Drops (s : Session T) (c : ContextId) (ms : List (Member k)) (hs : List (Handle k))
    (s' : Session T) : Prop where
  entry : ∀ h ∈ hs, ∃ pending, (s'.registry c).get? h.id.key = some ⟨k, h, pending⟩
  member : ∀ h ∈ hs, ∃ m ∈ ms, h.id = m.id
  deleted : ∀ h ∈ hs, s'.isDeleted h = true
  live : ∀ m ∈ ms, m.id.entity = T.entityName k → (s.seen? c k m.id.key).isSome →
    ∃ h ∈ hs, h.id = m.id

/-- A step never takes a deletion back, so what is done afterwards does not matter. -/
theorem Drops.widen {s₂ : Session T} {allow : Deed → Prop} (hdrops : Drops s₁ c ms hs s₂)
    (hbefore : ∀ key, s₁.seen? c k key = s.seen? c k key) (hafter : Run allow s₂ s')
    (hregistry : ∀ key e, (s₂.registry c).get? key = some e → (s'.registry c).get? key = some e) :
    Drops s c ms hs s' where
  entry h hh := by
    rcases hdrops.entry h hh with ⟨pending, he⟩
    exact ⟨pending, hregistry _ _ he⟩
  member := hdrops.member
  deleted h hh := hafter.deleted (hdrops.deleted h hh)
  live m hm hname hseen := by
    rw [← hbefore] at hseen
    exact hdrops.live m hm hname hseen

/-- The members were deleted that were there and live, and nothing else was done. -/
structure Clears (s : Session T) (c : ContextId) (ms : List (Member k)) (hs : List (Handle k))
    (s' : Session T) : Prop extends Drops s c ms hs s' where
  confined : Confined s s' c k (hs.map Handle.slot)
  others : ∀ key, (∀ h ∈ hs, h.id.key ≠ key) → s'.seen? c k key = s.seen? c k key

theorem Clears.refl (s : Session T) (c : ContextId) : Clears s c ([] : List (Member k)) [] s where
  entry _ hh := absurd hh List.not_mem_nil
  member _ hh := absurd hh List.not_mem_nil
  deleted _ hh := absurd hh List.not_mem_nil
  live _ hm := absurd hm List.not_mem_nil
  confined := Confined.refl s c k
  others _ _ := rfl

theorem Clears.report (hclears : Clears s c ms hs s') (event : Event) :
    Clears s c ms hs (s'.report event) where
  entry := hclears.entry
  member := hclears.member
  deleted := hclears.deleted
  live := hclears.live
  confined := hclears.confined.report event
  others := hclears.others

theorem Finds.clears (hfinds : Finds s c ms hs s₁) (hsound : Sound s) (hsound₁ : Sound s₁) :
    Clears s c ms hs (s₁.markAll hs) where
  confined := by
    have hloads : Confined s s₁ c k [] := Confined.of_loads hfinds.loads
    exact hloads.trans (confined_markAll hsound₁ hfinds.entry)
  entry h hh := by
    rcases hfinds.entry h hh with ⟨pending, he⟩
    exact ⟨pending, (confined_markAll hsound₁ hfinds.entry).leaves.registry c _ _ he⟩
  member := hfinds.member
  live := hfinds.live
  deleted h hh := by
    rcases hfinds.entry h hh with ⟨pending, he⟩
    rcases (hsound₁.lodged he).entity with ⟨m, hm, _⟩
    have hslot : s₁.entity? h.slot = some m := hm
    have hmem : h.slot ∈ hs.map Handle.slot := List.mem_map_of_mem hh
    rw [isDeleted, entity?_markAll, if_pos hmem, hslot]
    rfl
  others key hkey := by
    have hmark := confined_markAll hsound₁ hfinds.entry
    rw [← hfinds.loads.seen?_eq hsound]
    cases he : (s₁.registry c).get? key with
    | none =>
      rw [seen?_of_row he, seen?_of_row (by simpa using he), hmark.leaves.rowsOf]
    | some e =>
      refine seen?_congr he (hmark.leaves.registry c _ _ he) ?_
      rw [entity?_markAll, if_neg]
      -- entries of one slot have one key
      intro hslot
      rcases List.mem_map.1 hslot with ⟨h, hh, hsame⟩
      rcases hfinds.entry h hh with ⟨pending, hregistered⟩
      exact hkey h hh (hsound₁.slots hregistered he hsame).2

/-- Deleting the members of an owned relationship. -/
theorem clears_deleteCascade {R : T.Kind → Type} [ToMany R] (hsound : Sound s)
    (field : Option (R k)) (hown : ∀ r, field = some r → ∀ m ∈ ToMany.members r,
      m.Own s scope.context) : ∃ hs,
    Clears s scope.context ((field.map ToMany.members).getD []) hs
      (scope.deleteCascade field s).2 := by
  cases field with
  | none => exact ⟨[], Clears.refl s _⟩
  | some r =>
    rcases finds_bindDistinctIn hsound [] (hown r rfl) with
      ⟨found, ms, s₁, hbound, hsound₁, hfinds⟩
    have hcascade : (scope.deleteCascade (some r) s).2 =
        (s₁.markAll found).report (.cascaded (T.entityName k) scope.context
          (scope.deleteEach found s₁).1) := by
      rw [← deleteEach_of_registered hsound₁ hfinds.entry]
      simp only [Scope.deleteCascade, Scope.deleteAll, ToMany.resolveIn, Work.bind_apply, hbound]
      rfl
    rw [hcascade]
    refine ⟨found, Clears.report ?_ _⟩
    simpa using hfinds.clears hsound hsound₁

/-! ## Saving deletions -/

/-- What a context has registered it keeps until it is saved or closed. -/
theorem Run.registered {allow : Deed → Prop} (hrun : Run allow s s')
    (hallow : ∀ deed, allow deed → deed ≠ .saved c) (hsound : Sound s) (hnumbered : Numbered s)
    (hkeys : s'.KeysLeft) (hopen : (s'.context? c).isSome) {key : UInt64} {e : Entry T}
    (he : (s.registry c).get? key = some e) : (s'.registry c).get? key = some e := by
  rcases isOpen_of_registry he with ⟨ctx, hctx, _⟩
  have hnumber : c.number ≤ s.opened := (hsound.opened hctx).1
  -- that no context was opened under an old number is part of the invariant
  have hkept := hrun.induct
    (P := fun a => Sound a ∧ s.opened ≤ a.opened ∧ (a.KeysLeft → Numbered a ∧
      ((a.context? c).isSome → (a.registry c).get? key = some e))) ?_
    ⟨hsound, Nat.le_refl _, fun _ => ⟨hnumbered, fun _ => he⟩⟩
  · exact (hkept.2.2 hkeys).2 hopen
  · intro a b deed hdeed hstep ih
    rcases ih with ⟨ha, hopened, ih⟩
    refine ⟨hstep.sound ha, Nat.le_trans hopened hstep.opened_le, ?_⟩
    intro hleft
    rcases ih (hstep.keysLeft hleft) with ⟨hnumbered, hregistered⟩
    refine ⟨hstep.numbered ha hleft hnumbered, ?_⟩
    intro hstill
    have hwas := hstep.was_open (Nat.le_trans hnumber hopened) hstill
    exact hstep.registered ha hnumbered (hallow deed hdeed) hstill (hregistered hwas)

/-- Whatever is done in the meantime, the next save of the context takes the row of a deleted entity
off the store. -/
theorem row?_save_of_deleted (hnative : Run Deed.Native .empty s) {pending : Bool}
    (he : (s.registry scope.context).get? h.id.key = some ⟨k, h, pending⟩)
    (hdeleted : s.isDeleted h = true)
    (hlater : Run (fun deed => deed.Native ∧ deed ≠ .saved scope.context) s s')
    (hkeys : s'.KeysLeft) {summary : Summary} {s'' : Session T}
    (hsave : (scope.save (T := T)).outcome s' = (.ok summary, s'')) :
    (s''.rowsOf scope.context).row? h.id = none := by
  rcases save_ok hsave with ⟨changes, hcollect, _, rfl⟩
  show ((s'.commit scope.context changes).2.rowsOf scope.context).row? h.id = none
  have hrun' : Run Deed.Native .empty s' :=
    hnative.trans (hlater.mono fun _ hdeed => hdeed.1)
  have hsound : Sound s := hnative.sound sound_empty
  have hnumbered : Numbered s :=
    hnative.numbered sound_empty numbered_empty (hlater.keysLeft hkeys)
  cases hstore : s'.storeOf? scope.context with
  | none =>
    rw [rowsOf_commit_of_none hstore, rowsOf, hstore]
    rfl
  | some store =>
    rcases isOpen_of_storeOf? hstore with ⟨ctx, hctx, hplace⟩
    have hopen : (s'.context? scope.context).isSome := by simp [hctx]
    have he' := hlater.registered (fun _ hdeed => hdeed.2) hsound hnumbered hkeys hopen he
    have hdeleted' : s'.isDeleted h = true := hlater.deleted hdeleted
    rw [row?_commit_of_deleted (hrun'.sound sound_empty) hstore hcollect he' rfl hdeleted']
    cases pending with
    | false => rfl
    | true =>
      -- an entity that was not saved since it was inserted has no row
      have hreserved := hrun'.reserved sound_empty numbered_empty reserved_empty hkeys
      exact hreserved.row?_of_pending he' rfl

/-- What has a row in the store of the context is live there, or deleted. -/
theorem Unambiguous.live_or_deleted (hunambiguous : Unambiguous s) (hsound : Sound s)
    {id : EntityId} (hrow : ((s.rowsOf c).row? id).isSome) : s.Live c id ∨ ∃ e,
      (s.registry c).get? id.key = some e ∧ e.id = id ∧ s.entryDeleted e = true := by
  rcases Option.isSome_iff_exists.1 hrow with ⟨row, hget⟩
  by_cases hentry : ∃ e, (s.registry c).get? id.key = some e ∧ e.id = id
  · rcases hentry with ⟨e, he, hid⟩
    cases hdeleted : s.entryDeleted e with
    | true => exact Or.inr ⟨e, he, hid, hdeleted⟩
    | false => exact Or.inl (Or.inl ⟨e, he, hid, hdeleted⟩)
  · have hnone := hunambiguous.unregistered hsound hget fun e he hid => hentry ⟨e, he, hid⟩
    exact Or.inl (Or.inr ⟨hnone, hrow⟩)

/-- The rows go of the members that were deleted, and of those that were deleted before. -/
theorem Drops.row?_after_save (hdrops : Drops s scope.context ms hs s₁) (hnative : Run Deed.Native .empty s)
    (hrun : Run Deed.Native s s₁)
    (hregistry : ∀ key e, (s.registry scope.context).get? key = some e →
      (s₁.registry scope.context).get? key = some e)
    (hlater : Run (fun deed => deed.Native ∧ deed ≠ .saved scope.context) s₁ s')
    (hkeys : s'.KeysLeft) {summary : Summary} {s'' : Session T}
    (hsave : (scope.save (T := T)).outcome s' = (.ok summary, s'')) (hm : m ∈ ms)
    (hname : m.id.entity = T.entityName k)
    (hthere : (s.seen? scope.context k m.id.key).isSome ∨ ∃ e,
      (s.registry scope.context).get? m.id.key = some e ∧ e.id = m.id ∧ s.entryDeleted e = true) :
    (s''.rowsOf scope.context).row? m.id = none := by
  rcases hthere with hseen | ⟨⟨l, x, pending⟩, he, hid, hdeleted⟩
  · rcases hdrops.live m hm hname hseen with ⟨h, hh, hid⟩
    rcases hdrops.entry h hh with ⟨pending, he⟩
    rw [← hid]
    exact row?_save_of_deleted (hnative.trans hrun) he (hdrops.deleted h hh) hlater hkeys hsave
  · have hsame : x.id = m.id := hid
    rw [← hsame] at he ⊢
    have hdeleted₁ : s₁.isDeleted x = true := hrun.deleted hdeleted
    exact row?_save_of_deleted (hnative.trans hrun) (hregistry _ _ he) hdeleted₁ hlater hkeys hsave

end Session

end Reconcile
