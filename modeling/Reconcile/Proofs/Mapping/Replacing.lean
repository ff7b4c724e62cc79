import Reconcile.Proofs.Mapping.Synchronizing
import Reconcile.Proofs.Session.Removing

/-!
# Replacing owned entities

Plain values without a natural key are never looked for: each of them gets a new entity, in the
order of the list (`MakesAll`).  Their fill may look at the entities that were there before, for
instance at the one that owns them, as long as it changes nothing.

Replacing a relationship with such values deletes the members it had and makes new ones.
-/

namespace Reconcile

open Session

variable {T : Model} {k : T.Kind} {s s₁ s' : Session T} {scope : Scope} {c : ContextId}
  {h : Handle k} {hs : List (Handle k)} {v : T.Value k} {vs : List (T.Value k)}

/-! ## New entities -/

/-- A new entity with this value came into the context, and nothing else was done. -/
structure Makes (s : Session T) (c : ContextId) (v : T.Value k) (h : Handle k) (s' : Session T) :
    Prop where
  slot : s.entities.size ≤ h.slot
  fresh : (s.registry c).get? h.id.key = none
  unseen : s.seen? c k h.id.key = none
  entry : (s'.registry c).get? h.id.key = some ⟨k, h, true⟩
  seen : s'.seen? c k h.id.key = some v
  others : ∀ key, key ≠ h.id.key → s'.seen? c k key = s.seen? c k key
  confined : Confined s s' c k [h.slot]

/-- New entities with these values came into the context one after the other. -/
structure Enters (s : Session T) (c : ContextId) (vs : List (T.Value k)) (hs : List (Handle k))
    (s' : Session T) : Prop where
  values : List.Forall₂ (fun v h => s'.seen? c k h.id.key = some v) vs hs
  slot : ∀ h ∈ hs, s.entities.size ≤ h.slot
  fresh : ∀ h ∈ hs, (s.registry c).get? h.id.key = none ∧ s.seen? c k h.id.key = none
  entry : ∀ h ∈ hs, (s'.registry c).get? h.id.key = some ⟨k, h, true⟩
  ordered : hs.Pairwise fun h h' => h.slot < h'.slot

/-- What was done before may concern other entities of the type, and what was done afterwards other
types. -/
theorem Enters.widen {s₂ : Session T} {slots : List Nat} (henters : Enters s₁ c vs hs s₂)
    (hbefore : Leaves s s₁ c slots) (hafter : Bypasses s₂ s' c k) : Enters s c vs hs s' where
  values := henters.values.imp fun _ _ hseen => (hafter.seen _).trans hseen
  slot h hh := Nat.le_trans hbefore.size (henters.slot h hh)
  fresh h hh := by
    rcases henters.fresh h hh with ⟨hnone, hunseen⟩
    have hnone' : (s.registry c).get? h.id.key = none := by
      cases hold : (s.registry c).get? h.id.key with
      | none => rfl
      | some e => cases hnone.symm.trans (hbefore.registry c _ _ hold)
    rw [seen?_of_row hnone, hbefore.rowsOf] at hunseen
    exact ⟨hnone', (seen?_of_row hnone').trans hunseen⟩
  entry h hh := hafter.registry _ _ (henters.entry h hh)
  ordered := henters.ordered

/-- New entities with these values came into the context, and nothing else was done. -/
structure MakesAll (s : Session T) (c : ContextId) (vs : List (T.Value k)) (hs : List (Handle k))
    (s' : Session T) : Prop extends Enters s c vs hs s' where
  others : ∀ key, (∀ h ∈ hs, h.id.key ≠ key) → s'.seen? c k key = s.seen? c k key
  confined : Confined s s' c k (hs.map Handle.slot)

theorem MakesAll.nil (s : Session T) (c : ContextId) :
    MakesAll s c ([] : List (T.Value k)) [] s where
  values := List.Forall₂.nil
  slot _ hh := absurd hh List.not_mem_nil
  fresh _ hh := absurd hh List.not_mem_nil
  entry _ hh := absurd hh List.not_mem_nil
  ordered := List.Pairwise.nil
  others _ _ := rfl
  confined := Confined.refl s c k

theorem MakesAll.report (hmakes : MakesAll s c vs hs s') (event : Event) :
    MakesAll s c vs hs (s'.report event) where
  values := hmakes.values
  slot := hmakes.slot
  fresh := hmakes.fresh
  entry := hmakes.entry
  ordered := hmakes.ordered
  others := hmakes.others
  confined := hmakes.confined.report event

theorem Makes.cons (hmakes : Makes s c v h s₁) (hrest : MakesAll s₁ c vs hs s') :
    MakesAll s c (v :: vs) (h :: hs) s' := by
  have hkept := hrest.confined.leaves.registry c
  -- what comes later has other keys
  have hother : ∀ h' ∈ hs, h'.id.key ≠ h.id.key := by
    intro h' hh' hkey
    have hnone := (hrest.fresh h' hh').1
    rw [hkey, hmakes.entry] at hnone
    cases hnone
  rcases Mapping.entity_of_seen? hmakes.entry hmakes.seen with ⟨m, hm, _⟩
  have hlt : h.slot < s₁.entities.size := lt_size_of_entity? hm
  refine ⟨⟨?values, ?slot, ?fresh, ?entry, ?ordered⟩, ?others, ?confined⟩
  case values =>
    exact .cons ((hrest.others _ hother).trans hmakes.seen) hrest.values
  case slot =>
    intro h' hh'
    rcases List.mem_cons.1 hh' with rfl | htail
    · exact hmakes.slot
    · exact Nat.le_trans hmakes.confined.leaves.size (hrest.slot h' htail)
  case fresh =>
    intro h' hh'
    rcases List.mem_cons.1 hh' with rfl | htail
    · exact ⟨hmakes.fresh, hmakes.unseen⟩
    · rcases hrest.fresh h' htail with ⟨hnone, hunseen⟩
      rw [hmakes.others _ (hother h' htail)] at hunseen
      refine ⟨?_, hunseen⟩
      cases hold : (s.registry c).get? h'.id.key with
      | none => rfl
      | some e => cases hnone.symm.trans (hmakes.confined.leaves.registry c _ _ hold)
  case entry =>
    intro h' hh'
    rcases List.mem_cons.1 hh' with rfl | htail
    · exact hkept _ _ hmakes.entry
    · exact hrest.entry h' htail
  case ordered =>
    refine List.pairwise_cons.2 ⟨?_, hrest.ordered⟩
    intro h' hh'
    exact Nat.lt_of_lt_of_le hlt (hrest.slot h' hh')
  case others =>
    intro key hkey
    rw [hrest.others key fun h' hh' => hkey h' (List.mem_cons_of_mem _ hh')]
    exact hmakes.others key (hkey h List.mem_cons_self).symm
  case confined => exact hmakes.confined.trans hrest.confined

namespace Mapping

variable {M : Mapping T} {p : M.Plain k} {ps : List (M.Plain k)} {hook : Hook T k}

/-! ## Reconciling values without a key -/

/-- The plain value ends up as this value in a new entity, in every session that has the entities of
this one: hook and fill change nothing. -/
structure Forms (M : Mapping T) (s : Session T) (scope : Scope) (hook : Hook T k) (p : M.Plain k)
    (v : T.Value k) : Prop where
  keyless : M.naturalKey p = none
  fill : ∃ v', (∀ a, hook (T.blank k) a = (v', a)) ∧
    ∀ nested this (a : Session T), (∀ n, n < s.entities.size → a.entity? n = s.entity? n) →
      M.fill p nested scope this v' a = (v, a)

theorem Forms.later (hforms : M.Forms s scope hook p v) (hsize : s.entities.size ≤ s₁.entities.size)
    (hkept : ∀ n, n < s.entities.size → s₁.entity? n = s.entity? n) :
    M.Forms s₁ scope hook p v := by
  rcases hforms.fill with ⟨v', hhook, hfill⟩
  refine ⟨hforms.keyless, v', hhook, ?_⟩
  intro nested this a ha
  refine hfill nested this a ?_
  intro n hn
  exact (ha n (Nat.lt_of_lt_of_le hn hsize)).trans (hkept n hn)

theorem findOrInsertUnique_of_keyless (hkey : M.naturalKey p = none) {d : Description}
    (hd : (s.schemaOf scope.context).require (T.entityName k) = .ok d) :
    ∃ store, s.storeOf? scope.context = some store ∧ M.findOrInsertUnique scope p s =
      (some ⟨s.entities.size, ⟨T.entityName k, store.nextKey⟩, scope.context⟩,
        s.insertUnder scope.context k store.nextKey) := by
  have hnone : M.findUnique scope p s = (none, s) := by
    rw [findUnique, hkey]
    rfl
  rcases insert_cases scope k s with ⟨fault, _, hfault⟩ | ⟨store, hstore, hinsert⟩
  · cases hfault.symm.trans hd
  · refine ⟨store, hstore, ?_⟩
    rw [findOrInsertUnique_of_none hnone]
    simp only [Scope.insertOrReport, Work.bind_apply, hinsert]
    rfl

theorem makes_reconcile (hsound : Sound s) (hnumbered : Numbered s) {d : Description}
    (hd : (s.schemaOf scope.context).require (T.entityName k) = .ok d)
    (hforms : M.Forms s scope hook p v) : ∃ h s',
      M.reconcile scope p hook s = (some h, s') ∧ Makes s scope.context v h s' := by
  rcases findOrInsertUnique_of_keyless hforms.keyless hd with ⟨store, hstore, hfound⟩
  rcases hforms.fill with ⟨v', hhook, hfill⟩
  rcases hnumbered.unused hsound hstore with ⟨hunused, hrow⟩
  let h : Handle k := ⟨s.entities.size, ⟨T.entityName k, store.nextKey⟩, scope.context⟩
  let s₁ := s.insertUnder scope.context k store.nextKey
  have hm : s₁.entity? h.slot = some (.new k (T.blank k) true) := entity?_insertUnder_new
  have hblank : (Entity.new k (T.blank k) true).value k = T.blank k := value_new k _ true
  have hweight : M.weight p < M.weight p + 1 := Nat.lt_succ_self _
  -- what the fill looks at is older than the entity that is filled
  have hfilled : ∀ f journal, M.fill p (M.nested scope hweight) scope h.id v'
      { s₁.modifyEntity h.slot f with journal } =
        (v, { s₁.modifyEntity h.slot f with journal }) := by
    intro f journal
    refine hfill _ h.id _ ?_
    intro n hn
    exact (entity?_modifyEntity_of_ne s₁ (Nat.ne_of_lt hn) f).trans (entity?_insertUnder_of_lt hn)
  rcases reconcileBelow_of_readers hfound hm rfl (fun f => hblank.symm ▸ hhook _) hfilled with
    ⟨journal, hresult⟩
  have hentry : (s₁.registry scope.context).get? h.id.key = some ⟨k, h, true⟩ :=
    get?_insertUnder_new hstore
  have hentity := entity?_modifyEntity_self hm fun m => m.checkIn v
  have hsound₁ : Sound s₁ := hsound.insertUnder hstore k _
  refine ⟨h, _, hresult, Nat.le_refl _, hunused, ?_, hentry, ?_, ?_, ?_⟩
  · rw [seen?_of_row hunused, hrow]
    rfl
  · have hseen : Session.seen? { s₁.modifyEntity h.slot (·.checkIn v) with journal }
        scope.context k h.id.key = some (((Entity.new k (T.blank k) true).checkIn v).value k) :=
      seen?_of_entry hentry rfl hentity rfl
    exact hseen.trans (congrArg some (Entity.value_self _))
  · intro key hkey
    exact (seen?_modifyEntity_of_ne hsound₁ hentry hkey _ journal).trans
      (seen?_insertUnder_of_ne hsound hstore hkey)
  · let put : Entity T → Entity T := fun m => m.checkIn v
    have hleaves : Leaves s { s₁.modifyEntity h.slot put with journal } scope.context [h.slot] :=
      ((Leaves.insertUnder hstore hunused).trans
        (Leaves.modifyEntity s₁ scope.context h.slot put journal)).mono (by simp [h])
    refine ⟨(Adds.insertUnder hstore).trans
      (Adds.modifyEntity s₁ scope.context k h.slot put journal), hleaves, ?_⟩
    intro key e he hslot
    have hhandle : ∀ h' ∈ [h], ∃ pending,
        (s₁.registry scope.context).get? h'.id.key = some ⟨k, h', pending⟩ := by
      intro h' hh'
      cases List.mem_singleton.1 hh'
      exact ⟨true, hentry⟩
    exact hsound₁.touched hhandle he hslot

theorem makesAll_reconcile (hM : M.Lawful) (hhook : ∀ v, (hook v).Leads Advances)
    (hsound : Sound s) (hnumbered : Numbered s) {d : Description}
    (hd : (s.schemaOf scope.context).require (T.entityName k) = .ok d)
    (hforms : List.Forall₂ (M.Forms s scope hook) ps vs)
    (hkeys : (resolveEach ps (fun p _ => M.reconcile scope p hook) s).2.KeysLeft) :
    ∃ hs s', resolveEach ps (fun p _ => M.reconcile scope p hook) s = (hs, s') ∧
      MakesAll s scope.context vs hs s' := by
  induction ps generalizing s vs with
  | nil =>
    cases hforms
    exact ⟨[], s, rfl, MakesAll.nil s _⟩
  | cons p ps ih =>
    rcases List.forall₂_cons_left_iff.1 hforms with ⟨v, vs, hfirst, hrest, rfl⟩
    rcases makes_reconcile hsound hnumbered hd hfirst with ⟨h, s₁, hresult, hmakes⟩
    have hrun := (hM.reconcile scope p hhook s hsound).run
    rw [hresult] at hrun
    have hsound₁ : Sound s₁ := hrun.sound hsound
    rw [reconcileEach_cons hresult] at hkeys ⊢
    have hrun' := (reads_advances.resolveEach
      (fun (q : M.Plain k) (_ : q ∈ ps) => hM.reconcile scope q hhook) s₁ hsound₁).run
    have hnumbered₁ := hrun.numbered hsound hnumbered (hrun'.keysLeft hkeys)
    have hd₁ : (s₁.schemaOf scope.context).require (T.entityName k) = .ok d := by
      rw [hmakes.confined.schemaOf]
      exact hd
    -- the entities that were there are still as they were
    have hforms₁ : List.Forall₂ (M.Forms s₁ scope hook) ps vs := by
      refine hrest.imp ?_
      intro q w hforms
      refine hforms.later hmakes.confined.leaves.size ?_
      intro n hn
      refine hmakes.confined.leaves.entity? n hn ?_
      intro hslot
      rw [List.mem_singleton.1 hslot] at hn
      exact Nat.not_lt.2 hmakes.slot hn
    rcases ih hsound₁ hnumbered₁ hd₁ hforms₁ hkeys with ⟨hs', s', hall, hmakesAll⟩
    rw [hall]
    exact ⟨_, _, rfl, hmakes.cons hmakesAll⟩

/-- Replacing the members of an owned list deletes those that were live, and then makes a new entity
for every plain value. -/
theorem replaceList_of_forms (hM : M.Lawful) (hhook : ∀ v, (hook v).Leads Advances)
    (hsound : Sound s) {d : Description}
    (hd : (s.schemaOf scope.context).require (T.entityName k) = .ok d)
    (hnumbered : ∀ s₁, Run Deed.Native s s₁ → s₁.KeysLeft → Numbered s₁)
    {members : Option (MemberList k)}
    (hown : ∀ r, members = some r → ∀ m ∈ r.members, m.Own s scope.context)
    (hforms : ∀ s₁ gone, Confined s s₁ scope.context k gone →
      List.Forall₂ (M.Forms s₁ scope hook) ps vs)
    (hkeys : (M.replaceList scope members (some ps) hook s).2.KeysLeft) : ∃ gone hs s₁ s',
      M.replaceList scope members (some ps) hook s = (some (MemberList.ofHandles hs), s') ∧
      Clears s scope.context ((members.map MemberList.members).getD []) gone s₁ ∧
      MakesAll s₁ scope.context vs hs s' ∧ Run Deed.Native s₁ s' := by
  rcases clears_deleteCascade hsound members hown with ⟨gone, hclears⟩
  rcases hcascade : scope.deleteCascade members s with ⟨_, s₁⟩
  rw [hcascade] at hclears
  have hrun₁ : Run Deed.Native s s₁ := by
    have hdelete := (reads_advances.deleteCascade advances_markDeleted trivial scope members s
      hsound).run
    rwa [hcascade] at hdelete
  have hsound₁ : Sound s₁ := hrun₁.sound hsound
  rcases hall : resolveEach ps (fun p _ => M.reconcile scope p hook) s₁ with ⟨found, s₂⟩
  have hresult : M.replaceList scope members (some ps) hook s =
      (some (MemberList.ofHandles found), s₂.report (.reconciled .list (T.entityName k) ps.length
        (MemberList.ofHandles found).length)) := by
    simp only [replaceList, Scope.replaceAll, Option.map_some, Work.bind_apply, hcascade, syncList,
      MemberList.build, hall]
    rfl
  -- the report at the end uses up no keys
  have hkeys₂ : s₂.KeysLeft := by
    rw [hresult] at hkeys
    exact fun event hevent => hkeys event (Array.mem_push.2 (Or.inl hevent))
  have hrun₂ : Run Deed.Native s₁ s₂ := by
    have hreconcile := (reads_advances.resolveEach
      (fun (p : M.Plain k) (_ : p ∈ ps) => hM.reconcile scope p hhook) s₁ hsound₁).run
    rwa [hall] at hreconcile
  have hd₁ : (s₁.schemaOf scope.context).require (T.entityName k) = .ok d := by
    rw [hclears.confined.schemaOf]
    exact hd
  rcases makesAll_reconcile hM hhook hsound₁ (hnumbered s₁ hrun₁ (hrun₂.keysLeft hkeys₂)) hd₁
    (hforms s₁ _ hclears.confined) (by rwa [hall]) with ⟨hs, s', hmade, hmakes⟩
  rw [hall] at hmade
  cases hmade
  exact ⟨gone, _, s₁, _, hresult, hclears, hmakes.report _,
    hrun₂.trans ((Step.report s₂ _).run trivial)⟩

end Mapping

end Reconcile
