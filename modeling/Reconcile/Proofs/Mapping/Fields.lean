import Reconcile.Proofs.Mapping.Owning
import Reconcile.Proofs.Relation.Codec
import Reconcile.Proofs.Session.Effect

/-!
# Fields whose entities are replaced

Fields of all shapes (`Field`) are replaced from plain values again and again, and in between the
context is saved, fields are read back from what they are written as, and other entities come and go
(`Turn`).  At any time the fields share out among them what the context has of the type
(`Tended`).
-/

namespace Reconcile

open Session

variable {T : Model} {k : T.Kind} {s s₁ s' : Session T} {scope : Scope} {c : ContextId}
  {old new : List (Handle k)}

/-! ## Fields -/

/-- A relationship field of any shape. -/
inductive Field {K : Type} (k : K) where
  | set (field : Option (MemberSet k))
  | list (field : Option (MemberList k))
  | one (field : Option (ToOne k))

namespace Field

variable {K : Type} {k : K} {source : Option ContextId}

def members : Field k → List (Member k)
  | set field => (field.map MemberSet.members).getD []
  | list field => (field.map MemberList.members).getD []
  | one field => (field.map ToOne.member).toList

/-- What is read back from what a field is written as. -/
inductive Rereads (source : Option ContextId) : Field k → Field k → Prop where
  | set {field field' : Option (MemberSet k)} (h : Json.optional? (MemberSet.ofJson? source)
      (some (.ofOption MemberSet.toJson field)) = some field') :
      Rereads source (set field) (set field')
  | list {field field' : Option (MemberList k)} (h : Json.optional? (MemberList.ofJson? source)
      (some (.ofOption MemberList.toJson field)) = some field') :
      Rereads source (list field) (list field')
  | one {field field' : Option (ToOne k)} (h : Json.optional? (ToOne.ofJson? source)
      (some (.ofOption ToOne.toJson field)) = some field') : Rereads source (one field) (one field')

theorem Rereads.members {field field' : Field k} (h : Rereads source field field') :
    field'.members = field.members.map fun m => .unbound m.id := by
  cases h with
  | @set field _ h =>
    rw [MemberSet.optional?_toJson] at h
    cases h
    cases field with
    | none => rfl
    | some set => exact MemberSet.members_reread source set
  | @list field _ h =>
    rw [MemberList.optional?_toJson] at h
    cases h
    cases field with
    | none => rfl
    | some list => exact MemberList.members_reread source list
  | @one field _ h =>
    rw [ToOne.optional?_toJson] at h
    cases h
    cases field <;> rfl

end Field

/-- Handles that come in the order of their ids, after those that the set has, come at the end. -/
theorem MemberSet.toList_insertAll (set : MemberSet k)
    (hordered : new.Pairwise fun h h' => compare h.id h'.id = .lt)
    (hset : ∀ e ∈ set.bindings.toList, ∀ h ∈ new, compare e.1 h.id = .lt) :
    (new.foldl (fun s h => (s.insert h).2) set).bindings.toList =
      set.bindings.toList ++ new.map fun h => (h.id, some h) := by
  induction new generalizing set with
  | nil => exact (List.append_nil _).symm
  | cons h rest ih =>
    rcases List.pairwise_cons.1 hordered with ⟨hfirst, hrest⟩
    have hself : compare h.id h.id = .eq := Std.ReflCmp.compare_self
    have hnew : set.contains h = false := by
      refine SortedMap.contains_eq_false_iff.2 (Option.eq_none_iff_forall_ne_some.2 ?_)
      intro bound hbound
      have hlt := hset _ (SortedMap.mem_toList_iff.2 hbound) h List.mem_cons_self
      cases hself.symm.trans hlt
    have hinsert : (set.insert h).2.bindings.toList = set.bindings.toList ++ [(h.id, some h)] := by
      rw [MemberSet.insert, hnew]
      exact SortedMap.toList_insert_of_lt _ _ fun e he => hset e he h List.mem_cons_self
    rw [List.foldl_cons, ih _ hrest, hinsert, List.append_assoc]
    · rfl
    · intro e he h' hh'
      rw [hinsert] at he
      rcases List.mem_append.1 he with hold | hlast
      · exact hset e hold h' (List.mem_cons_of_mem _ hh')
      · rw [List.mem_singleton.1 hlast]
        exact hfirst h' hh'

/-- Handles in the order of their keys are members in this order. -/
theorem MemberSet.members_ofHandles (name : String) (hname : ∀ h ∈ new, h.id.entity = name)
    (hordered : new.Pairwise fun h h' => h.id.key < h'.id.key) :
    (MemberSet.ofHandles new).members = new.map Member.ofHandle := by
  have hless : new.Pairwise fun h h' => compare h.id h'.id = .lt := by
    refine hordered.imp_of_mem ?_
    intro h h' hh hh' hlt
    have hcompare : compare h.id h'.id =
        (compare h.id.entity h'.id.entity).then (compare h.id.key h'.id.key) := rfl
    have hself : compare name name = .eq := Std.ReflCmp.compare_self
    rw [hcompare, hname h hh, hname h' hh', hself]
    exact Std.compare_eq_lt.2 hlt
  have hentries := toList_insertAll .empty hless fun e he => by cases he
  have hnil : (MemberSet.empty : MemberSet k).bindings.toList = [] := rfl
  rw [members, ofHandles, hentries, hnil, List.nil_append, List.map_map]
  rfl

namespace Mapping

variable {M : Mapping T} {p : M.Plain k} {ps : List (M.Plain k)} {hook : Hook T k}
  {field field' : Field k}

/-! ## Replacing -/

/-- A field is replaced from plain values.  Those of a reference are one or none. -/
inductive Replaces (M : Mapping T) (scope : Scope) (s : Session T) :
    Field k → List (M.Plain k) → Field k → Session T → Prop where
  | set {hook : Hook T k} (field : Option (MemberSet k)) (ps : Option (List (M.Plain k)))
      (hlooks : Hook.Looks hook) : Replaces M scope s (.set field) (ps.getD [])
        (.set (M.replaceSet scope field ps hook s).1) (M.replaceSet scope field ps hook s).2
  | list {hook : Hook T k} (field : Option (MemberList k)) (ps : Option (List (M.Plain k)))
      (hlooks : Hook.Looks hook) : Replaces M scope s (.list field) (ps.getD [])
        (.list (M.replaceList scope field ps hook s).1) (M.replaceList scope field ps hook s).2
  | one (field : Option (ToOne k)) (p : Option (M.Plain k)) :
      Replaces M scope s (.one field) p.toList
        (.one (M.replaceOne scope field p s).1.2) (M.replaceOne scope field p s).2

/-- The entities that a field had were deleted, and new ones came for the plain values. -/
structure Exchanges (M : Mapping T) (s : Session T) (c : ContextId) (old : List (Handle k))
    (ps : List (M.Plain k)) (new : List (Handle k)) (s' : Session T) : Prop where
  preserves : Preserves s s' c k (keysOf (old ++ new))
  gone : ∀ h ∈ old, s'.seen? c k h.id.key = none
  made : List.Forall₂ (fun p h => ∃ v, s'.Has c h v ∧ M.toPlain v = pure (p, v)) ps new
  slot : ∀ h ∈ new, s.entities.size ≤ h.slot
  later : ∀ h ∈ new, ∀ key e, (s.registry c).get? key = some e → key < h.id.key
  ordered : new.Pairwise fun h h' => h.id.key < h'.id.key

theorem Brings.exchanges (hbrings : M.Brings s₁ c ps new s')
    (hpreserves : Preserves s s₁ c k (keysOf old))
    (hgone : ∀ h ∈ old, s₁.seen? c k h.id.key = none) (hhas : ∀ h ∈ old, ∃ v, s.Has c h v) :
    M.Exchanges s c old ps new s' where
  preserves := by
    refine (hpreserves.mono ?_).trans (hbrings.preserves.mono ?_)
    · intro key hkey
      rw [keysOf, List.map_append]
      exact List.mem_append.2 (Or.inl hkey)
    · intro key hkey
      rw [keysOf, List.map_append]
      exact List.mem_append.2 (Or.inr hkey)
  gone h hh := by
    rcases hhas h hh with ⟨v, hv⟩
    rcases hv.entry with ⟨pending, he⟩
    rw [hbrings.preserves.seen, hgone h hh]
    intro hmem
    rcases mem_keysOf.1 hmem with ⟨h', hh', hkey⟩
    have hlt := hbrings.later h' hh' _ _ (hpreserves.registry _ _ he)
    exact UInt64.lt_irrefl _ (hkey ▸ hlt)
  made := hbrings.made
  slot h hh := Nat.le_trans hpreserves.size (hbrings.slot h hh)
  later h hh key e he := hbrings.later h hh key e (hpreserves.registry key e he)
  ordered := hbrings.ordered

/-- What is asked of a session in which fields are replaced. -/
structure Tends (s : Session T) (c : ContextId) (k : T.Kind) : Prop where
  sound : Sound s
  numbered : Numbered s
  stocked : Stocked s c k
  described : ∃ d, (s.schemaOf c).require (T.entityName k) = .ok d
  pending : s.takesPending c = true

theorem Tends.preserved {touched : List UInt64} (htends : Tends s c k)
    (hpreserves : Preserves s s' c k touched) (hrun : Run Deed.Native s s') (hkeys : s'.KeysLeft) :
    Tends s' c k where
  sound := hrun.sound htends.sound
  numbered := hrun.numbered htends.sound htends.numbered hkeys
  stocked := hpreserves.stocked htends.stocked
  described := by
    rw [hpreserves.schemaOf]
    exact htends.described
  pending := hpreserves.takesPending.trans htends.pending

/-- Deleting what a field refers to. -/
theorem Tends.clear {R : T.Kind → Type} [ToMany R] (htends : Tends s scope.context k)
    (field : Option (R k)) (hrefers : Refers ((field.map ToMany.members).getD []) old)
    (hhas : ∀ h ∈ old, ∃ v, s.Has scope.context h v) :
    Run Deed.Native s (scope.deleteCascade field s).2 ∧
      Preserves s (scope.deleteCascade field s).2 scope.context k (keysOf old) ∧
      ∀ h ∈ old, (scope.deleteCascade field s).2.seen? scope.context k h.id.key = none := by
  have hrun := (reads_advances.deleteCascade advances_markDeleted trivial scope field s
    htends.sound).run
  have hown : ∀ r, field = some r → ∀ m ∈ ToMany.members r, m.Own s scope.context := by
    rintro r rfl
    exact hrefers.own hhas
  rcases clears_deleteCascade htends.sound field hown with ⟨gone, hclears⟩
  exact ⟨hrun, hclears.preserves htends.sound hrefers hhas⟩

/-- Deleting what a reference refers to. -/
theorem Tends.clearOne (htends : Tends s scope.context k) (field : Option (ToOne k))
    (hrefers : Refers (field.map ToOne.member).toList old)
    (hhas : ∀ h ∈ old, ∃ v, s.Has scope.context h v)
    (rebuild : Option (Work T (Option (Handle k)))) :
    ∃ s₁, Run Deed.Native s s₁ ∧ Preserves s s₁ scope.context k (keysOf old) ∧
      (∀ h ∈ old, s₁.seen? scope.context k h.id.key = none) ∧
      scope.replaceOne field rebuild s = match rebuild with
        | some build => (((build s₁).1, ToOne.pointTo none (build s₁).1), (build s₁).2)
        | none => ((none, none), s₁) := by
  cases field with
  | none =>
    cases hrefers
    refine ⟨s, Run.refl s, Preserves.refl s _ k, fun h hh => absurd hh List.not_mem_nil, ?_⟩
    cases rebuild <;> rfl
  | some r =>
    have hown : r.member.Own s scope.context := hrefers.own hhas _ List.mem_cons_self
    -- the member is looked up first, and what was found is marked
    rcases finds_bindIn htends.sound hown with ⟨found, m, s₁, hbind, hs₁, hfinds⟩
    have hresolve : r.resolveIn scope s = ((found, { r with member := m }), s₁) := by
      rw [ToOne.resolveIn, Work.bind_apply, hbind]
      rfl
    have hrun : Run Deed.Native s s₁ := by
      have hadvances := (reads_advances.resolveOne trivial scope r s htends.sound).run
      rwa [hresolve] at hadvances
    have hclears : Clears s scope.context [r.member] found.toList (s₁.markAll found.toList) :=
      hfinds.clears htends.sound hs₁
    rcases hclears.preserves htends.sound hrefers hhas with ⟨hpreserves, hgone⟩
    cases found with
    | none =>
      refine ⟨s₁, hrun, hpreserves, hgone, ?_⟩
      simp only [Scope.replaceOne, Work.bind_apply, hresolve]
      cases rebuild <;> rfl
    | some h =>
      rcases hfinds.entry h List.mem_cons_self with ⟨pending, he⟩
      have hdelete : scope.deleteOrReport h s₁ = (!s₁.isDeleted h, s₁.markDeleted h) :=
        deleteOrReport_of_registered hs₁ he
      refine ⟨s₁.markDeleted h, hrun.trans ((Step.delete s₁ h.slot).run trivial), hpreserves,
        hgone, ?_⟩
      simp only [Scope.replaceOne, Work.bind_apply, hresolve, hdelete]
      cases rebuild <;> rfl

/-! ### What is built -/

variable (hM : M.Lawful)
include hM

theorem Replaces.run (h : M.Replaces scope s field ps field' s') (hs : Sound s) :
    Run Deed.Native s s' := by
  cases h with
  | set field ps hlooks => exact (hM.syncs (.replaceSet field ps (hlooks reads_advances)) hs).run
  | list field ps hlooks => exact (hM.syncs (.replaceList field ps (hlooks reads_advances)) hs).run
  | one field p => exact (hM.syncs (.replaceOne field p) hs).run

variable (hk : M.Keyless k)
include hk

theorem brings_syncSet (hlooks : Hook.Looks hook) (htends : Tends s scope.context k)
    (hkeys : (M.syncSet scope ps hook s).2.KeysLeft) :
    ∃ new s', M.syncSet scope ps hook s = (MemberSet.ofHandles new, s') ∧
      M.Brings s scope.context ps new s' := by
  rcases htends.described with ⟨d, hd⟩
  have hkeys₁ := (Step.report _ _).keysLeft hkeys
  rcases brings_resolveEach hM hk hlooks htends.sound htends.numbered htends.stocked hd ps hkeys₁
    with ⟨new, s₁, hall, hbrings⟩
  refine ⟨new, _, ?_, hbrings.report (.reconciled .set (T.entityName k) ps.length
    (MemberSet.ofHandles new).size)⟩
  simp only [syncSet, MemberSet.build, Work.bind_apply, hall]
  rfl

theorem brings_syncList (hlooks : Hook.Looks hook) (htends : Tends s scope.context k)
    (hkeys : (M.syncList scope ps hook s).2.KeysLeft) :
    ∃ new s', M.syncList scope ps hook s = (MemberList.ofHandles new, s') ∧
      M.Brings s scope.context ps new s' := by
  rcases htends.described with ⟨d, hd⟩
  have hkeys₁ := (Step.report _ _).keysLeft hkeys
  rcases brings_resolveEach hM hk hlooks htends.sound htends.numbered htends.stocked hd ps hkeys₁
    with ⟨new, s₁, hall, hbrings⟩
  refine ⟨new, _, ?_, hbrings.report (.reconciled .list (T.entityName k) ps.length
    (MemberList.ofHandles new).length)⟩
  simp only [syncList, MemberList.build, Work.bind_apply, hall]
  rfl

/-- Replacing a field exchanges the entities that it refers to. -/
theorem Replaces.exchanges (h : M.Replaces scope s field ps field' s')
    (htends : Tends s scope.context k) (hrefers : Refers field.members old)
    (hhas : ∀ h ∈ old, ∃ v, s.Has scope.context h v) (hkeys : s'.KeysLeft) :
    ∃ new, field'.members = new.map Member.ofHandle ∧
      M.Exchanges s scope.context old ps new s' := by
  -- in each case the old entities go first, and then new ones are made for the plain values
  cases h with
  | @set hook field ps hlooks =>
    rcases htends.clear field hrefers hhas with ⟨hrun, hpreserves, hgone⟩
    cases ps with
    | none => exact ⟨[], rfl, (Brings.nil _ _).exchanges hpreserves hgone hhas⟩
    | some ps =>
      have hrun' := (hM.syncSet scope ps (hlooks reads_advances) _ (hrun.sound htends.sound)).run
      have htends₁ := htends.preserved hpreserves hrun (hrun'.keysLeft hkeys)
      rcases brings_syncSet hM hk hlooks htends₁ hkeys with ⟨new, s₂, hsync, hbrings⟩
      have hresult : M.replaceSet scope field (some ps) hook s =
          (some (MemberSet.ofHandles new), s₂) :=
        congrArg (Prod.map some id) hsync
      rw [hsync] at hrun'
      have hs₂ : Sound s₂ := hrun'.sound htends₁.sound
      rw [hresult]
      refine ⟨new, ?_, hbrings.exchanges hpreserves hgone hhas⟩
      refine MemberSet.members_ofHandles (T.entityName k) ?_ hbrings.ordered
      intro h hh
      rcases has_of_made hbrings.made h hh with ⟨v, hv⟩
      exact hv.name hs₂
  | @list hook field ps hlooks =>
    rcases htends.clear field hrefers hhas with ⟨hrun, hpreserves, hgone⟩
    cases ps with
    | none => exact ⟨[], rfl, (Brings.nil _ _).exchanges hpreserves hgone hhas⟩
    | some ps =>
      have hrun' := (hM.syncList scope ps (hlooks reads_advances) _ (hrun.sound htends.sound)).run
      have htends₁ := htends.preserved hpreserves hrun (hrun'.keysLeft hkeys)
      rcases brings_syncList hM hk hlooks htends₁ hkeys with ⟨new, s₂, hsync, hbrings⟩
      have hresult : M.replaceList scope field (some ps) hook s =
          (some (MemberList.ofHandles new), s₂) :=
        congrArg (Prod.map some id) hsync
      rw [hresult]
      exact ⟨new, rfl, hbrings.exchanges hpreserves hgone hhas⟩
  | one field p =>
    rcases htends.clearOne field hrefers hhas (p.map fun p => M.reconcile scope p pure) with
      ⟨s₁, hrun, hpreserves, hgone, hresult⟩
    have hresult : M.replaceOne scope field p s = _ := hresult
    rw [hresult] at hkeys ⊢
    cases p with
    | none => exact ⟨[], rfl, (Brings.nil _ _).exchanges hpreserves hgone hhas⟩
    | some p =>
      have hlooks : Hook.Looks (k := k) pure := Hook.looks_pure id
      have hrun' := (hM.reconcile scope p (hlooks reads_advances) _ (hrun.sound htends.sound)).run
      have htends₁ := htends.preserved hpreserves hrun (hrun'.keysLeft hkeys)
      rcases htends₁.described with ⟨d, hd⟩
      rcases brings_reconcile hk hlooks htends₁.sound htends₁.numbered htends₁.stocked hd p with
        ⟨h, s₂, hreconcile, hbrings⟩
      dsimp only [Option.map_some]
      rw [hreconcile]
      exact ⟨[h], rfl, hbrings.exchanges hpreserves hgone hhas⟩

end Mapping

end Reconcile
