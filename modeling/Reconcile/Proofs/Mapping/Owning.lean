import Reconcile.Proofs.Mapping.Replacing
import Reconcile.Proofs.Session.Preserving

/-!
# Entities that fields own

Plain values of a type without natural keys get a new entity each, so the fields that were made from
them share nothing, and whoever replaces a field deletes the entities that it had.  Hooks and fills
may look up whatever they want (`Keyless`).
-/

namespace Reconcile

open Session

variable {T : Model} {k : T.Kind} {s s₁ s' : Session T} {scope : Scope} {c : ContextId}
  {h h' : Handle k} {hs old new : List (Handle k)} {v v' : T.Value k} {touched : List UInt64}

/-! ## Entities that a context has -/

namespace Session

/-- The context has the live entity of the handle, which holds this value and is not in use. -/
structure Has (s : Session T) (c : ContextId) (h : Handle k) (v : T.Value k) : Prop where
  entry : ∃ pending, (s.registry c).get? h.id.key = some ⟨k, h, pending⟩
  entity : ∃ m, s.entity? h.slot = some m ∧ m.deleted = false ∧ m.Unused ∧ m.value k = v

namespace Has

theorem seen (hhas : s.Has c h v) : s.seen? c k h.id.key = some v := by
  rcases hhas.entry with ⟨pending, he⟩
  rcases hhas.entity with ⟨m, hm, hlive, _, rfl⟩
  exact seen?_of_entry he rfl hm hlive

theorem name (hhas : s.Has c h v) (hs : Sound s) : h.id.entity = T.entityName k := by
  rcases hhas.entry with ⟨pending, he⟩
  exact (hs.lodged he).name

/-- Its key tells the entity. -/
theorem ext (hhas : s.Has c h v) (hhas' : s.Has c h' v') (hkey : h.id.key = h'.id.key) :
    h = h' := by
  rcases hhas.entry with ⟨pending, he⟩
  rcases hhas'.entry with ⟨pending', he'⟩
  rw [hkey, he'] at he
  cases he
  rfl

theorem preserved (hhas : s.Has c h v) (hpreserves : Preserves s s' c k touched)
    (hkey : h.id.key ∉ touched) : s'.Has c h v := by
  rcases hhas.entry with ⟨pending, he⟩
  have hentity := hpreserves.entity? _ _ he rfl hkey
  refine ⟨⟨pending, hpreserves.registry _ _ he⟩, ?_⟩
  rcases hhas.entity with ⟨m, hm, hrest⟩
  exact ⟨m, hentity.trans hm, hrest⟩

end Has

/-- The keys of the entities. -/
def keysOf (hs : List (Handle k)) : List UInt64 := hs.map fun h => h.id.key

theorem mem_keysOf {key : UInt64} : key ∈ keysOf hs ↔ ∃ h ∈ hs, h.id.key = key := List.mem_map

end Session

/-! ## Members that refer to them -/

/-- The members have the ids of these entities and are bound to nothing else. -/
def Refers (ms : List (Member k)) (hs : List (Handle k)) : Prop :=
  List.Forall₂ (fun m h => m.id = h.id ∧ ∀ h', m.bound = some h' → h' = h) ms hs

variable {ms : List (Member k)}

theorem refers_ofHandles (hs : List (Handle k)) : Refers (hs.map Member.ofHandle) hs := by
  refine List.forall₂_map_left_iff.2 (List.forall₂_same.2 ?_)
  intro h _
  exact ⟨rfl, fun h' hbound => (Option.some.inj hbound).symm⟩

/-- Members of the same ids that are bound to nothing. -/
theorem Refers.unbound (hrefers : Refers ms hs) :
    Refers (ms.map fun m => Member.unbound m.id) hs :=
  List.forall₂_map_left_iff.2 (hrefers.imp fun _ _ hm => ⟨hm.1, fun _ hbound => by cases hbound⟩)

theorem Refers.ids (hrefers : Refers ms hs) : ms.map Member.id = hs.map Handle.id := by
  have hids : List.Forall₂ (· = ·) (ms.map Member.id) (hs.map Handle.id) :=
    List.forall₂_map_left_iff.2 (List.forall₂_map_right_iff.2 (hrefers.imp fun _ _ hm => hm.1))
  exact List.forall₂_eq_eq_eq ▸ hids

theorem Refers.own (hrefers : Refers ms hs) (hhas : ∀ h ∈ hs, ∃ v, s.Has c h v) :
    ∀ m ∈ ms, m.Own s c := by
  intro m hm h' hbound
  rcases List.mem_iff_getElem.1 hm with ⟨i, hi, rfl⟩
  have hi' : i < hs.length := hrefers.length_eq ▸ hi
  rcases hrefers.get hi hi' with ⟨hid, hbinding⟩
  rcases hhas _ (List.getElem_mem hi') with ⟨v, hv⟩
  rcases hv.entry with ⟨pending, he⟩
  have hid : ms[i].id = hs[i].id := hid
  cases hbinding h' hbound
  exact ⟨hid.symm, pending, hid ▸ he⟩

/-- Clearing the members deletes these entities and leaves the others alone. -/
theorem Session.Clears.preserves {gone : List (Handle k)} (hclears : Clears s c ms gone s₁)
    (hs : Sound s) (hrefers : Refers ms old) (hhas : ∀ h ∈ old, ∃ v, s.Has c h v) :
    Preserves s s₁ c k (keysOf old) ∧ ∀ h ∈ old, s₁.seen? c k h.id.key = none := by
  -- what was deleted are the entities that the members refer to
  have hgone : ∀ g ∈ gone, ∃ h ∈ old, g.id = h.id := by
    intro g hg
    rcases hclears.member g hg with ⟨m, hm, hid⟩
    have hmem : m.id ∈ old.map Handle.id := hrefers.ids ▸ List.mem_map_of_mem hm
    rcases List.mem_map.1 hmem with ⟨h, hh, hsame⟩
    exact ⟨h, hh, hid.trans hsame.symm⟩
  have hdeleted : ∀ h ∈ old, ∃ g ∈ gone, g.id = h.id := by
    intro h hh
    have hmem : h.id ∈ ms.map Member.id := hrefers.ids ▸ List.mem_map_of_mem hh
    rcases List.mem_map.1 hmem with ⟨m, hm, hsame⟩
    rcases hhas h hh with ⟨v, hv⟩
    rcases hclears.live m hm (hsame ▸ hv.name hs) (by rw [hsame, hv.seen]; rfl) with ⟨g, hg, hid⟩
    exact ⟨g, hg, hid.trans hsame⟩
  refine ⟨Preserves.of_confined hclears.confined ?_ ?_ hs, ?_⟩
  · intro key hkey
    refine hclears.others key ?_
    rintro g hg rfl
    rcases hgone g hg with ⟨h, hh, hid⟩
    exact hkey (mem_keysOf.2 ⟨h, hh, hid ▸ rfl⟩)
  · intro key e he hslot
    rcases List.mem_map.1 hslot with ⟨g, hg, hsame⟩
    rcases hgone g hg with ⟨h, hh, hid⟩
    rcases hhas h hh with ⟨v, hv⟩
    rcases hv.entry with ⟨pending, hentry⟩
    rcases hclears.entry g hg with ⟨pending', hentry'⟩
    -- under the id of what was deleted the registry had its entity before
    have hbefore := hclears.confined.leaves.registry c _ _ hentry
    rw [← hid, hentry'] at hbefore
    cases hbefore
    exact mem_keysOf.2 ⟨g, hh, (hs.slots hentry he hsame).2⟩
  · intro h hh
    rcases hdeleted h hh with ⟨g, hg, hid⟩
    rcases hclears.entry g hg with ⟨pending, hentry⟩
    rw [← hid]
    simp [seen?, hentry, entryDeleted, show s₁.isDeleted g = true from hclears.deleted g hg]

/-- A hook that does nothing but look up entities. -/
def Hook.Looks (hook : Hook T k) : Prop :=
  ∀ {R : Session T → Session T → Prop}, Reads (fun _ => True) R → ∀ v, (hook v).Leads R

theorem Hook.looks_pure (f : T.Value k → T.Value k) : Hook.Looks fun v => return f v :=
  fun hR v => hR.pure (f v)

namespace Mapping

variable {M : Mapping T} {p : M.Plain k} {ps : List (M.Plain k)} {hook : Hook T k}

/-! ## Types without keys -/

/-- Entities of the type are not found by their plain values.  Their fill does nothing but look up
entities, and afterwards they read as their plain values. -/
structure Keyless (M : Mapping T) (k : T.Kind) : Prop where
  /-- No other type goes by the name. -/
  name : ∀ l, T.entityName l = T.entityName k → l = k
  naturalKey : ∀ p : M.Plain k, M.naturalKey p = none
  looks : ∀ {R : Session T → Session T → Prop}, Reads (fun _ => True) R →
    ∀ (p : M.Plain k) nested scope this v, (M.fill p nested scope this v).Leads R
  toPlain : ∀ (p : M.Plain k) nested scope this v s,
    M.toPlain (M.fill p nested scope this v s).1 = pure (p, (M.fill p nested scope this v s).1)

/-- A new entity is filling, and nothing else was done to the type. -/
structure Shapes (s : Session T) (c : ContextId) (h : Handle k) (s' : Session T) : Prop where
  sound : Sound s'
  stocked : Stocked s' c k
  preserves : Preserves s s' c k [h.id.key]
  entry : (s'.registry c).get? h.id.key = some ⟨k, h, true⟩
  entity : ∃ m, s'.entity? h.slot = some m ∧ m.deleted = false ∧ m.guard = .free ∧ m.filling = true

namespace Shapes

theorem checkedOut (hshapes : Shapes s c h s₁) : CheckedOut s₁ h := by
  rcases hshapes.entity with ⟨m, hm, _, _, hfilling⟩
  rcases (hshapes.sound.lodged hshapes.entry).entity with ⟨m', hm', hkind⟩
  cases hm.symm.trans hm'
  exact ⟨m, hm, hkind, hfilling⟩

theorem looks (hshapes : Shapes s c h s₁) (hlooks : PreservesStocked c k s₁ s') :
    Shapes s c h s' := by
  rcases hlooks hshapes.sound hshapes.stocked with ⟨hsound, hpreserves⟩
  have hentity := hpreserves.entity? _ _ hshapes.entry rfl List.not_mem_nil
  refine ⟨hsound, hpreserves.stocked hshapes.stocked, ?_, hpreserves.registry _ _ hshapes.entry, ?_⟩
  · exact hshapes.preserves.trans (hpreserves.mono fun _ hkey => absurd hkey List.not_mem_nil)
  · rcases hshapes.entity with ⟨m, hm, hfree⟩
    exact ⟨m, hentity.trans hm, hfree⟩

/-- A change of the entity that fills. -/
theorem modify (hshapes : Shapes s c h s₁) (f : Entity T → Entity T) :
    Preserves s (s₁.modifyEntity h.slot f) c k [h.id.key] :=
  hshapes.preserves.trans (Preserves.modifyEntity hshapes.sound hshapes.entry f)

theorem showPreview (hshapes : Shapes s c h s₁) (v : T.Value k) (key : Option NaturalKey) :
    Shapes s c h (scope.showPreview h v key s₁).2 := by
  have hsound := (proceeds_showPreview scope hshapes.checkedOut v key).run.sound hshapes.sound
  cases hpreview : scope.preview v key with
  | error fault =>
    rw [showPreview_of_error hpreview] at hsound ⊢
    exact hshapes.looks fun _ _ => ⟨hsound, Preserves.report s₁ c k _⟩
  | ok preview =>
    rcases preview with ⟨shown, payload⟩
    rw [showPreview_of_ok hpreview] at hsound ⊢
    have hstocked : Stocked (s₁.standIn h shown payload) c k := hshapes.stocked
    refine ⟨hsound, hstocked, hshapes.modify _, hshapes.entry, ?_⟩
    rcases hshapes.entity with ⟨m, hm, hlive, hguard, hfilling⟩
    exact ⟨_, entity?_modifyEntity_self hm _, hlive, hguard, hfilling⟩

end Shapes

/-- New entities came into the context that read as these plain values, and nothing else was done to
the type.  Their keys are later than those of all entities that were there. -/
structure Brings (M : Mapping T) (s : Session T) (c : ContextId) (ps : List (M.Plain k))
    (new : List (Handle k)) (s' : Session T) : Prop where
  preserves : Preserves s s' c k (keysOf new)
  made : List.Forall₂ (fun p h => ∃ v, s'.Has c h v ∧ M.toPlain v = pure (p, v)) ps new
  slot : ∀ h ∈ new, s.entities.size ≤ h.slot
  later : ∀ h ∈ new, ∀ key e, (s.registry c).get? key = some e → key < h.id.key
  ordered : new.Pairwise fun h h' => h.id.key < h'.id.key

theorem brings_reconcile (hk : M.Keyless k) (hlooks : Hook.Looks hook) (hs : Sound s)
    (hnumbered : Numbered s) (hstocked : Stocked s scope.context k) {d : Description}
    (hd : (s.schemaOf scope.context).require (T.entityName k) = .ok d) (p : M.Plain k) :
    ∃ h s', M.reconcile scope p hook s = (some h, s') ∧ M.Brings s scope.context [p] [h] s' := by
  rcases findOrInsertUnique_of_keyless (hk.naturalKey p) hd with ⟨store, hstore, hfound⟩
  let h : Handle k := ⟨s.entities.size, ⟨T.entityName k, store.nextKey⟩, scope.context⟩
  let s₁ := s.insertUnder scope.context k store.nextKey
  let m : Entity T := { (Entity.new k (T.blank k) true).withState (T.blank k) with filling := true }
  have hm : s₁.entity? h.slot = some (.new k (T.blank k) true) := entity?_insertUnder_new
  have hs₁ : Sound s₁ := hs.insertUnder hstore k _
  have hentry : (s₁.registry scope.context).get? h.id.key = some ⟨k, h, true⟩ :=
    get?_insertUnder_new hstore
  have hpreserves₁ : Preserves s s₁ scope.context k [h.id.key] :=
    Preserves.insertUnder hs hnumbered hstore k
  have hout : s₁.checkOut? h = some ((Entity.new k (T.blank k) true).value k,
      s₁.modifyEntity h.slot fun _ => m) := checkOut?_of_free hm rfl
  have hcheckedOut : Shapes s scope.context h (s₁.modifyEntity h.slot fun _ => m) := by
    refine ⟨hs₁.replaceEntity hm (Entity.edited_checkOut _ _), hpreserves₁.stocked hstocked,
      hpreserves₁.trans (Preserves.modifyEntity hs₁ hentry _), hentry, ?_⟩
    exact ⟨m, entity?_modifyEntity_self hm _, rfl, rfl, rfl⟩
  -- hook, preview and fill leave nothing but the entity that fills
  have hreads := reads_preservesStocked (T := T) scope.context k
  have hhooked := hcheckedOut.looks (hlooks hreads ((Entity.new k (T.blank k) true).value k) _)
  rcases hhook : hook ((Entity.new k (T.blank k) true).value k)
    (s₁.modifyEntity h.slot fun _ => m) with ⟨v₁, s₂⟩
  rw [hhook] at hhooked
  have hshown : Shapes s scope.context h (scope.showPreview h v₁ (M.naturalKey p) s₂).2 :=
    hhooked.showPreview v₁ (M.naturalKey p)
  rcases hshow : scope.showPreview h v₁ (M.naturalKey p) s₂ with ⟨_, s₃⟩
  rw [hshow] at hshown
  have hweight : M.weight p < M.weight p + 1 := Nat.lt_succ_self _
  have hfilled := hshown.looks (hk.looks hreads p (M.nested scope hweight) scope h.id v₁ _)
  have hplain := hk.toPlain p (M.nested scope hweight) scope h.id v₁ s₃
  rcases hfill : M.fill p (M.nested scope hweight) scope h.id v₁ s₃ with ⟨v₂, s₄⟩
  rw [hfill] at hfilled hplain
  refine ⟨h, s₄.checkIn h v₂, ?_, hfilled.modify _, ?_, ?_, ?_, List.pairwise_singleton _ _⟩
  · exact (reconcileBelow_of_checkOut hfound hout).trans
      (congrArg (Prod.mk (some h)) (refill_snd hhook hshow hfill))
  · rcases hfilled.entity with ⟨m', hm', hlive, hguard, _⟩
    refine .cons ⟨v₂, ⟨⟨true, hfilled.entry⟩, m'.checkIn v₂, ?_, hlive, ⟨rfl, hguard⟩, ?_⟩,
      hplain⟩ .nil
    · exact entity?_modifyEntity_self hm' _
    · exact Entity.value_self (m'.checkIn v₂)
  · intro h' hh'
    cases List.mem_singleton.1 hh'
    exact Nat.le_refl _
  · intro h' hh' key e he
    cases List.mem_singleton.1 hh'
    have hkey := hnumbered.lt_nextKey hstore he
    rwa [(hs.lodged he).key] at hkey

/-- What stands on the right is had. -/
theorem has_of_made (hmade : List.Forall₂ (fun p h => ∃ v, s.Has c h v ∧ M.toPlain v = pure (p, v))
    ps hs) : ∀ h ∈ hs, ∃ v, s.Has c h v := by
  have hflipped : List.Forall₂ (fun h _ => (∃ v, s.Has c h v) ∧ True) hs ps :=
    hmade.flip.imp fun _ _ ⟨v, hhas, _⟩ => ⟨⟨v, hhas⟩, trivial⟩
  exact ((List.forall₂_and_left _ _).1 hflipped).1

theorem Brings.nil (s : Session T) (c : ContextId) :
    M.Brings s c ([] : List (M.Plain k)) [] s where
  preserves := Preserves.refl s c k
  made := .nil
  slot _ hh := absurd hh List.not_mem_nil
  later _ hh := absurd hh List.not_mem_nil
  ordered := .nil

theorem Brings.report (hbrings : M.Brings s c ps new s') (event : Event) :
    M.Brings s c ps new (s'.report event) where
  preserves := hbrings.preserves.trans (Preserves.report s' c k event)
  made := hbrings.made.imp fun _ _ ⟨v, hhas, hplain⟩ => ⟨v, ⟨hhas.entry, hhas.entity⟩, hplain⟩
  slot := hbrings.slot
  later := hbrings.later
  ordered := hbrings.ordered

theorem Brings.cons (hfirst : M.Brings s c [p] [h] s₁) (hrest : M.Brings s₁ c ps new s') :
    M.Brings s c (p :: ps) (h :: new) s' := by
  rcases List.forall₂_cons.1 hfirst.made with ⟨⟨v, hhas, hplain⟩, _⟩
  rcases hhas.entry with ⟨pending, hentry⟩
  have hlater : ∀ h' ∈ new, h.id.key < h'.id.key := fun h' hh' => hrest.later h' hh' _ _ hentry
  -- what comes later does not touch what came first
  have hkept : s'.Has c h v := by
    refine hhas.preserved hrest.preserves ?_
    intro hmem
    rcases mem_keysOf.1 hmem with ⟨h', hh', hkey⟩
    exact UInt64.lt_irrefl _ (hkey ▸ hlater h' hh')
  refine ⟨?_, .cons ⟨v, hkept, hplain⟩ hrest.made, ?_, ?_, List.pairwise_cons.2 ⟨hlater,
    hrest.ordered⟩⟩
  · refine (hfirst.preserves.mono ?_).trans (hrest.preserves.mono ?_)
    · exact fun key hkey => List.mem_cons.2 (Or.inl (List.mem_singleton.1 hkey))
    · exact fun key hkey => List.mem_cons_of_mem _ hkey
  · intro h' hh'
    rcases List.mem_cons.1 hh' with rfl | htail
    · exact hfirst.slot _ List.mem_cons_self
    · exact Nat.le_trans hfirst.preserves.size (hrest.slot h' htail)
  · intro h' hh' key e he
    rcases List.mem_cons.1 hh' with rfl | htail
    · exact hfirst.later _ List.mem_cons_self key e he
    · exact hrest.later h' htail key e (hfirst.preserves.registry key e he)

theorem brings_resolveEach (hM : M.Lawful) (hk : M.Keyless k) (hlooks : Hook.Looks hook)
    (hs : Sound s) (hnumbered : Numbered s) (hstocked : Stocked s scope.context k) {d : Description}
    (hd : (s.schemaOf scope.context).require (T.entityName k) = .ok d) (ps : List (M.Plain k))
    (hkeys : (resolveEach ps (fun p _ => M.reconcile scope p hook) s).2.KeysLeft) :
    ∃ new s', resolveEach ps (fun p _ => M.reconcile scope p hook) s = (new, s') ∧
      M.Brings s scope.context ps new s' := by
  induction ps generalizing s with
  | nil => exact ⟨[], s, rfl, Brings.nil s _⟩
  | cons p ps ih =>
    rcases brings_reconcile hk hlooks hs hnumbered hstocked hd p with ⟨h, s₁, hresult, hfirst⟩
    have hrun := (hM.reconcile scope p (hlooks reads_advances) s hs).run
    rw [hresult] at hrun
    have hs₁ : Sound s₁ := hrun.sound hs
    rw [reconcileEach_cons hresult] at hkeys ⊢
    have hrun' := (reads_advances.resolveEach
      (fun (q : M.Plain k) (_ : q ∈ ps) => hM.reconcile scope q (hlooks reads_advances)) s₁ hs₁).run
    have hnumbered₁ := hrun.numbered hs hnumbered (hrun'.keysLeft hkeys)
    have hd₁ : (s₁.schemaOf scope.context).require (T.entityName k) = .ok d := by
      rw [hfirst.preserves.schemaOf]
      exact hd
    rcases ih hs₁ hnumbered₁ (hfirst.preserves.stocked hstocked) hd₁ hkeys with
      ⟨new, s', hall, hrest⟩
    rw [hall]
    exact ⟨_, _, rfl, hfirst.cons hrest⟩

end Mapping

end Reconcile
