import Reconcile.Proofs.Session.Confinement

/-!
# Leaving the entities of a type alone

Work that leaves the entities of a type alone (`Preserves`) may do anything else, to other types and
in other contexts.  It may also touch entities of the type whose keys are listed, so that work that
touches a few of them is put together from its parts.

Looking up entities leaves a type alone that has all of its rows in the registry (`Stocked`), since
there is nothing to read of it.
-/

namespace Reconcile

namespace Session

variable {T : Model} {s s' s'' : Session T} {c : ContextId} {k : T.Kind} {key : UInt64}
  {touched touched' : List UInt64}

/-- Every row of the type is that of an entity that the context has registered and not inserted. -/
def Stocked (s : Session T) (c : ContextId) (k : T.Kind) : Prop :=
  ∀ key row, (s.rowsOf c).row? ⟨T.entityName k, key⟩ = some row →
    ∃ e, (s.registry c).get? key = some e ∧ e.kind = k ∧ e.pending = false

theorem Stocked.row?_of_new (hstocked : Stocked s c k) (hnone : (s.registry c).get? key = none) :
    (s.rowsOf c).row? ⟨T.entityName k, key⟩ = none := by
  cases hrow : (s.rowsOf c).row? ⟨T.entityName k, key⟩ with
  | none => rfl
  | some row =>
    rcases hstocked key row hrow with ⟨e, he, _⟩
    cases hnone.symm.trans he

/-- What is seen is in memory. -/
theorem Stocked.entry_of_seen? (hstocked : Stocked s c k) {v : T.Value k}
    (hv : s.seen? c k key = some v) : ∃ e m, (s.registry c).get? key = some e ∧ e.kind = k ∧
      s.entity? e.slot = some m ∧ m.deleted = false ∧ m.value k = v := by
  rcases seen?_eq_some hv with hentry | ⟨hnone, row, hrow, _⟩
  · exact hentry
  · cases (hstocked.row?_of_new hnone).symm.trans hrow

theorem Stocked.seen?_of_new (hstocked : Stocked s c k) (hnone : (s.registry c).get? key = none) :
    s.seen? c k key = none := by
  rw [seen?_of_row hnone, hstocked.row?_of_new hnone]
  rfl

/-- Under keys that are not listed, what the context has of the type stays as it is. -/
structure Preserves (s s' : Session T) (c : ContextId) (k : T.Kind) (touched : List UInt64) :
    Prop where
  seen : ∀ key, key ∉ touched → s'.seen? c k key = s.seen? c k key
  registry : ∀ key e, (s.registry c).get? key = some e → (s'.registry c).get? key = some e
  entity? : ∀ key e, (s.registry c).get? key = some e → e.kind = k → key ∉ touched →
    s'.entity? e.slot = s.entity? e.slot
  size : s.entities.size ≤ s'.entities.size
  rows : ∀ key, (s'.rowsOf c).row? ⟨T.entityName k, key⟩ = (s.rowsOf c).row? ⟨T.entityName k, key⟩
  schemaOf : s'.schemaOf c = s.schemaOf c
  takesPending : s'.takesPending c = s.takesPending c

namespace Preserves

theorem refl (s : Session T) (c : ContextId) (k : T.Kind) : Preserves s s c k touched :=
  ⟨fun _ _ => rfl, fun _ _ he => he, fun _ _ _ _ _ => rfl, Nat.le_refl _, fun _ => rfl, rfl, rfl⟩

theorem trans (h : Preserves s s' c k touched) (h' : Preserves s' s'' c k touched) :
    Preserves s s'' c k touched where
  seen key hkey := (h'.seen key hkey).trans (h.seen key hkey)
  registry key e he := h'.registry key e (h.registry key e he)
  entity? key e he hkind hkey :=
    (h'.entity? key e (h.registry key e he) hkind hkey).trans (h.entity? key e he hkind hkey)
  size := Nat.le_trans h.size h'.size
  rows key := (h'.rows key).trans (h.rows key)
  schemaOf := h'.schemaOf.trans h.schemaOf
  takesPending := h'.takesPending.trans h.takesPending

theorem mono (h : Preserves s s' c k touched) (hsub : ∀ key ∈ touched, key ∈ touched') :
    Preserves s s' c k touched' where
  seen key hkey := h.seen key fun hmem => hkey (hsub key hmem)
  registry := h.registry
  entity? key e he hkind hkey := h.entity? key e he hkind fun hmem => hkey (hsub key hmem)
  size := h.size
  rows := h.rows
  schemaOf := h.schemaOf
  takesPending := h.takesPending

theorem report (s : Session T) (c : ContextId) (k : T.Kind) (event : Event) :
    Preserves s (s.report event) c k touched :=
  ⟨fun _ _ => rfl, fun _ _ he => he, fun _ _ _ _ _ => rfl, Nat.le_refl _, fun _ => rfl, rfl, rfl⟩

/-- A change of one entity leaves the others alone. -/
theorem modifyEntity (hs : Sound s) {e : Entry T} (he : (s.registry c).get? key = some e)
    (f : Entity T → Entity T) : Preserves s (s.modifyEntity e.slot f) c k [key] where
  seen key' hkey :=
    seen?_modifyEntity_of_ne hs he (fun h => hkey (List.mem_singleton.2 h)) f s.journal
  registry _ _ he' := he'
  entity? key' e' he' _ hkey := by
    refine entity?_modifyEntity_of_ne s ?_ f
    intro hslot
    exact hkey (List.mem_singleton.2 (hs.slots he' he hslot).2)
  size := Nat.le_of_eq (size_modifyEntity s e.slot f).symm
  rows _ := rfl
  schemaOf := rfl
  takesPending := rfl

theorem insertUnder (hs : Sound s) (hnumbered : Numbered s) {store : Store}
    (hstore : s.storeOf? c = some store) (l : T.Kind) :
    Preserves s (s.insertUnder c l store.nextKey) c k [store.nextKey] where
  seen key' hkey := seen?_insertUnder_of_ne hs hstore fun h => hkey (List.mem_singleton.2 h)
  registry key' e he := by
    refine (get?_insertUnder_of_ne hstore ?_).trans he
    rintro _ rfl
    cases (hnumbered.unused hs hstore).1.symm.trans he
  entity? key' e he _ _ := by
    rcases (hs.lodged he).entity with ⟨m, hm, _⟩
    exact entity?_insertUnder_of_lt (lt_size_of_entity? hm)
  size := (Leaves.insertUnder (k := l) hstore (hnumbered.unused hs hstore).1).size
  rows key' := by rw [rowsOf_insertUnder_self]
  schemaOf := schemaOf_insertUnder_self
  takesPending := congrArg Settings.includePending settingsOf_insertUnder_self

/-- What is confined to entities of the type under the listed keys. -/
theorem of_confined {slots : List Nat} (h : Confined s s' c k slots)
    (hseen : ∀ key, key ∉ touched → s'.seen? c k key = s.seen? c k key)
    (hslots : ∀ key e, (s.registry c).get? key = some e → e.slot ∈ slots → key ∈ touched)
    (hs : Sound s) : Preserves s s' c k touched where
  seen := hseen
  registry := h.leaves.registry c
  entity? key e he _ hkey := by
    rcases (hs.lodged he).entity with ⟨m, hm, _⟩
    exact h.leaves.entity? _ (lt_size_of_entity? hm) fun hslot => hkey (hslots key e he hslot)
  size := h.leaves.size
  rows key := by rw [h.leaves.rowsOf]
  schemaOf := h.schemaOf
  takesPending := congrArg Settings.includePending h.settingsOf

theorem stocked (h : Preserves s s' c k touched) (hstocked : Stocked s c k) : Stocked s' c k := by
  intro key row hrow
  rw [h.rows] at hrow
  rcases hstocked key row hrow with ⟨e, he, hkind, hpending⟩
  exact ⟨e, h.registry key e he, hkind, hpending⟩

/-- There is nothing to read of the type. -/
theorem of_loads {d : ContextId} {l : T.Kind} (h : Loads s s' d l (s.rowsNamed d l))
    (hs : Sound s) (hstocked : Stocked s c k) : Preserves s s' c k [] where
  seen key _ := by
    cases he : (s.registry c).get? key with
    | some e => exact seen?_congr he (h.registry c key e he) (h.toGrows.entity?_of_entry hs he)
    | none =>
      rw [hstocked.seen?_of_new he]
      cases he' : (s'.registry c).get? key with
      | none =>
        rw [seen?_of_row he', h.rowsOf, hstocked.row?_of_new he]
        rfl
      | some e =>
        rcases h.entry c key e he' with hold | ⟨rfl, _, _, row, hrow, hread⟩
        · cases he.symm.trans hold
        · -- an entity was read that has another type
          have hkind : e.kind ≠ k := by
            rw [hread.kind_eq]
            rintro rfl
            cases (hstocked.row?_of_new he).symm.trans (mem_rowsNamed_iff.1 hrow)
          simp [seen?, he', hkind]
  registry := h.registry c
  entity? key e he _ _ := h.toGrows.entity?_of_entry hs he
  size := h.size
  rows key := by rw [h.rowsOf]
  schemaOf := h.schemaOf c
  takesPending := congrArg Settings.includePending (h.settingsOf c)

end Preserves

/-- A type that has all of its rows in the registry is left alone. -/
def PreservesStocked (c : ContextId) (k : T.Kind) (s s' : Session T) : Prop :=
  Sound s → Stocked s c k → Sound s' ∧ Preserves s s' c k []

/-- Looking up entities of any type leaves a type alone that has its rows in the registry. -/
theorem reads_preservesStocked (c : ContextId) (k : T.Kind) :
    Reads (fun _ => True) (PreservesStocked c k) where
  refl s hs _ := ⟨hs, Preserves.refl s c k⟩
  trans h h' hs hstocked := by
    rcases h hs hstocked with ⟨hs', hpreserves⟩
    rcases h' hs' (hpreserves.stocked hstocked) with ⟨hs'', hpreserves'⟩
    exact ⟨hs'', hpreserves.trans hpreserves'⟩
  report s event hs _ := ⟨hs.report event, Preserves.report s c k event⟩
  locate l _ scope id s hs hstocked := by
    have hlocates := locates hs scope l id
    exact ⟨hlocates.run.sound hs, Preserves.of_loads hlocates.loads hs hstocked⟩

end Session

end Reconcile
