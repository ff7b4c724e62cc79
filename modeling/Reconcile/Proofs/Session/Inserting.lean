import Reconcile.Proofs.Session.Fetching
import Reconcile.Proofs.Session.Numbering

/-!
# New keys

As long as the ids in use are numbered, the next key of a store is new to its rows and to the
registries, so an insertion replaces nothing.  Reading rows keeps ids numbered, since it brings none
into use.
-/

namespace Reconcile

namespace Session

variable {T : Model} {s s' : Session T} {c : ContextId} {k : T.Kind} {key : UInt64}
  {store : Store}

theorem Numbered.lt_nextKey (h : Numbered s) (hstore : s.storeOf? c = some store)
    {e : Entry T} (he : (s.registry c).get? key = some e) : e.id.key < store.nextKey := by
  rcases isOpen_of_storeOf? hstore with ⟨ctx, hctx, hi⟩
  exact h ctx.store store e.id hi (Or.inr ⟨c, key, e, by rw [storeIdOf?, hctx]; rfl, he, rfl⟩)

/-- The next key of the store is the key of no entry and of no row. -/
theorem Numbered.unused (h : Numbered s) (hs : Sound s) (hstore : s.storeOf? c = some store) :
    (s.registry c).get? store.nextKey = none ∧
      ∀ entity, (s.rowsOf c).row? ⟨entity, store.nextKey⟩ = none := by
  rcases isOpen_of_storeOf? hstore with ⟨ctx, hctx, hi⟩
  constructor
  · cases he : (s.registry c).get? store.nextKey with
    | none => rfl
    | some e =>
      have hlt := h.lt_nextKey hstore he
      rw [(hs.lodged he).key] at hlt
      exact absurd hlt (UInt64.lt_irrefl _)
  · intro entity
    cases hrow : (s.rowsOf c).row? ⟨entity, store.nextKey⟩ with
    | none => rfl
    | some row =>
      rw [rowsOf_of_storeOf? hstore] at hrow
      have hlt := h ctx.store store ⟨entity, store.nextKey⟩ hi
        (Or.inl ⟨store, hi, by rw [hrow]; rfl⟩)
      exact absurd hlt (UInt64.lt_irrefl _)

/-- Reading rows brings no id into use. -/
theorem Loads.inUse (h : Loads s s' c k (s.rowsNamed c k)) (hs : Sound s) {i : StoreId}
    {id : EntityId} (huse : s'.InUse i id) : s.InUse i id := by
  refine huse.of_frame ?_ ?_
  · intro store' hstore' hrow
    rw [h.store?] at hstore'
    exact Or.inl ⟨store', hstore', hrow⟩
  · intro d key e hi he hid
    rw [h.storeIdOf?] at hi
    rcases h.entry d key e he with hold | ⟨rfl, _, _, row, hrow, hread⟩
    · exact Or.inr ⟨d, key, e, hi, hold, hid⟩
    · have hget := mem_rowsNamed_iff.1 hrow
      have hrowId : row.id = ⟨T.entityName k, key⟩ := hs.filed_rowsOf d _ row hget
      rcases hread.entry with ⟨n, rfl⟩
      rcases storeOf?_of_row? hget with ⟨store, hstore, hget'⟩
      rw [storeOf?_eq, hi] at hstore
      have hid' : row.id = id := hid
      exact Or.inl ⟨store, hstore, by rw [← hid', hrowId, hget']; rfl⟩

theorem Loads.numbered (h : Loads s s' c k (s.rowsNamed c k)) (hs : Sound s)
    (hnumbered : Numbered s) : Numbered s' := by
  intro i store id hstore huse
  rw [h.store?] at hstore
  exact hnumbered i store id hstore (h.inUse hs huse)

end Session

end Reconcile
