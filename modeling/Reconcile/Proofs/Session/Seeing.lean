import Reconcile.Proofs.Session.Inserting
import Reconcile.Proofs.Session.Operations

/-!
# What a context sees

Under a key a context sees, of each type, the value of the entity that it has in its registry, if
that is live and of the type, or what the row reads as if it has not read the row yet (`seen?`).
Reading the rows of a type changes nothing about what is seen of it.
-/

namespace Reconcile

namespace Session

variable {T : Model} {s s' : Session T} {c : ContextId} {k : T.Kind} {key : UInt64}

/-- The value that the context sees of this type under a key. -/
def seen? (s : Session T) (c : ContextId) (k : T.Kind) (key : UInt64) : Option (T.Value k) :=
  match (s.registry c).get? key with
  | some e =>
    if e.kind = k ∧ s.entryDeleted e = false then (s.entity? e.slot).map fun m => m.value k
    else none
  | none => ((s.rowsOf c).row? ⟨T.entityName k, key⟩).bind fun row =>
      T.decode k (some c) row.payload

theorem seen?_of_entry {e : Entry T} {m : Entity T} (he : (s.registry c).get? key = some e)
    (hkind : e.kind = k) (hm : s.entity? e.slot = some m) (hlive : m.deleted = false) :
    s.seen? c k key = some (m.value k) := by
  unfold seen?
  rw [he]
  dsimp only
  rw [if_pos ⟨hkind, (entryDeleted_of_entity? hm).trans hlive⟩, hm]
  rfl

theorem seen?_of_row (hnone : (s.registry c).get? key = none) :
    s.seen? c k key = ((s.rowsOf c).row? ⟨T.entityName k, key⟩).bind fun row =>
      T.decode k (some c) row.payload := by
  unfold seen?
  rw [hnone]

/-- What is seen is an entity in memory or a row that was not read yet. -/
theorem seen?_eq_some {v : T.Value k} (h : s.seen? c k key = some v) :
    (∃ e m, (s.registry c).get? key = some e ∧ e.kind = k ∧ s.entity? e.slot = some m ∧
      m.deleted = false ∧ m.value k = v) ∨
    ((s.registry c).get? key = none ∧
      ∃ row, (s.rowsOf c).row? ⟨T.entityName k, key⟩ = some row ∧
        T.decode k (some c) row.payload = some v) := by
  unfold seen? at h
  cases he : (s.registry c).get? key with
  | some e =>
    rw [he] at h
    dsimp only at h
    split at h
    · next hlive =>
      rcases Option.map_eq_some_iff.1 h with ⟨m, hm, hv⟩
      exact Or.inl ⟨e, m, rfl, hlive.1, hm, (entryDeleted_of_entity? hm).symm.trans hlive.2, hv⟩
    · cases h
  | none =>
    rw [he] at h
    rcases Option.bind_eq_some_iff.1 h with ⟨row, hrow, hdecode⟩
    exact Or.inr ⟨rfl, row, hrow, hdecode⟩

/-- What is seen of an entry depends on its entity alone. -/
theorem seen?_congr {e : Entry T} (he : (s.registry c).get? key = some e)
    (he' : (s'.registry c).get? key = some e) (hentity : s'.entity? e.slot = s.entity? e.slot) :
    s'.seen? c k key = s.seen? c k key := by
  have hdeleted : s'.entryDeleted e = s.entryDeleted e := by
    have hslot : s'.entity? e.handle.slot = s.entity? e.handle.slot := hentity
    rw [entryDeleted, isDeleted, hslot, entryDeleted, isDeleted]
  unfold seen?
  rw [he, he']
  dsimp only
  rw [hdeleted, hentity]

theorem value_new (k : T.Kind) (v : T.Value k) (temporary : Bool) :
    (Entity.new k v temporary).value k = v := by
  exact Entity.value_self (Entity.new k v temporary)

theorem Grows.entity?_of_entry (hgrows : Grows s s') (hs : Sound s) {e : Entry T}
    (he : (s.registry c).get? key = some e) : s'.entity? e.slot = s.entity? e.slot := by
  rcases (hs.lodged he).entity with ⟨m, hm, _⟩
  exact hgrows.entity? _ (lt_size_of_entity? hm)

theorem Loads.seen?_eq (h : Loads s s' c k (s.rowsNamed c k)) (hs : Sound s) :
    s'.seen? c k key = s.seen? c k key := by
  cases he : (s.registry c).get? key with
  | some e => exact seen?_congr he (h.registry _ _ _ he) (h.toGrows.entity?_of_entry hs he)
  | none =>
    rw [seen?_of_row he]
    cases he' : (s'.registry c).get? key with
    | none => rw [seen?_of_row he', h.toGrows.rowsOf]
    | some e =>
      rcases h.entry _ _ _ he' with hold | ⟨_, _, _, row, hrow, hread⟩
      · rw [he] at hold
        cases hold
      · rcases hread with ⟨⟨n, rfl⟩, v, hdecode, hentity⟩
        rw [mem_rowsNamed_iff.1 hrow, Option.bind_some, hdecode,
          seen?_of_entry he' rfl hentity rfl, value_new]

/-! ## What is seen of other entities -/

theorem seen?_insertUnder_of_ne (hs : Sound s) {store : Store} (hstore : s.storeOf? c = some store)
    {l : T.Kind} {key key' : UInt64} (hkey : key' ≠ key) :
    (s.insertUnder c l key).seen? c k key' = s.seen? c k key' := by
  have hregistry : ((s.insertUnder c l key).registry c).get? key' = (s.registry c).get? key' :=
    get?_insertUnder_of_ne hstore fun _ => hkey
  cases he : (s.registry c).get? key' with
  | some e =>
    rcases (hs.lodged he).entity with ⟨m, hm, _⟩
    exact seen?_congr he (hregistry.trans he) (entity?_insertUnder_of_lt (lt_size_of_entity? hm))
  | none => rw [seen?_of_row he, seen?_of_row (hregistry.trans he), rowsOf_insertUnder_self]

/-- No two entries share an entity, so what is done to one is not seen of another. -/
theorem seen?_modifyEntity_of_ne (hs : Sound s) {key key' : UInt64} {e : Entry T}
    (he : (s.registry c).get? key = some e) (hkey : key' ≠ key) (f : Entity T → Entity T)
    (journal : Array Event) :
    seen? { s.modifyEntity e.slot f with journal } c k key' = s.seen? c k key' := by
  cases he' : (s.registry c).get? key' with
  | some e' =>
    refine seen?_congr he' he' (entity?_modifyEntity_of_ne s ?_ f)
    intro hslot
    exact hkey (hs.slots he' he hslot).2
  | none =>
    rw [seen?_of_row he']
    exact seen?_of_row he'

end Session

end Reconcile
