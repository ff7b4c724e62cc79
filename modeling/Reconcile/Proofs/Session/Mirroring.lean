import Reconcile.Proofs.Mapping.Meeting
import Reconcile.Proofs.Session.Importing

/-!
# The rows that a first save makes

A context over a store without rows saves what is live in its registry, and that is all the store
has then (`Mirrors`).  A context that has nothing registered yet and reads such rows, in whatever
session and store, sees the values as they are read back from their payloads, and no keys clash
there.
-/

namespace Reconcile

namespace Session

variable {T : Model} {k : T.Kind} {s s' a : Session T} {scope : Scope} {c d : ContextId}
  {rows : Rows}

/-! ## Saving what is shown -/

theorem Shows.exists_entity (hs : Sound s) {h : Handle k} {v : T.Value k} (hshows : s.Shows c h v) :
    ∃ m, s.entity? h.slot = some m ∧ m.deleted = false ∧ T.encode m.state = T.encode v := by
  rcases hshows.listed with ⟨pending, he⟩
  rcases Mapping.entity_of_seen? he hshows.seen with ⟨m, hm, hlive, rfl⟩
  rcases (hs.lodged he).entity with ⟨m', hm', hkind⟩
  cases hm.symm.trans hm'
  obtain rfl : m.kind = k := hkind
  exact ⟨m, hm, hlive, congrArg T.encode (Entity.value_self m).symm⟩

theorem Shows.savable_iff (hs : Sound s) {h : Handle k} {v : T.Value k} (hshows : s.Shows c h v)
    (hunused : ∀ m, s.entity? h.slot = some m → m.Unused) {pending : Bool} {payload : Json} :
    s.Savable ⟨k, h, pending⟩ payload ↔ T.encode v = .ok payload := by
  rcases hshows.exists_entity hs with ⟨m, hm, _, hencode⟩
  rw [← hencode]
  constructor
  · intro hsavable
    rcases hsavable.entity with ⟨m', hm', _, _, hpayload⟩
    cases hm.symm.trans hm'
    exact hpayload
  · intro hpayload
    exact ⟨m, hm, (hunused m hm).1, (hunused m hm).2, hpayload⟩

/-- The rows are those of the live entities of the context, each written once. -/
structure Mirrors (s : Session T) (c : ContextId) (rows : Rows) : Prop where
  written : ∀ key e, (s.registry c).get? key = some e → s.entryDeleted e = false →
    ∃ payload, s.Savable e payload ∧ rows.row? e.id = some (.new e.id payload)
  only : ∀ id, (rows.row? id).isSome → ∃ e, (s.registry c).get? id.key = some e ∧ e.id = id ∧
    s.entryDeleted e = false
  tables : ∀ entity, (rows.get? entity).isSome → ∃ key e, (s.registry c).get? key = some e ∧
    e.id.entity = entity ∧ s.entryDeleted e = false

/-- A save succeeds if the payload of every live entity can be written. -/
theorem exists_save (h : ∀ key e, (s.registry scope.context).get? key = some e →
      s.entryDeleted e = false → ∃ payload, s.Savable e payload ∧
        s.Passes scope.context e.id.entity payload) :
    ∃ summary s', (scope.save (T := T)).outcome s = (.ok summary, s') := by
  have hwrite : ∀ e ∈ (s.registry scope.context).values, s.entryDeleted e = false →
      ∃ write, s.collectWrite scope.context e = .ok write := by
    intro e he hlive
    rcases SortedMap.mem_values_iff.1 he with ⟨key, hget⟩
    rcases h key e hget hlive with ⟨payload, hsavable, hpasses⟩
    exact ⟨_, collectWrite_of_passes hsavable hpasses⟩
  rcases exists_collect hwrite with ⟨changes, hcollect⟩
  rcases save_cases scope s with ⟨fault, hfault, _⟩ | ⟨changes, _, hsave⟩
  · cases hcollect.symm.trans hfault
  · exact ⟨_, _, hsave⟩

theorem storeIdOf?_save {summary : Summary}
    (hsave : (scope.save (T := T)).outcome s = (.ok summary, s')) (d : ContextId) :
    s'.storeIdOf? d = s.storeIdOf? d := by
  rcases save_ok hsave with ⟨changes, _, _, rfl⟩
  rw [storeIdOf?_report, storeIdOf?_commit]

theorem storeOf?_save {summary : Summary} {store : Store}
    (hsave : (scope.save (T := T)).outcome s = (.ok summary, s'))
    (hstore : s.storeOf? scope.context = some store) :
    s'.storeOf? scope.context = some { store with rows := s'.rowsOf scope.context } := by
  rcases save_ok hsave with ⟨changes, hcollect, rfl, rfl⟩
  rw [storeOf?_report, rowsOf_report, rowsOf_commit_self hstore, rowsOf_of_storeOf? hstore,
    storeOf?_commit_self, hstore]
  rfl

theorem mirrors_save (hs : Sound s) (hrows : s.rowsOf scope.context = .empty) {summary : Summary}
    (hsave : (scope.save (T := T)).outcome s = (.ok summary, s')) :
    s.Mirrors scope.context (s'.rowsOf scope.context) := by
  rcases save_ok hsave with ⟨changes, hcollect, rfl, rfl⟩
  rw [rowsOf_report]
  have hnone : ∀ id, (s.rowsOf scope.context).row? id = none := by
    intro id
    rw [hrows]
    exact Rows.row?_empty id
  constructor
  case written =>
    intro key e he hlive
    rcases storeOf?_of_registry hs he with ⟨store, hstore⟩
    have he' : (s.registry scope.context).get? e.id.key = some e := (hs.lodged he).key ▸ he
    rcases row?_commit_of_live hs hstore hcollect he' rfl hlive with ⟨payload, hsavable, hrow⟩
    rw [hnone] at hrow
    exact ⟨payload, hsavable, hrow⟩
  case only =>
    intro id hsome
    -- an id without an entry keeps its row, and there was none
    by_cases hregistered : ∃ e, (s.registry scope.context).get? id.key = some e ∧ e.id = id
    · rcases hregistered with ⟨e, he, hid⟩
      refine ⟨e, he, hid, ?_⟩
      cases hdeleted : s.entryDeleted e with
      | false => rfl
      | true =>
        rcases storeOf?_of_registry hs he with ⟨store, hstore⟩
        rw [row?_commit_of_deleted hs hstore hcollect he hid hdeleted, hnone, ite_self] at hsome
        cases hsome
    · have hother : ∀ e, (s.registry scope.context).get? id.key = some e → e.id ≠ id :=
        fun e he hid => hregistered ⟨e, he, hid⟩
      rw [row?_commit_of_unregistered hs hcollect hother, hnone] at hsome
      cases hsome
  case tables =>
    intro entity hsome
    cases hstore : s.storeOf? scope.context with
    | none =>
      rw [rowsOf_commit_of_none hstore, hrows] at hsome
      cases hsome
    | some store =>
      rw [rowsOf_commit_self hstore, hrows] at hsome
      rcases Rows.isSome_table_commit hsome with hbefore | ⟨write, hwrite, hentity⟩
      · cases hbefore
      · rcases savable_of_mem_writes hcollect hwrite with ⟨e, he, hid, hlive, _⟩
        exact ⟨_, e, hs.entry_of_mem he, hid ▸ hentity, hlive⟩

/-! ## Contexts that are opened -/

theorem registry_openContext (s : Session T) (i : StoreId) (key : UInt64) :
    ((s.openContext i).2.registry (s.openContext i).1).get? key = none := by
  have hcontext := (context?_openContext s i (s.openContext i).1).trans (if_pos rfl)
  rw [registry, hcontext]
  rfl

theorem storeOf?_openContext (s : Session T) (i : StoreId) :
    (s.openContext i).2.storeOf? (s.openContext i).1 = s.store? i := by
  have hcontext := (context?_openContext s i (s.openContext i).1).trans (if_pos rfl)
  rw [storeOf?, hcontext]
  rfl

/-! ## Reading elsewhere -/

namespace Mirrors

variable (hmirrors : s.Mirrors c rows)

include hmirrors

/-- What is seen of an entity that is registered is what its row has. -/
theorem row? (hs : Sound s) {h : Handle k} {v : T.Value k} (hshows : s.Shows c h v) :
    ∃ payload, T.encode v = .ok payload ∧ rows.row? h.id = some (.new h.id payload) := by
  rcases hshows.listed with ⟨pending, he⟩
  rcases hshows.exists_entity hs with ⟨m, hm, hlive, hencode⟩
  have hnot : s.entryDeleted ⟨k, h, pending⟩ = false := (entryDeleted_of_entity? hm).trans hlive
  rcases hmirrors.written _ _ he hnot with ⟨payload, hsavable, hrow⟩
  refine ⟨payload, ?_, hrow⟩
  rcases hsavable.entity with ⟨m', hm', _, _, hpayload⟩
  cases hm.symm.trans hm'
  exact hencode.symm.trans hpayload

/-- The registry has one entity for a key, so no two rows share one. -/
theorem apart : KeysApart rows := by
  intro id id' hrow hrow' hkey
  rcases hmirrors.only id hrow with ⟨e, he, rfl, _⟩
  rcases hmirrors.only id' hrow' with ⟨e', he', rfl, _⟩
  rw [hkey] at he
  cases he.symm.trans he'
  rfl

/-- The rows can be taken in by other stores if the payloads fit their schema and the keys are below
the next key. -/
theorem wellFormed {schema : Schema} {nextKey : UInt64}
    (hfits : ∀ key e payload, (s.registry c).get? key = some e → s.Savable e payload →
      ∃ d, schema.require e.id.entity = .ok d ∧ d.check payload = .ok ())
    (hbelow : ∀ key e, (s.registry c).get? key = some e → e.id.key < nextKey) :
    Snapshot.WellFormed ⟨Snapshot.currentFormat, schema.version, nextKey, rows⟩ schema := by
  refine ⟨rfl, ?_⟩
  intro entity table htable
  -- a table is there for some live entity, whose type the schema describes
  rcases hmirrors.tables entity (by rw [htable]; rfl) with ⟨key, e, he, rfl, hlive⟩
  rcases hmirrors.written key e he hlive with ⟨payload, hsavable, _⟩
  rcases hfits key e payload he hsavable with ⟨d, hd, _⟩
  refine ⟨d, Snapshot.require_eq_ok_iff.1 hd, ?_⟩
  intro key' row hget
  have hrow : rows.row? ⟨e.id.entity, key'⟩ = some row := by
    rw [Rows.row?, htable]
    exact hget
  rcases hmirrors.only _ (by rw [hrow]; rfl) with ⟨e', he', hid, hlive'⟩
  rcases hmirrors.written _ e' he' hlive' with ⟨payload', hsavable', hrow'⟩
  rcases hfits _ e' payload' he' hsavable' with ⟨d', hd', hcheck⟩
  have hbelow' := hbelow _ e' he'
  rw [hid] at hrow' hd' hbelow'
  cases hrow.symm.trans hrow'
  cases hd.symm.trans hd'
  exact ⟨rfl, hbelow', hcheck⟩

theorem exact {schemaVersion : UInt32} {nextKey : UInt64}
    (hexact : ∀ key e payload, (s.registry c).get? key = some e → s.Savable e payload →
      payload.Exact Snapshot.payloadBudget) :
    Snapshot.Exact ⟨Snapshot.currentFormat, schemaVersion, nextKey, rows⟩ := by
  intro entity table htable
  rintro ⟨key, row⟩ hmem
  have hrow : rows.row? ⟨entity, key⟩ = some row := by
    rw [Rows.row?, SortedMap.mem_toList_iff.1 htable]
    exact SortedMap.mem_toList_iff.1 hmem
  rcases hmirrors.only _ (by rw [hrow]; rfl) with ⟨e, he, hid, hlive⟩
  rcases hmirrors.written _ e he hlive with ⟨payload, hsavable, hrow'⟩
  rw [hid] at hrow'
  cases hrow.symm.trans hrow'
  exact hexact _ e payload he hsavable

variable (hrows : a.rowsOf d = rows) (hfresh : ∀ key, (a.registry d).get? key = none)

include hrows hfresh

theorem clashFree : a.ClashFree d where
  apart := hrows ▸ hmirrors.apart
  registered id e _ he := by cases (hfresh id.key).symm.trans he

/-- A context that has read nothing yet sees the value as it is read back. -/
theorem seen? (hs : Sound s) {h : Handle k} {v : T.Value k} (hshows : s.Shows c h v) :
    ∃ payload, T.encode v = .ok payload ∧
      a.seen? d k h.id.key = T.decode k (some d) payload := by
  rcases hmirrors.row? hs hshows with ⟨payload, hencode, hrow⟩
  refine ⟨payload, hencode, ?_⟩
  have hname : (⟨T.entityName k, h.id.key⟩ : EntityId) = h.id :=
    congrArg (EntityId.mk · h.id.key) (hshows.name hs).symm
  rw [seen?_of_row (hfresh _), hname, hrows, hrow]
  rfl

end Mirrors

end Session

end Reconcile
