import Reconcile.Proofs.Session.Saving
import Reconcile.Proofs.Session.Step

/-!
# What becomes of entities and stores

Most invariants of sessions are about one entity or about one store.  To these a step can do few
things, however many steps there are, and what it can do is told here once for all: what becomes of
an entity (`EntityFate`) and of a store (`StoreFate`), and what entities and stores a step adds.
-/

namespace Reconcile

theorem Entity.Regarded.refl {T : Model} (e : Entity T) : e.Regarded e :=
  ⟨rfl, rfl, rfl, rfl, rfl, rfl, id⟩

namespace Session

variable {T : Model} {s s' : Session T} {deed : Deed} {n : Nat} {e : Entity T} {i : StoreId}
  {store : Store}

/-! ## Entities -/

/-- What a step that does the deed can make of the entity in a slot. -/
inductive EntityFate (n : Nat) (e : Entity T) : Deed → Entity T → Prop where
  | regarded {deed : Deed} {e' : Entity T} (h : e.Regarded e') : EntityFate n e deed e'
  | confirmed {deed : Deed} {temporary : Bool} (h : temporary = true → e.temporary = true) :
      EntityFate n e deed { e with temporary }
  | edited {e' : Entity T} (h : e.Edited e') : EntityFate n e (.changed n) e'
  | deleted : EntityFate n e (.deleted n) { e with deleted := true }

/-- No step takes an entity away. -/
theorem Step.entityFate (h : Step s deed s') (he : s.entity? n = some e) :
    ∃ e', s'.entity? n = some e' ∧ EntityFate n e deed e' := by
  have hkept : ∀ {deed}, EntityFate n e deed e := .regarded (.refl e)
  cases h with
  | regard hold hregarded =>
    refine exists_modifyEntity he hkept ?_
    rintro rfl
    cases hold.symm.trans he
    exact .regarded hregarded
  | confirm slot => exact exists_modifyEntity he hkept fun _ => .confirmed nofun
  | insert k hstore => exact ⟨e, entity?_insertUnder he, hkept⟩
  | load hrow hname hnew hdecode => exact ⟨e, entity?_enroll he, hkept⟩
  | edit hold hedited =>
    refine exists_modifyEntity he hkept ?_
    rintro rfl
    cases hold.symm.trans he
    exact .edited hedited
  | delete slot =>
    refine exists_modifyEntity he hkept ?_
    rintro rfl
    exact .deleted
  | @save c changes hcollect =>
    rcases entity?_commit s c changes n with ⟨kept, hcommitted⟩
    rw [he] at hcommitted
    exact ⟨_, hcommitted, .confirmed fun h => (Bool.and_eq_true_iff.1 h).1⟩
  | _ => exact ⟨e, he, hkept⟩

theorem size_insertUnder {c : ContextId} {k : T.Kind} {key : UInt64} :
    (s.insertUnder c k key).entities.size = s.entities.size + 1 := by
  have hsize : ((s.modifyStoreOf c fun store => { store with nextKey := key + 1 }).enroll c k
      ⟨T.entityName k, key⟩ (T.blank k) true).entities.size = s.entities.size + 1 := by
    rw [size_enroll, entities_modifyStoreOf]
  exact hsize

/-- An entity that a step adds is blank, or has the value of a row. -/
theorem Step.added (h : Step s deed s') (he : s'.entity? n = some e) (hn : s.entities.size ≤ n) :
    (∃ k, deed = .inserted n ∧ e = .new k (T.blank k) true) ∨
      ∃ k v c row, deed = .loaded n row ∧ (s.rowsOf c).row? row.id = some row ∧
        row.id.entity = T.entityName k ∧ T.decode k (some c) row.payload = some v ∧
          e = .new k v false := by
  have hnone : s.entity? n = none := Array.getElem?_eq_none hn
  have hmodify : ∀ slot f, (s.modifyEntity slot f).entity? n ≠ some e := by
    intro slot f he
    have hlt := lt_size_of_entity? he
    rw [size_modifyEntity] at hlt
    exact absurd hlt (Nat.not_lt.2 hn)
  cases h with
  | regard => exact absurd he (hmodify _ _)
  | confirm => exact absurd he (hmodify _ _)
  | edit => exact absurd he (hmodify _ _)
  | delete => exact absurd he (hmodify _ _)
  | insert k hstore =>
    have hlt := lt_size_of_entity? he
    rw [size_insertUnder] at hlt
    obtain rfl : n = s.entities.size := Nat.le_antisymm (Nat.le_of_lt_succ hlt) hn
    cases entity?_insertUnder_new.symm.trans he
    exact Or.inl ⟨k, rfl, rfl⟩
  | load hrow hname hnew hdecode =>
    have hlt := lt_size_of_entity? he
    rw [size_enroll] at hlt
    obtain rfl : n = s.entities.size := Nat.le_antisymm (Nat.le_of_lt_succ hlt) hn
    cases entity?_enroll_new.symm.trans he
    exact Or.inr ⟨_, _, _, _, rfl, hrow, hname, hdecode, rfl⟩
  | @save c changes hcollect =>
    rcases entity?_commit s c changes n with ⟨kept, hcommitted⟩
    rw [hnone] at hcommitted
    cases he.symm.trans hcommitted
  | _ => cases he.symm.trans hnone

/-! ## Stores -/

/-- What a step that does the deed can make of a store. -/
inductive StoreFate (s s' : Session T) (i : StoreId) (store : Store) : Deed → Store → Prop where
  | kept {deed : Deed} : StoreFate s s' i store deed store
  | numbered {c : ContextId} {k : T.Kind} (h : s' = s.insertUnder c k store.nextKey) :
      StoreFate s s' i store (.inserted s.entities.size)
        { store with nextKey := store.nextKey + 1 }
  | committed {c : ContextId} {changes : Changes} (hstore : s.storeOf? c = some store)
      (h : s.collect c (s.registry c).values = .ok changes) :
      StoreFate s s' i store (.saved c) { store with rows := changes.committed store.rows }
  | imported {snapshot : Snapshot} {store' : Store} (h : store.restore snapshot = .ok store') :
      StoreFate s s' i store (.imported i) store'

/-- No step takes a store away. -/
theorem Step.storeFate (h : Step s deed s') (hstore : s.store? i = some store) :
    ∃ store', s'.store? i = some store' ∧ StoreFate s s' i store deed store' := by
  cases h with
  | openStore schema settings =>
    refine ⟨store, ?_, .kept⟩
    rw [store?_openStore_of_isSome (by rw [hstore]; rfl), hstore]
  | @insert c old k hold =>
    rw [store?_insertUnder]
    split
    · next hi =>
      rw [storeOf?_eq, hi] at hold
      cases hold.symm.trans hstore
      rw [hstore]
      exact ⟨_, rfl, .numbered rfl⟩
    · exact ⟨store, hstore, .kept⟩
  | load hrow hname hnew hdecode =>
    rw [store?, stores_enroll]
    exact ⟨store, hstore, .kept⟩
  | @save c changes hcollect =>
    rw [store?_commit]
    split
    · next hi =>
      have hof : s.storeOf? c = some store := by
        rw [storeOf?_eq, hi]
        exact hstore
      rw [hstore]
      exact ⟨_, rfl, .committed hof hcollect⟩
    · exact ⟨store, hstore, .kept⟩
  | restore hold hrestore =>
    rw [store?_modifyStore]
    split
    · next hi =>
      subst hi
      cases hold.symm.trans hstore
      rw [hstore]
      exact ⟨_, rfl, .imported hrestore⟩
    · exact ⟨store, hstore, .kept⟩
  | _ => exact ⟨store, hstore, .kept⟩

/-- A store that a step adds is new. -/
theorem Step.opened (h : Step s deed s') (hstore : s'.store? i = some store)
    (hnone : s.store? i = none) : ∃ schema settings, store = .new schema settings := by
  cases h with
  | openStore schema settings =>
    rcases store?_openStore hstore with hold | rfl
    · cases hold.symm.trans hnone
    · exact ⟨schema, settings, rfl⟩
  | insert k hold =>
    rw [store?_insertUnder, hnone, Option.map_none, ite_self] at hstore
    cases hstore
  | load hrow hname hnew hdecode =>
    rw [store?, stores_enroll] at hstore
    cases hstore.symm.trans hnone
  | save hcollect =>
    rw [store?_commit, hnone, Option.map_none, ite_self] at hstore
    cases hstore
  | restore hold hrestore =>
    rw [store?_modifyStore, hnone, Option.map_none, ite_self] at hstore
    cases hstore
  | _ => cases hstore.symm.trans hnone

end Session

end Reconcile
