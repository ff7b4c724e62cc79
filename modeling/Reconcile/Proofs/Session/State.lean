import Mathlib.Data.List.Basic
import Reconcile.Proofs.Data.SortedMap
import Reconcile.Session.Basic

/-!
# Reading a session after a change

What the stores, the contexts with their registries, and the entities of a session are after each
primitive change.  A change of entities leaves stores and contexts alone, and so the other way
round, which holds by definition; the lemmas here are about the rest.
-/

namespace Reconcile

theorem Entity.value_self {T : Model} (m : Entity T) : m.value m.kind = m.state := by
  unfold Entity.value
  rw [dif_pos rfl]

namespace Session

variable {T : Model} {s : Session T} {c d : ContextId}

/-! ## Entities -/

theorem entity?_modifyEntity (s : Session T) (slot n : Nat) (f : Entity T → Entity T) :
    (s.modifyEntity slot f).entity? n = if slot = n then (s.entity? n).map f else s.entity? n := by
  simp [modifyEntity, entity?, Array.getElem?_modify]

theorem entity?_modifyEntity_self {slot : Nat} {e : Entity T} (h : s.entity? slot = some e)
    (f : Entity T → Entity T) : (s.modifyEntity slot f).entity? slot = some (f e) := by
  rw [entity?_modifyEntity, if_pos rfl, h]
  rfl

theorem entity?_modifyEntity_of_ne (s : Session T) {slot n : Nat} (h : n ≠ slot)
    (f : Entity T → Entity T) : (s.modifyEntity slot f).entity? n = s.entity? n := by
  rw [entity?_modifyEntity, if_neg h.symm]

/-- What is true of an entity, and of the changed entity if it is the one that changes. -/
theorem exists_modifyEntity {P : Entity T → Prop} {slot n : Nat} {f : Entity T → Entity T}
    {e : Entity T} (he : s.entity? n = some e) (hkept : P e) (hchanged : slot = n → P (f e)) :
    ∃ e', (s.modifyEntity slot f).entity? n = some e' ∧ P e' := by
  rw [entity?_modifyEntity, he]
  split
  · next hslot => exact ⟨f e, rfl, hchanged hslot⟩
  · exact ⟨e, rfl, hkept⟩

/-- An entity after a change is the changed one, or in another slot. -/
theorem entity?_of_modifyEntity {slot n : Nat} {f : Entity T → Entity T} {e' : Entity T}
    (h : (s.modifyEntity slot f).entity? n = some e') :
    (∃ e, slot = n ∧ s.entity? n = some e ∧ e' = f e) ∨ slot ≠ n ∧ s.entity? n = some e' := by
  rw [entity?_modifyEntity] at h
  split at h
  · next hslot =>
    rcases Option.map_eq_some_iff.1 h with ⟨e, he, rfl⟩
    exact Or.inl ⟨e, hslot, he, rfl⟩
  · next hslot => exact Or.inr ⟨hslot, h⟩

@[simp]
theorem size_modifyEntity (s : Session T) (slot : Nat) (f : Entity T → Entity T) :
    (s.modifyEntity slot f).entities.size = s.entities.size := by
  simp [modifyEntity]

theorem lt_size_of_entity? {n : Nat} {e : Entity T} (h : s.entity? n = some e) :
    n < s.entities.size :=
  (Array.getElem?_eq_some_iff.1 h).1

theorem entity?_of_lt_size {n : Nat} (h : n < s.entities.size) : ∃ e, s.entity? n = some e :=
  ⟨s.entities[n], Array.getElem?_eq_getElem h⟩

theorem value_of_entity? {k : T.Kind} {h : Handle k} {m : Entity T}
    (hm : s.entity? h.slot = some m) : s.value h = m.value k := by
  rw [value, hm]

theorem entryDeleted_of_entity? {e : Entry T} {m : Entity T} (hm : s.entity? e.slot = some m) :
    s.entryDeleted e = m.deleted := by
  have hslot : s.entity? e.handle.slot = some m := hm
  rw [entryDeleted, isDeleted, hslot]
  rfl

/-! ## Stores -/

theorem store?_modifyStore (s : Session T) (i j : StoreId) (f : Store → Store) :
    (s.modifyStore i f).store? j = if i = j then (s.store? j).map f else s.store? j := by
  rcases i with ⟨i⟩
  rcases j with ⟨j⟩
  simp [modifyStore, store?, Array.getElem?_modify]

theorem store?_openStore_of_isSome {schema : Schema} {settings : Settings} {i : StoreId}
    (h : (s.store? i).isSome) : (s.openStore schema settings).2.store? i = s.store? i := by
  have hlt : i.number < s.stores.size := by
    simpa [store?] using h
  simp [openStore, store?, Array.getElem?_push, Nat.ne_of_lt hlt]

theorem store?_openStore {schema : Schema} {settings : Settings} {i : StoreId} {store : Store}
    (h : (s.openStore schema settings).2.store? i = some store) :
    s.store? i = some store ∨ store = .new schema settings := by
  simp only [openStore, store?, Array.getElem?_push] at h
  split at h
  · exact Or.inr (Option.some.inj h).symm
  · exact Or.inl h

/-! ## Contexts -/

/-- The store of an open context. -/
def storeIdOf? (s : Session T) (c : ContextId) : Option StoreId := (s.context? c).map Context.store

theorem storeOf?_eq (s : Session T) (c : ContextId) :
    s.storeOf? c = (s.storeIdOf? c).bind s.store? := by
  unfold storeOf? storeIdOf?
  cases s.context? c <;> rfl

theorem isOpen_of_storeIdOf? {i : StoreId} (h : s.storeIdOf? c = some i) :
    ∃ r, s.context? c = some ⟨i, r⟩ := by
  rcases Option.map_eq_some_iff.1 h with ⟨⟨j, r⟩, hcontext, rfl⟩
  exact ⟨r, hcontext⟩

theorem isOpen_of_storeOf? {store : Store} (h : s.storeOf? c = some store) :
    ∃ ctx, s.context? c = some ctx ∧ s.store? ctx.store = some store :=
  Option.bind_eq_some_iff.1 h

theorem isOpen_of_registry {key : UInt64} {e : Entry T} (h : (s.registry c).get? key = some e) :
    ∃ ctx, s.context? c = some ctx ∧ ctx.registry.get? key = some e := by
  unfold registry at h
  cases hctx : s.context? c with
  | none =>
    rw [hctx] at h
    cases h
  | some ctx =>
    rw [hctx] at h
    exact ⟨ctx, rfl, h⟩

theorem registry_congr {s s' : Session T} (h : s'.context? c = s.context? c) :
    s'.registry c = s.registry c := by
  unfold registry
  rw [h]

theorem rowsOf_of_storeOf? {store : Store} (h : s.storeOf? c = some store) :
    s.rowsOf c = store.rows := by
  simp [rowsOf, h]

theorem storeOf?_of_row? {id : EntityId} {row : Row} (h : (s.rowsOf c).row? id = some row) :
    ∃ store, s.storeOf? c = some store ∧ store.rows.row? id = some row := by
  unfold rowsOf at h
  cases hstore : s.storeOf? c with
  | none =>
    rw [hstore] at h
    cases h
  | some store =>
    rw [hstore] at h
    exact ⟨store, rfl, h⟩

@[simp]
theorem storeIdOf?_report (s : Session T) (event : Event) (c : ContextId) :
    (s.report event).storeIdOf? c = s.storeIdOf? c := rfl

@[simp]
theorem storeOf?_report (s : Session T) (event : Event) (c : ContextId) :
    (s.report event).storeOf? c = s.storeOf? c := rfl

@[simp]
theorem rowsOf_report (s : Session T) (event : Event) (c : ContextId) :
    (s.report event).rowsOf c = s.rowsOf c := rfl

/-! ## Registries -/

theorem context?_withRegistry (s : Session T) (c d : ContextId) (r : Registry T) :
    (s.withRegistry c r).context? d =
      if d = c then (s.context? c).map ({ · with registry := r }) else s.context? d := by
  unfold withRegistry
  split
  · next ctx hctx =>
    rw [hctx]
    exact SortedMap.get?_insert s.contexts c d _
  · next hctx =>
    by_cases h : d = c
    · rw [if_pos h, h, hctx]
      rfl
    · rw [if_neg h]

@[simp]
theorem stores_withRegistry (s : Session T) (c : ContextId) (r : Registry T) :
    (s.withRegistry c r).stores = s.stores := by
  unfold withRegistry
  split <;> rfl

@[simp]
theorem entities_withRegistry (s : Session T) (c : ContextId) (r : Registry T) :
    (s.withRegistry c r).entities = s.entities := by
  unfold withRegistry
  split <;> rfl

@[simp]
theorem journal_withRegistry (s : Session T) (c : ContextId) (r : Registry T) :
    (s.withRegistry c r).journal = s.journal := by
  unfold withRegistry
  split <;> rfl

@[simp]
theorem opened_withRegistry (s : Session T) (c : ContextId) (r : Registry T) :
    (s.withRegistry c r).opened = s.opened := by
  unfold withRegistry
  split <;> rfl

@[simp]
theorem storeIdOf?_withRegistry (s : Session T) (c d : ContextId) (r : Registry T) :
    (s.withRegistry c r).storeIdOf? d = s.storeIdOf? d := by
  unfold storeIdOf?
  rw [context?_withRegistry]
  split
  · next h =>
    subst h
    cases s.context? d <;> rfl
  · rfl

theorem registry_withRegistry_self {ctx : Context T} (h : s.context? c = some ctx)
    (r : Registry T) : (s.withRegistry c r).registry c = r := by
  unfold registry
  rw [context?_withRegistry, if_pos rfl, h]
  rfl

theorem registry_withRegistry_of_ne (s : Session T) (h : d ≠ c) (r : Registry T) :
    (s.withRegistry c r).registry d = s.registry d := by
  unfold registry
  rw [context?_withRegistry, if_neg h]

/-! ## The store of a context -/

section StoreOf

variable {f : Store → Store}

@[simp]
theorem context?_modifyStoreOf : (s.modifyStoreOf c f).context? d = s.context? d := by
  unfold modifyStoreOf
  split <;> rfl

@[simp]
theorem registry_modifyStoreOf : (s.modifyStoreOf c f).registry d = s.registry d := by
  simp only [registry, context?_modifyStoreOf]

@[simp]
theorem storeIdOf?_modifyStoreOf : (s.modifyStoreOf c f).storeIdOf? d = s.storeIdOf? d := by
  simp only [storeIdOf?, context?_modifyStoreOf]

@[simp]
theorem entities_modifyStoreOf : (s.modifyStoreOf c f).entities = s.entities := by
  unfold modifyStoreOf
  split <;> rfl

@[simp]
theorem entity?_modifyStoreOf {n : Nat} : (s.modifyStoreOf c f).entity? n = s.entity? n := by
  simp only [entity?, entities_modifyStoreOf]

@[simp]
theorem opened_modifyStoreOf : (s.modifyStoreOf c f).opened = s.opened := by
  unfold modifyStoreOf
  split <;> rfl

@[simp]
theorem journal_modifyStoreOf : (s.modifyStoreOf c f).journal = s.journal := by
  unfold modifyStoreOf
  split <;> rfl

theorem store?_modifyStoreOf {i : StoreId} : (s.modifyStoreOf c f).store? i =
    if s.storeIdOf? c = some i then (s.store? i).map f else s.store? i := by
  unfold modifyStoreOf storeIdOf?
  cases s.context? c with
  | none => simp
  | some ctx => simp [store?_modifyStore]

end StoreOf

/-! ## Opening and closing -/

theorem context?_openContext (s : Session T) (i : StoreId) (d : ContextId) :
    (s.openContext i).2.context? d =
      if d = ⟨s.opened + 1⟩ then some ⟨i, .empty⟩ else s.context? d := by
  simp only [openContext, context?, SortedMap.get?_insert]

theorem context?_closeContext (s : Session T) (c d : ContextId) :
    (s.closeContext c).context? d = if d = c then none else s.context? d := by
  by_cases h : d = c
  · subst h
    simp [closeContext, context?]
  · rw [if_neg h]
    exact SortedMap.get?_erase_of_ne s.contexts h

/-- A context was opened just now, or it was open before. -/
theorem context?_of_openContext {i : StoreId} {ctx : Context T}
    (h : (s.openContext i).2.context? c = some ctx) :
    (c = ⟨s.opened + 1⟩ ∧ ctx = ⟨i, .empty⟩) ∨ s.context? c = some ctx := by
  rw [context?_openContext] at h
  split at h
  · next hc => exact Or.inl ⟨hc, (Option.some.inj h).symm⟩
  · exact Or.inr h

theorem context?_of_closeContext {ctx : Context T}
    (h : (s.closeContext d).context? c = some ctx) : s.context? c = some ctx := by
  rw [context?_closeContext] at h
  split at h
  · cases h
  · exact h

theorem registry_of_openContext {i : StoreId} {key : UInt64} {e : Entry T}
    (h : ((s.openContext i).2.registry c).get? key = some e) :
    (s.registry c).get? key = some e := by
  rcases isOpen_of_registry h with ⟨ctx, hctx, hget⟩
  rcases context?_of_openContext hctx with ⟨_, rfl⟩ | hold
  · cases hget
  · rw [registry, hold]
    exact hget

theorem registry_of_closeContext {key : UInt64} {e : Entry T}
    (h : ((s.closeContext d).registry c).get? key = some e) :
    (s.registry c).get? key = some e := by
  rcases isOpen_of_registry h with ⟨ctx, hctx, hget⟩
  rw [registry, context?_of_closeContext hctx]
  exact hget

/-! ## Enrolling -/

/-- Puts an entity into memory and enters it in the registry of its context. -/
def enroll (s : Session T) (c : ContextId) (k : T.Kind) (id : EntityId) (v : T.Value k)
    (pending : Bool) : Session T :=
  (s.allocate id c v pending).2.register (s.allocate id c v pending).1 pending

section Enroll

variable {ctx : Context T} {k : T.Kind} {id : EntityId} {v : T.Value k} {pending : Bool}

theorem entity?_enroll_new :
    (s.enroll c k id v pending).entity? s.entities.size = some (.new k v pending) := by
  simp [enroll, register, entity?, allocate]

theorem entity?_enroll_of_lt {n : Nat} (h : n < s.entities.size) :
    (s.enroll c k id v pending).entity? n = s.entity? n := by
  simp [enroll, register, entity?, allocate, Array.getElem?_push, Nat.ne_of_lt h]

theorem entity?_enroll {n : Nat} {e : Entity T} (h : s.entity? n = some e) :
    (s.enroll c k id v pending).entity? n = some e := by
  rw [entity?_enroll_of_lt (lt_size_of_entity? h), h]

@[simp]
theorem stores_enroll : (s.enroll c k id v pending).stores = s.stores := by
  simp [enroll, register, allocate]

@[simp]
theorem journal_enroll : (s.enroll c k id v pending).journal = s.journal := by
  simp [enroll, register, allocate]

@[simp]
theorem opened_enroll : (s.enroll c k id v pending).opened = s.opened := by
  simp [enroll, register, allocate]

@[simp]
theorem size_enroll : (s.enroll c k id v pending).entities.size = s.entities.size + 1 := by
  simp [enroll, register, allocate]

@[simp]
theorem storeIdOf?_enroll : (s.enroll c k id v pending).storeIdOf? d = s.storeIdOf? d := by
  simp only [enroll, register, storeIdOf?_withRegistry]
  rfl

theorem registry_enroll_self (h : s.context? c = some ctx) :
    (s.enroll c k id v pending).registry c =
      (s.registry c).insert id.key ⟨k, ⟨s.entities.size, id, c⟩, pending⟩ :=
  registry_withRegistry_self (s := (s.allocate id c v pending).2) h _

theorem get?_registry_enroll_new (h : s.context? c = some ctx) :
    ((s.enroll c k id v pending).registry c).get? id.key =
      some ⟨k, ⟨s.entities.size, id, c⟩, pending⟩ := by
  rw [registry_enroll_self h, SortedMap.get?_insert_self]

theorem registry_enroll_of_ne (h : d ≠ c) :
    (s.enroll c k id v pending).registry d = s.registry d :=
  registry_withRegistry_of_ne (s.allocate id c v pending).2 h _

theorem get?_registry_enroll_of_ne (h : s.context? c = some ctx) {key : UInt64}
    (hkey : d = c → key ≠ id.key) :
    ((s.enroll c k id v pending).registry d).get? key = (s.registry d).get? key := by
  by_cases hd : d = c
  · subst hd
    rw [registry_enroll_self h]
    exact SortedMap.get?_insert_of_ne _ _ (hkey rfl)
  · rw [registry_enroll_of_ne hd]

/-- An entry is the new one, or one that was there before. -/
theorem entry_of_enroll (h : s.context? c = some ctx) {key : UInt64} {e : Entry T}
    (he : ((s.enroll c k id v pending).registry d).get? key = some e) :
    (d = c ∧ key = id.key ∧ e = ⟨k, ⟨s.entities.size, id, c⟩, pending⟩) ∨
      (s.registry d).get? key = some e := by
  by_cases hnew : d = c ∧ key = id.key
  · rcases hnew with ⟨rfl, rfl⟩
    cases he.symm.trans (get?_registry_enroll_new h)
    exact Or.inl ⟨rfl, rfl, rfl⟩
  · rw [get?_registry_enroll_of_ne h fun hd hkey => hnew ⟨hd, hkey⟩] at he
    exact Or.inr he

end Enroll

end Session

end Reconcile
