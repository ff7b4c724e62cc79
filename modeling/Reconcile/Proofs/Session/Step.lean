import Mathlib.Logic.Relation
import Reconcile.Proofs.Session.State
import Reconcile.Session.Save
import Reconcile.Session.Restore

/-!
# The steps that sessions take

Everything that happens to a session, whoever causes it and in whatever order, is a sequence of
steps (`Step`), each of which is labelled with what it does to entities and rows (`Deed`):

* an entity is inserted, or loaded from a committed row;
* the value of an entity is changed, through a guard or as a stage of a fill;
* an entity is deleted, a context is saved, a snapshot is imported;
* anything else is quiet: reports, opening and closing, looking at an entity.

Hooks and fills are programs of the application, so a fill is not one step: between the stages of
it any other steps can be taken, of the same context or of others.
-/

namespace Reconcile

namespace Entity

variable {T : Model}

/-- The published payload is the payload of the value, unless the entity fills or a holder has
written to it. -/
def Settled (e : Entity T) : Prop :=
  e.filling = false → e.guard ≠ .held true → e.published = Model.published e.state

/-- The same entity with a value that was changed. -/
structure Edited (e e' : Entity T) : Prop where
  kind : e'.kind = e.kind
  temporary : e'.temporary = e.temporary
  deleted : e'.deleted = e.deleted
  settled : e.Settled → e'.Settled

/-- The same entity after it was looked at: its relationships may be bound, and somebody may hold
it or have let go of it. -/
structure Regarded (e e' : Entity T) : Prop where
  kind : e'.kind = e.kind
  temporary : e'.temporary = e.temporary
  deleted : e'.deleted = e.deleted
  filling : e'.filling = e.filling
  published : e'.published = e.published
  encode : T.encode e'.state = T.encode e.state
  guard : e.guard = .held true → e'.guard = .held true

theorem Regarded.edited {e e' : Entity T} (h : e.Regarded e') : e.Edited e' := by
  refine ⟨h.kind, h.temporary, h.deleted, ?_⟩
  intro hsettled hfilling hguard
  have hpublished : e.published = Model.published e.state :=
    hsettled (h.filling ▸ hfilling) fun hheld => hguard (h.guard hheld)
  rw [h.published, hpublished, Model.published, Model.published, h.encode]

theorem settled_new (k : T.Kind) (v : T.Value k) (temporary : Bool) :
    (Entity.new k v temporary).Settled := fun _ _ => rfl

theorem edited_write {e : Entity T} (v : T.Value e.kind) : e.Edited (e.write v) := by
  unfold write
  split
  · exact ⟨rfl, rfl, rfl, fun _ _ _ => rfl⟩
  · exact ⟨rfl, rfl, rfl, fun _ _ hguard => absurd rfl hguard⟩

theorem regarded_hold {e : Entity T} (h : e.guard = .free) : e.Regarded e.hold :=
  ⟨rfl, rfl, rfl, rfl, rfl, rfl, fun hheld => by rw [h] at hheld; cases hheld⟩

theorem regarded_release {e : Entity T} (h : e.guard ≠ .held true) : e.Regarded e.release := by
  unfold release
  split
  · next hheld => exact absurd hheld h
  · exact ⟨rfl, rfl, rfl, rfl, rfl, rfl, fun hheld => absurd hheld h⟩

theorem edited_release {e : Entity T} (h : e.guard = .held true) : e.Edited e.release := by
  unfold release
  rw [h]
  exact ⟨rfl, rfl, rfl, fun _ _ _ => rfl⟩

theorem edited_checkOut (e : Entity T) (v : T.Value e.kind) :
    e.Edited { e.withState v with filling := true } :=
  ⟨rfl, rfl, rfl, fun _ hfilling => by cases hfilling⟩

theorem edited_standIn {e : Entity T} (h : e.filling = true) (v : T.Value e.kind)
    (preview : Json) : e.Edited (e.standIn v preview) := by
  refine ⟨rfl, rfl, rfl, ?_⟩
  intro _ hfilling
  have htrue : (e.standIn v preview).filling = true := h
  rw [htrue] at hfilling
  cases hfilling

theorem edited_checkIn (e : Entity T) (v : T.Value e.kind) : e.Edited (e.checkIn v) :=
  ⟨rfl, rfl, rfl, fun _ _ _ => rfl⟩

end Entity

/-! ## Steps -/

/-- What a step does to the entities in memory and to the rows of stores. -/
inductive Deed where
  | quiet
  | inserted (slot : Nat)
  /-- The entity in this slot was read from a row. -/
  | loaded (slot : Nat) (row : Row)
  | changed (slot : Nat)
  | deleted (slot : Nat)
  | saved (c : ContextId)
  | imported (i : StoreId)

namespace Deed

/-- What reading does: no entity is changed and no row. -/
def Reading : Deed → Prop
  | quiet | loaded _ _ => True
  | _ => False

/-- Whatever sessions do without snapshots. -/
def Native : Deed → Prop
  | imported _ => False
  | _ => True

end Deed

namespace Session

variable {T : Model}

/-- Inserts a blank entity under a key of the store of its context. -/
def insertUnder (s : Session T) (c : ContextId) (k : T.Kind) (key : UInt64) : Session T :=
  ((s.modifyStoreOf c fun store => { store with nextKey := key + 1 }).enroll c k
    ⟨T.entityName k, key⟩ (T.blank k) true).report (.inserted ⟨T.entityName k, key⟩ c)

section InsertUnder

variable {s : Session T} {c d : ContextId} {k : T.Kind} {key : UInt64} {store : Store}

theorem entity?_insertUnder_new : (s.insertUnder c k key).entity? s.entities.size =
    some (.new k (T.blank k) true) := by
  have hsize : (s.modifyStoreOf c fun store => { store with nextKey := key + 1 }).entities.size =
      s.entities.size := by
    rw [entities_modifyStoreOf]
  exact hsize ▸ entity?_enroll_new

theorem entity?_insertUnder_of_lt {n : Nat} (hn : n < s.entities.size) :
    (s.insertUnder c k key).entity? n = s.entity? n := by
  have hentities : (s.modifyStoreOf c fun store => { store with nextKey := key + 1 }).entities =
      s.entities := entities_modifyStoreOf
  have henroll : ((s.modifyStoreOf c fun store => { store with nextKey := key + 1 }).enroll c k
      ⟨T.entityName k, key⟩ (T.blank k) true).entity? n =
      (s.modifyStoreOf c fun store => { store with nextKey := key + 1 }).entity? n :=
    entity?_enroll_of_lt (hentities.symm ▸ hn)
  exact henroll.trans entity?_modifyStoreOf

theorem entity?_insertUnder {n : Nat} {m : Entity T} (hm : s.entity? n = some m) :
    (s.insertUnder c k key).entity? n = some m := by
  have henroll : ((s.modifyStoreOf c fun store => { store with nextKey := key + 1 }).enroll c k
      ⟨T.entityName k, key⟩ (T.blank k) true).entity? n = some m :=
    entity?_enroll (entity?_modifyStoreOf.trans hm)
  exact henroll

theorem get?_insertUnder_new (hstore : s.storeOf? c = some store) :
    ((s.insertUnder c k key).registry c).get? key =
      some ⟨k, ⟨s.entities.size, ⟨T.entityName k, key⟩, c⟩, true⟩ := by
  rcases isOpen_of_storeOf? hstore with ⟨ctx, hctx, _⟩
  refine (get?_registry_enroll_new (context?_modifyStoreOf.trans hctx)).trans ?_
  rw [entities_modifyStoreOf]

theorem get?_insertUnder_of_ne (hstore : s.storeOf? c = some store) {key' : UInt64}
    (hkey : d = c → key' ≠ key) :
    ((s.insertUnder c k key).registry d).get? key' = (s.registry d).get? key' := by
  rcases isOpen_of_storeOf? hstore with ⟨ctx, hctx, _⟩
  refine (get?_registry_enroll_of_ne (context?_modifyStoreOf.trans hctx) hkey).trans ?_
  rw [registry_modifyStoreOf]

/-- An entry is the new one, or one that was there before. -/
theorem entry_of_insertUnder (hstore : s.storeOf? c = some store) {key' : UInt64} {e : Entry T}
    (he : ((s.insertUnder c k key).registry d).get? key' = some e) :
    (d = c ∧ e = ⟨k, ⟨s.entities.size, ⟨T.entityName k, key⟩, c⟩, true⟩) ∨
      (s.registry d).get? key' = some e := by
  by_cases hnew : d = c ∧ key' = key
  · rcases hnew with ⟨rfl, rfl⟩
    cases he.symm.trans (get?_insertUnder_new hstore)
    exact Or.inl ⟨rfl, rfl⟩
  · rw [get?_insertUnder_of_ne hstore fun hd hkey => hnew ⟨hd, hkey⟩] at he
    exact Or.inr he

theorem storeIdOf?_insertUnder : (s.insertUnder c k key).storeIdOf? d = s.storeIdOf? d :=
  storeIdOf?_enroll.trans storeIdOf?_modifyStoreOf

theorem store?_insertUnder {i : StoreId} : (s.insertUnder c k key).store? i =
    if s.storeIdOf? c = some i then
      (s.store? i).map fun store => { store with nextKey := key + 1 }
    else s.store? i := by
  have hstores : (s.insertUnder c k key).store? i =
      (s.modifyStoreOf c fun store => { store with nextKey := key + 1 }).store? i :=
    congrArg (·[i.number]?) stores_enroll
  rw [hstores, store?_modifyStoreOf]

theorem storeOf?_insertUnder_self : (s.insertUnder c k key).storeOf? c =
    (s.storeOf? c).map fun store => { store with nextKey := key + 1 } := by
  rw [storeOf?_eq, storeOf?_eq, storeIdOf?_insertUnder]
  cases h : s.storeIdOf? c with
  | none => rfl
  | some i => rw [Option.bind_some, Option.bind_some, store?_insertUnder, if_pos h]

theorem rowsOf_insertUnder_self : (s.insertUnder c k key).rowsOf c = s.rowsOf c := by
  rw [rowsOf, storeOf?_insertUnder_self, rowsOf]
  cases s.storeOf? c <;> rfl

theorem schemaOf_insertUnder_self : (s.insertUnder c k key).schemaOf c = s.schemaOf c := by
  rw [schemaOf, storeOf?_insertUnder_self, schemaOf]
  cases s.storeOf? c <;> rfl

theorem settingsOf_insertUnder_self :
    (s.insertUnder c k key).settingsOf c = s.settingsOf c := by
  rw [settingsOf, storeOf?_insertUnder_self, settingsOf]
  cases s.storeOf? c <;> rfl

end InsertUnder

inductive Step : Session T → Deed → Session T → Prop where
  | report (s : Session T) (event : Event) : Step s .quiet (s.report event)
  | note (s : Session T) (remark : T.Remark) : Step s .quiet (s.note remark)
  | openStore (s : Session T) (schema : Schema) (settings : Settings) :
      Step s .quiet (s.openStore schema settings).2
  | openContext (s : Session T) (i : StoreId) (h : (s.store? i).isSome) :
      Step s .quiet (s.openContext i).2
  | closeContext (s : Session T) (c : ContextId) : Step s .quiet (s.closeContext c)
  | regard {s : Session T} {slot : Nat} {e e' : Entity T} (h : s.entity? slot = some e)
      (he : e.Regarded e') : Step s .quiet (s.modifyEntity slot fun _ => e')
  | confirm (s : Session T) (slot : Nat) :
      Step s .quiet (s.modifyEntity slot fun e => { e with temporary := false })
  | insert {s : Session T} {c : ContextId} {store : Store} (k : T.Kind)
      (h : s.storeOf? c = some store) :
      Step s (.inserted s.entities.size) (s.insertUnder c k store.nextKey)
  | load {s : Session T} {c : ContextId} {k : T.Kind} {row : Row} {v : T.Value k}
      (hrow : (s.rowsOf c).row? row.id = some row) (hname : row.id.entity = T.entityName k)
      (hnew : (s.registry c).get? row.id.key = none)
      (hdecode : T.decode k (some c) row.payload = some v) :
      Step s (.loaded s.entities.size row) (s.enroll c k row.id v false)
  | edit {s : Session T} {slot : Nat} {e e' : Entity T} (h : s.entity? slot = some e)
      (he : e.Edited e') : Step s (.changed slot) (s.modifyEntity slot fun _ => e')
  | delete (s : Session T) (slot : Nat) :
      Step s (.deleted slot) (s.modifyEntity slot fun e => { e with deleted := true })
  | save {s : Session T} {c : ContextId} {changes : Changes}
      (h : s.collect c (s.registry c).values = .ok changes) :
      Step s (.saved c) (s.commit c changes).2
  | restore {s : Session T} {i : StoreId} {store : Store} {snapshot : Snapshot} {store' : Store}
      (hstore : s.store? i = some store) (h : store.restore snapshot = .ok store') :
      Step s (.imported i) (s.modifyStore i fun _ => store')

/-- Any number of steps that do no more than is allowed. -/
def Run (allow : Deed → Prop) : Session T → Session T → Prop :=
  Relation.ReflTransGen fun s s' => ∃ deed, allow deed ∧ Step s deed s'

variable {allow allow' : Deed → Prop} {s s' s'' : Session T} {deed : Deed}

theorem Run.refl (s : Session T) : Run allow s s := Relation.ReflTransGen.refl

theorem Run.trans (h : Run allow s s') (h' : Run allow s' s'') : Run allow s s'' :=
  Relation.ReflTransGen.trans h h'

theorem Step.run (h : Step s deed s') (hallow : allow deed) : Run allow s s' :=
  Relation.ReflTransGen.single ⟨deed, hallow, h⟩

theorem Run.mono (hallow : ∀ deed, allow deed → allow' deed) (h : Run allow s s') :
    Run allow' s s' := by
  refine Relation.ReflTransGen.mono ?_ _ _ h
  intro a b hstep
  rcases hstep with ⟨deed, hdeed, hstep⟩
  exact ⟨deed, hallow deed hdeed, hstep⟩

/-- What every allowed step keeps, a run keeps. -/
theorem Run.induct {P : Session T → Prop}
    (step : ∀ {s s' deed}, allow deed → Step s deed s' → P s → P s') (h : Run allow s s')
    (hs : P s) : P s' := by
  induction h with
  | refl => exact hs
  | tail _ hstep ih =>
    rcases hstep with ⟨deed, hdeed, hstep⟩
    exact step hdeed hstep ih

/-- Inserting an entity and then writing its value. -/
theorem run_insertWith {c : ContextId} {k : T.Kind} {key : UInt64} {slot : Nat} {store : Store}
    (hstore : s.storeOf? c = some store) (hkey : store.nextKey = key)
    (hslot : s.entities.size = slot) (v : T.Value k) :
    Run Deed.Native s ((s.insertUnder c k key).modifyEntity slot fun _ => .new k v true) := by
  subst hkey hslot
  have hedited : (Entity.new k (T.blank k) true).Edited (.new k v true) :=
    Entity.edited_write (e := .new k (T.blank k) true) v
  exact ((Step.insert k hstore).run trivial).trans
    ((Step.edit entity?_insertUnder_new hedited).run trivial)

end Session

end Reconcile
