import Reconcile.Proofs.Session.Inserting
import Reconcile.Proofs.Session.Likeness
import Reconcile.Proofs.Session.Operations

/-!
# Contexts that keep apart

Every entity in memory was made in one context, which owns it (`Owners`).  Work of a context that
keeps `Apart` changes no entity of another owner, no other registry and no rows: all that it leaves
elsewhere are spent keys.  So the other contexts are none the wiser (`Unaware`): whatever one of them
fetches or saves ends as it would have ended before, and what it inserts differs in the key only.
-/

namespace Reconcile

/-- The contexts that own the entities in memory, by slot. -/
abbrev Owners := List ContextId

/-- The store apart from its next key. -/
def Store.unnumbered (store : Store) : Store := { store with nextKey := 0 }

/-- The same entity if others were added in between. -/
def shiftFrom (bound gap n : Nat) : Nat := if n < bound then n else n + gap

namespace Session

variable {T : Model} {s s' s'' : Session T} {owners : Owners} {c d : ContextId} {k : T.Kind}
  {scope : Scope}

/-- What the context did concerns nobody else. -/
structure Apart (owners : Owners) (c : ContextId) (s s' : Session T) : Prop where
  size : s.entities.size ≤ s'.entities.size
  /-- Entities of other owners stay as they are, with all that is shown of them. -/
  entity? : ∀ n, n < s.entities.size → owners[n]? ≠ some c → s'.entity? n = s.entity? n
  context? : ∀ d, d ≠ c → s'.context? d = s.context? d
  storeIdOf? : s'.storeIdOf? c = s.storeIdOf? c
  store? : ∀ i, (s'.store? i).map Store.unnumbered = (s.store? i).map Store.unnumbered
  /-- What the context has registered it does not lose. -/
  kept : ∀ key e, (s.registry c).get? key = some e → (s'.registry c).get? key = some e

namespace Apart

theorem refl (owners : Owners) (c : ContextId) (s : Session T) : Apart owners c s s :=
  ⟨Nat.le_refl _, fun _ _ _ => rfl, fun _ _ => rfl, rfl, fun _ => rfl, fun _ _ he => he⟩

theorem trans (h : Apart owners c s s') (h' : Apart owners c s' s'') : Apart owners c s s'' where
  size := Nat.le_trans h.size h'.size
  entity? n hn howner := by
    have hfirst := h.entity? n hn howner
    exact (h'.entity? n (Nat.lt_of_lt_of_le hn h.size) howner).trans hfirst
  context? d hd := (h'.context? d hd).trans (h.context? d hd)
  storeIdOf? := h'.storeIdOf?.trans h.storeIdOf?
  store? i := (h'.store? i).trans (h.store? i)
  kept key e he := h'.kept key e (h.kept key e he)

/-! ## What a context does -/

/-- Reports and remarks. -/
theorem of_quiet (hentities : s'.entities = s.entities) (hcontexts : s'.contexts = s.contexts)
    (hstores : s'.stores = s.stores) : Apart owners c s s' := by
  have hcontext : ∀ d, s'.context? d = s.context? d := fun d => congrArg (·.get? d) hcontexts
  constructor
  case size => rw [hentities]
  case entity? => exact fun n _ _ => congrArg (·[n]?) hentities
  case context? => exact fun d _ => hcontext d
  case storeIdOf? => exact congrArg (Option.map Context.store) (hcontext c)
  case store? =>
    intro i
    exact congrArg (fun stores : Array Store => stores[i.number]?.map Store.unnumbered) hstores
  case kept =>
    intro key e he
    rw [registry_congr (hcontext c)]
    exact he

/-- A change of an entity that the context owns. -/
theorem modifyEntity {slot : Nat} (howner : owners[slot]? = some c) (f : Entity T → Entity T) :
    Apart owners c s (s.modifyEntity slot f) := by
  constructor
  case size => rw [size_modifyEntity]
  case entity? =>
    intro n _ hother
    refine entity?_modifyEntity_of_ne s ?_ f
    rintro rfl
    exact hother howner
  all_goals intros; first | rfl | assumption

/-- A new entity under a key that the context does not have yet. -/
theorem enroll {id : EntityId} (hnew : (s.registry c).get? id.key = none) {v : T.Value k}
    {pending : Bool} : Apart owners c s (s.enroll c k id v pending) := by
  constructor
  case size =>
    rw [size_enroll]
    exact Nat.le_succ _
  case entity? => exact fun n hn _ => entity?_enroll_of_lt hn
  case context? =>
    intro d hd
    exact (context?_withRegistry (s.allocate id c v pending).2 c d _).trans (if_neg hd)
  case storeIdOf? => exact storeIdOf?_enroll
  case store? =>
    intro i
    exact congrArg (fun stores : Array Store => stores[i.number]?.map Store.unnumbered)
      stores_enroll
  case kept =>
    intro key e he
    rcases isOpen_of_registry he with ⟨ctx, hctx, _⟩
    refine (get?_registry_enroll_of_ne hctx ?_).trans he
    rintro _ rfl
    cases he.symm.trans hnew

/-- A key that is spent. -/
theorem spendKey (key : UInt64) :
    Apart owners c s (s.modifyStoreOf c fun store => { store with nextKey := key }) := by
  constructor
  case size => rw [entities_modifyStoreOf]
  case entity? => exact fun _ _ _ => entity?_modifyStoreOf
  case context? => exact fun _ _ => context?_modifyStoreOf
  case storeIdOf? => exact storeIdOf?_modifyStoreOf
  case store? =>
    intro i
    rw [store?_modifyStoreOf]
    split
    · cases s.store? i <;> rfl
    · rfl
  case kept =>
    intro key e he
    rw [registry_modifyStoreOf]
    exact he

theorem insertUnder {key : UInt64} (hnew : (s.registry c).get? key = none) :
    Apart owners c s (s.insertUnder c k key) := by
  have hspent : Apart owners c s (s.modifyStoreOf c fun store => { store with nextKey := key + 1 }) :=
    spendKey (key + 1)
  have hunused : ((s.modifyStoreOf c fun store =>
      { store with nextKey := key + 1 }).registry c).get? key = none := by
    rw [registry_modifyStoreOf]
    exact hnew
  have henrolled : Apart owners c
      (s.modifyStoreOf c fun store => { store with nextKey := key + 1 })
      ((s.modifyStoreOf c fun store => { store with nextKey := key + 1 }).enroll c k
        ⟨T.entityName k, key⟩ (T.blank k) true) := enroll hunused
  exact hspent.trans (henrolled.trans (of_quiet rfl rfl rfl))

/-! ## What others read -/

section Others

variable (h : Apart owners c s s')
include h

theorem storeIdOf?_eq (d : ContextId) : s'.storeIdOf? d = s.storeIdOf? d := by
  by_cases hd : d = c
  · rw [hd]
    exact h.storeIdOf?
  · exact congrArg (Option.map Context.store) (h.context? d hd)

theorem unnumbered_storeOf? (d : ContextId) :
    (s'.storeOf? d).map Store.unnumbered = (s.storeOf? d).map Store.unnumbered := by
  rw [storeOf?_eq, storeOf?_eq, h.storeIdOf?_eq]
  cases s.storeIdOf? d with
  | none => rfl
  | some i => exact h.store? i

theorem rowsOf (d : ContextId) : s'.rowsOf d = s.rowsOf d := by
  have hread : ∀ a : Session T,
      a.rowsOf d = (((a.storeOf? d).map Store.unnumbered).map Store.rows).getD .empty := by
    intro a
    cases hstore : a.storeOf? d <;> simp [Session.rowsOf, hstore, Store.unnumbered]
  rw [hread, h.unnumbered_storeOf?, hread]

theorem schemaOf (d : ContextId) : s'.schemaOf d = s.schemaOf d := by
  have hread : ∀ a : Session T,
      a.schemaOf d = (((a.storeOf? d).map Store.unnumbered).map Store.schema).getD default := by
    intro a
    cases hstore : a.storeOf? d <;> simp [Session.schemaOf, hstore, Store.unnumbered]
  rw [hread, h.unnumbered_storeOf?, hread]

theorem settingsOf (d : ContextId) : s'.settingsOf d = s.settingsOf d := by
  have hread : ∀ a : Session T,
      a.settingsOf d = (((a.storeOf? d).map Store.unnumbered).map Store.settings).getD default := by
    intro a
    cases hstore : a.storeOf? d <;> simp [Session.settingsOf, hstore, Store.unnumbered]
  rw [hread, h.unnumbered_storeOf?, hread]

/-- The rows of every store. -/
theorem rows (i : StoreId) : (s'.store? i).map Store.rows = (s.store? i).map Store.rows := by
  have hread : ∀ a : Session T,
      (a.store? i).map Store.rows = ((a.store? i).map Store.unnumbered).map Store.rows := by
    intro a
    cases a.store? i <;> rfl
  rw [hread, h.store?, hread]

theorem registry (hd : d ≠ c) : s'.registry d = s.registry d := registry_congr (h.context? d hd)

end Others

end Apart

/-! ## Other contexts -/

/-- Everything in the registry of a context belongs to it. -/
def Owned (owners : Owners) (s : Session T) : Prop :=
  ∀ d key e, (s.registry d).get? key = some e → owners[e.slot]? = some d

/-- What the context does in the one session ends as it would in the other. -/
structure Unaware (d : ContextId) (s s' : Session T) : Prop where
  registry : s'.registry d = s.registry d
  entity? : ∀ key e, (s.registry d).get? key = some e → s'.entity? e.slot = s.entity? e.slot
  /-- A fetch finds the same entities, or fails in the same way, and shows the same of them
  afterwards.  Entities that it reads from rows come after all others in memory. -/
  fetch : ∀ (scope : Scope) (k : T.Kind) (q : Query), scope.context = d →
    Attempt.Agree
      (List.map (Handle.placed (shiftFrom s.entities.size (s'.entities.size - s.entities.size))))
      (Alike (shiftFrom s.entities.size (s'.entities.size - s.entities.size)) d)
      ((scope.fetch k q).outcome s) ((scope.fetch k q).outcome s')
  /-- A save is refused for the same fault, or writes the same rows. -/
  save : ∀ scope : Scope, scope.context = d →
    ((scope.save (T := T)).outcome s').1 = ((scope.save (T := T)).outcome s).1 ∧
    ∀ i, (((scope.save (T := T)).outcome s').2.store? i).map Store.rows =
      (((scope.save (T := T)).outcome s).2.store? i).map Store.rows
  /-- An insertion fails in the same way, or hands out a handle that differs in key and slot only. -/
  insert : ∀ (scope : Scope) (k : T.Kind), scope.context = d →
    ((scope.insert k).outcome s').1.map (fun h => (h.id.entity, h.context)) =
      ((scope.insert k).outcome s).1.map fun h => (h.id.entity, h.context)

/-- What a save collects depends on the entities it looks at, and on how the store is set up. -/
theorem collect_congr (hsettings : s'.settingsOf d = s.settingsOf d)
    (hschema : s'.schemaOf d = s.schemaOf d) (entries : List (Entry T))
    (hentries : ∀ e ∈ entries, s'.entity? e.slot = s.entity? e.slot) :
    s'.collect d entries = s.collect d entries := by
  induction entries with
  | nil => rfl
  | cons e rest ih =>
    have hentity : s'.entity? e.handle.slot = s.entity? e.handle.slot :=
      hentries e List.mem_cons_self
    have hdeleted : s'.entryDeleted e = s.entryDeleted e := by
      rw [entryDeleted, isDeleted, hentity, entryDeleted, isDeleted]
    have hwrite : s'.collectWrite d e = s.collectWrite d e := by
      rw [collectWrite, hentries e List.mem_cons_self, hsettings, hschema, collectWrite]
    rw [collect, hdeleted, hwrite, ih fun e he => hentries e (List.mem_cons_of_mem _ he), collect]

/-- Whether an insertion succeeds is a matter of the schema. -/
theorem map_insert (scope : Scope) (k : T.Kind) (s : Session T) :
    ((scope.insert k).outcome s).1.map (fun h => (h.id.entity, h.context)) =
      ((s.schemaOf scope.context).require (T.entityName k)).map
        fun _ => (T.entityName k, scope.context) := by
  unfold Scope.insert
  dsimp only
  rw [Attempt.outcome_bind_of_ok (Attempt.outcome_get s)]
  cases (s.schemaOf scope.context).require (T.entityName k) with
  | error fault => rfl
  | ok d => rfl

section Unaware

variable (h : Apart owners c s s') (hs : Sound s) (howned : Owned owners s) (hd : d ≠ c)
include h hs howned hd

theorem Apart.entity_of_entry {key : UInt64} {e : Entry T} (he : (s.registry d).get? key = some e) :
    e.slot < s.entities.size ∧ s'.entity? e.slot = s.entity? e.slot := by
  rcases (hs.lodged he).entity with ⟨m, hm, _⟩
  have hlt := lt_size_of_entity? hm
  refine ⟨hlt, h.entity? _ hlt ?_⟩
  rw [howned d key e he]
  exact fun hsame => hd (Option.some.inj hsame)

/-- To fetches of another context nothing has changed. -/
theorem Apart.alike : Alike (shiftFrom s.entities.size (s'.entities.size - s.entities.size)) d s s' := by
  have hplace : ∀ {key : UInt64} {e : Entry T}, (s.registry d).get? key = some e →
      shiftFrom s.entities.size (s'.entities.size - s.entities.size) e.slot = e.slot :=
    fun he => if_pos (h.entity_of_entry hs howned hd he).1
  constructor
  case isOpen => rw [h.storeIdOf?_eq]
  case schemaOf => exact h.schemaOf d
  case settingsOf => exact h.settingsOf d
  case rowsOf => exact h.rowsOf d
  case aligned =>
    intro n
    have hsize := h.size
    rw [shiftFrom, if_neg (Nat.not_lt.2 (Nat.le_add_right _ n))]
    omega
  case registry =>
    rw [h.registry hd]
    refine (SortedMap.map_eq_self ?_).symm
    intro e he
    rcases SortedMap.mem_values_iff.1 he with ⟨key, hget⟩
    have hslot := hplace hget
    rcases e with ⟨kind, ⟨slot, id, context⟩, pending⟩
    exact congrArg (fun slot => (⟨kind, ⟨slot, id, context⟩, pending⟩ : Entry T)) hslot
  case entity =>
    intro e he
    rcases SortedMap.mem_values_iff.1 he with ⟨key, hget⟩
    rcases (hs.lodged hget).entity with ⟨m, hm, _⟩
    refine ⟨m, m, hm, ?_, .refl m⟩
    rw [hplace hget, (h.entity_of_entry hs howned hd hget).2]
    exact hm

theorem Apart.collect : s'.collect d (s'.registry d).values = s.collect d (s.registry d).values := by
  rw [h.registry hd]
  refine collect_congr (h.settingsOf d) (h.schemaOf d) _ ?_
  intro e he
  rcases SortedMap.mem_values_iff.1 he with ⟨key, hget⟩
  exact (h.entity_of_entry hs howned hd hget).2

omit hs howned hd in
/-- The rows after a commit of another context. -/
theorem Apart.rows_commit (changes : Changes) (i : StoreId) :
    ((s'.commit d changes).2.store? i).map Store.rows =
      ((s.commit d changes).2.store? i).map Store.rows := by
  have hcommitted : ∀ a : Session T, ((a.commit d changes).2.store? i).map Store.rows =
      if a.storeIdOf? d = some i then ((a.store? i).map Store.rows).map changes.committed
      else (a.store? i).map Store.rows := by
    intro a
    rw [store?_commit]
    split
    · cases a.store? i <;> rfl
    · rfl
  rw [hcommitted, hcommitted, h.storeIdOf?_eq, h.rows]

theorem Apart.save (hscope : scope.context = d) :
    ((scope.save (T := T)).outcome s').1 = ((scope.save (T := T)).outcome s).1 ∧
    ∀ i, (((scope.save (T := T)).outcome s').2.store? i).map Store.rows =
      (((scope.save (T := T)).outcome s).2.store? i).map Store.rows := by
  subst hscope
  -- nothing of the context has changed, so the saves collect the same
  have hcollect := h.collect hs howned hd
  rcases save_cases scope s with ⟨fault, hfault, hrefused⟩ | ⟨changes, hchanges, hsaved⟩
  · rcases save_cases scope s' with ⟨fault', hfault', hrefused'⟩ | ⟨changes', hchanges', _⟩
    · cases hfault.symm.trans (hcollect.symm.trans hfault')
      rw [hrefused, hrefused']
      exact ⟨rfl, h.rows⟩
    · cases hfault.symm.trans (hcollect.symm.trans hchanges')
  · rcases save_cases scope s' with ⟨fault', hfault', _⟩ | ⟨changes', hchanges', hsaved'⟩
    · cases hchanges.symm.trans (hcollect.symm.trans hfault')
    · cases hchanges.symm.trans (hcollect.symm.trans hchanges')
      rw [hsaved, hsaved']
      refine ⟨?_, h.rows_commit changes⟩
      show Except.ok ((s'.rowsOf scope.context).commit changes.removals changes.writes).2 =
        Except.ok ((s.rowsOf scope.context).commit changes.removals changes.writes).2
      rw [h.rowsOf]

omit hs howned hd in
theorem Apart.insert (scope : Scope) (k : T.Kind) :
    ((scope.insert k).outcome s').1.map (fun h => (h.id.entity, h.context)) =
      ((scope.insert k).outcome s).1.map fun h => (h.id.entity, h.context) := by
  rw [map_insert, map_insert, h.schemaOf]

theorem Apart.unaware : Unaware d s s' where
  registry := h.registry hd
  entity? _ _ he := (h.entity_of_entry hs howned hd he).2
  fetch scope k q hscope := by
    subst hscope
    exact (h.alike hs howned hd).fetch k q
  save scope := h.save hs howned hd
  insert scope k _ := h.insert scope k

end Unaware

end Session

end Reconcile
