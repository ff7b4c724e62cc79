import Reconcile.Proofs.Mapping.Tables
import Reconcile.Proofs.Session.Readiness
import Reconcile.Proofs.Session.Reconciling

/-!
# Finding by natural key

In a context that is ready for a type and shows the payloads of its entities, a natural key finds
the last value that is seen with it (`Identifies.find`), and the entity of a plain value is that one
or a new one (`Targets`).
-/

namespace Reconcile

open Session

variable {T : Model} {k : T.Kind} {s s₁ : Session T} {scope : Scope} {field : String}

namespace Mapping

variable {M : Mapping T} {N : Type} {key? : T.Value k → Option N} {p : M.Plain k} {n : N}

/-- The natural key of the plain value is in this field, and the payloads that have it there are
those of the values with key `n`. -/
def Identifies (M : Mapping T) (key? : T.Value k → Option N) (p : M.Plain k) (field : String)
    (n : N) : Prop :=
  ∃ value, M.naturalKey p = some ⟨field, value⟩ ∧ ∀ v : T.Value k, ∃ payload,
    T.encode v = .ok payload ∧ ((payload.valueAt field).same value = true ↔ key? v = some n)

/-! ## Fetching by the key -/

theorem visibleOf_of_shown {e : Entry T} {m : Entity T} (hm : s.entity? e.slot = some m)
    (hshown : m.Shown) : s.visibleOf e = some (Model.payload m.state) := by
  rw [visibleOf, hm]
  exact hshown

theorem Identifies.fetch (hp : M.Identifies key? p field n) (hs : Sound s) (scope : Scope)
    (hready : s.Ready scope.context k field Entity.Shown) (value : Json) : ∃ found s₁,
      (scope.fetch k (.matching (T.entityName k) (.equals field value))).outcome s =
        (.ok found, s₁) := by
  refine fetch_ok hs scope ?_ ?_ ?_
  · rcases hready.described with ⟨d, hd, hfield⟩
    exact askable_matching hd hfield value
  · intro key row hrow hnew
    exact hready.readable key row (mem_rowsNamed_iff.1 hrow) hnew
  · intro s' hloads e he heligible visible hvisible
    rcases SortedMap.mem_values_iff.1 he with ⟨key, hget⟩
    rcases eligible_iff.1 heligible with ⟨hname, hlive, _⟩
    rcases Option.bind_eq_some_iff.1 hvisible with ⟨m, hm, _⟩
    rw [entryDeleted_of_entity? hm] at hlive
    have hready' := hready.loads hs (fun v temporary => (Entity.unused_new k v temporary).shown)
      hloads
    -- an entity that comes under the name is of the type, and its value has a payload
    rcases hready'.live key e m hget hname hm hlive with ⟨hkind, hshown⟩
    rw [visibleOf_of_shown hm hshown] at hvisible
    have hmkind : m.kind = k := (hloads.kind hs hget hm).trans hkind
    subst hmkind
    rcases hp with ⟨_, _, hpayload⟩
    rcases hpayload m.state with ⟨payload, hencode, _⟩
    refine ⟨payload, ?_, fun _ => hkind⟩
    rw [← Option.some.inj hvisible, Model.payload, hencode]

/-- An entity that is live in the registry. -/
theorem entity_of_seen? {c : ContextId} {h : Handle k} {v : T.Value k} {pending : Bool}
    (he : (s.registry c).get? h.id.key = some ⟨k, h, pending⟩)
    (hv : s.seen? c k h.id.key = some v) :
    ∃ m, s.entity? h.slot = some m ∧ m.deleted = false ∧ m.value k = v := by
  rcases seen?_eq_some hv with ⟨e, m, he', _, hm, hlive, hvalue⟩ | ⟨hnone, _⟩
  · cases he.symm.trans he'
    exact ⟨m, hm, hlive, hvalue⟩
  · cases he.symm.trans hnone

/-- Among the results are the entities of the type that have the key. -/
theorem Identifies.mem_found_iff {value : Json}
    (hpayload : ∀ v : T.Value k, ∃ payload, T.encode v = .ok payload ∧
      ((payload.valueAt field).same value = true ↔ key? v = some n))
    {c : ContextId} {found : List (Handle k)} (hs₁ : Sound s₁)
    (hready : s₁.Ready c k field Entity.Shown)
    (hfetches : s.Fetches c k (.matching (T.entityName k) (.equals field value)) found s₁)
    {h : Handle k} : h ∈ found ↔
      (∃ pending, (s₁.registry c).get? h.id.key = some ⟨k, h, pending⟩) ∧
        ∃ v, s₁.seen? c k h.id.key = some v ∧ key? v = some n := by
  rw [hfetches.mem_iff hs₁]
  constructor
  · rintro ⟨e, payload, he, hmatch⟩
    rcases matchOf?_eq_some hmatch with ⟨hhandle, hkind, heligible, hvisible, haccepted⟩
    rcases eligible_iff.1 heligible with ⟨hname, hlive, _⟩
    rcases (hs₁.lodged he).entity with ⟨m, hm, hmkind⟩
    rw [entryDeleted_of_entity? hm] at hlive
    rcases hready.live _ e m he hname hm hlive with ⟨_, hshown⟩
    rcases e with ⟨kind, handle, pending⟩
    cases hkind
    cases hhandle
    refine ⟨⟨pending, he⟩, m.value kind, seen?_of_entry he rfl hm hlive, ?_⟩
    cases hmkind
    -- what matched shows its own payload, so its key is in there
    rw [visibleOf_of_shown hm hshown] at hvisible
    rcases hpayload m.state with ⟨payload', hencode, hiff⟩
    rw [Model.payload, hencode] at hvisible
    cases hvisible
    rw [Entity.value_self]
    exact hiff.1 haccepted
  · rintro ⟨⟨pending, he⟩, v, hv, hkey⟩
    rcases entity_of_seen? he hv with ⟨m, hm, hlive, rfl⟩
    have hlodged := hs₁.lodged he
    rcases hlodged.entity with ⟨m', hm', hmkind⟩
    cases hm.symm.trans hm'
    have hkind : m.kind = k := hmkind
    subst hkind
    rcases hready.live _ _ m he hlodged.name hm hlive with ⟨_, hshown⟩
    rcases hpayload m.state with ⟨payload, hencode, hiff⟩
    rw [Entity.value_self] at hkey
    have hvisible : s₁.visibleOf ⟨m.kind, h, pending⟩ = some (.ok payload) := by
      rw [visibleOf_of_shown hm hshown, Model.payload, hencode]
    have heligible : s₁.Eligible m.kind (s₁.takesPending c) ⟨m.kind, h, pending⟩ := by
      refine eligible_iff.2 ⟨hlodged.name, ?_, fun _ => hready.pending⟩
      exact (entryDeleted_of_entity? hm).trans hlive
    have hfetchable := hfetches.fetchable _ (SortedMap.mem_values_iff.2 ⟨_, he⟩)
    have hsome := (isSome_matchOf?_iff heligible hvisible hfetchable).2 (hiff.2 hkey)
    rcases Option.isSome_iff_exists.1 hsome with ⟨⟨handle, payload'⟩, hmatch⟩
    have hhandle : handle = h := (matchOf?_eq_some hmatch).1
    exact ⟨_, payload', he, hhandle ▸ hmatch⟩

/-- After a fetch that ended well every value that is seen is that of an entity in memory. -/
theorem entry_of_seen? {c : ContextId} {q : Query} {found : List (Handle k)} (hs₁ : Sound s₁)
    (hfetches : s.Fetches c k q found s₁) {key : UInt64} {v : T.Value k}
    (hv : s₁.seen? c k key = some v) : ∃ (h : Handle k) (pending : Bool), h.id.key = key ∧
      (s₁.registry c).get? h.id.key = some ⟨k, h, pending⟩ := by
  rcases seen?_eq_some hv with ⟨e, m, he, hkind, _⟩ | ⟨hnone, row, hrow, _⟩
  · rcases e with ⟨kind, h, pending⟩
    cases hkind
    have hkey : h.id.key = key := (hs₁.lodged he).key
    exact ⟨h, pending, hkey, hkey.symm ▸ he⟩
  · have hmem : (key, row) ∈ s.rowsNamed c k := by
      rw [mem_rowsNamed_iff, ← hfetches.loads.rowsOf]
      exact hrow
    rcases Option.isSome_iff_exists.1 (hfetches.complete key row hmem) with ⟨e, he⟩
    cases hnone.symm.trans he

/-! ## Finding -/

/-- The entity that is found by the key of a plain value is the last one that has it. -/
theorem Identifies.find (hp : M.Identifies key? p field n) (hs : Sound s)
    (hready : s.Ready scope.context k field Entity.Shown) :
    ∃ found s₁, M.findUnique scope p s = (found, s₁) ∧ Sound s₁ ∧
      Loads s s₁ scope.context k (s.rowsNamed scope.context k) ∧
      (∀ h, found = some h →
        (∃ pending, (s₁.registry scope.context).get? h.id.key = some ⟨k, h, pending⟩) ∧
          Table.Last key? (s.seen? scope.context k) n h.id.key) ∧
      (found = none → Table.Missing key? (s.seen? scope.context k) n) := by
  have hfetch' := fun value => hp.fetch hs scope hready value
  rcases hp with ⟨value, hkey, hpayload⟩
  rcases hfetch' value with ⟨found, s₁, hfetch⟩
  have hspec := fetch_spec hs scope k (.matching (T.entityName k) (.equals field value))
  rw [hfetch] at hspec
  have hs₁ : Sound s₁ := hspec.1.sound hs
  have hfetches := hspec.2 found s₁ rfl
  have hloads := hfetches.loads
  have hready₁ : s₁.Ready scope.context k field Entity.Shown :=
    hready.loads hs (fun v temporary => (Entity.unused_new k v temporary).shown) hloads
  -- whatever has the key is in memory now, and among the results
  have hcarrier : ∀ key v, s.seen? scope.context k key = some v → key? v = some n →
      ∃ h ∈ found, h.id.key = key := by
    intro key v hv hkeyed
    rw [← hloads.seen?_eq hs] at hv
    rcases entry_of_seen? hs₁ hfetches hv with ⟨h, pending, rfl, he⟩
    exact ⟨h, (mem_found_iff hpayload hs₁ hready₁ hfetches).2 ⟨⟨pending, he⟩, v, hv, hkeyed⟩, rfl⟩
  refine ⟨_, s₁, findUnique_of_fetch hkey hfetch, hs₁, hloads, ?_, ?_⟩
  · intro h hlast
    rcases (mem_found_iff hpayload hs₁ hready₁ hfetches).1 (List.mem_of_getLast? hlast) with
      ⟨hentry, v, hv, hkeyed⟩
    refine ⟨hentry, ⟨v, ?_, hkeyed⟩, ?_⟩
    · rw [← hloads.seen?_eq hs]
      exact hv
    · intro key w hw hkeyed'
      rcases hcarrier key w hw hkeyed' with ⟨h', hmem, rfl⟩
      rcases last_of_pairwise (hfetches.sorted hs₁ rfl) hmem with ⟨last, hlast', hle⟩
      cases hlast.symm.trans hlast'
      rcases hle with rfl | hlt
      · exact UInt64.le_refl _
      · exact UInt64.le_of_lt hlt
  · intro hnone key v hv hkeyed
    rcases hcarrier key v hv hkeyed with ⟨h, hmem, _⟩
    rw [List.getLast?_eq_none_iff] at hnone
    rw [hnone] at hmem
    cases hmem

/-- The entity that a plain value is to be filled into: the last one of its key, or else a new one.
Nothing else is seen differently. -/
structure Targets (s : Session T) (c : ContextId) (key? : T.Value k → Option N) (n : N)
    (h : Handle k) (s₁ : Session T) : Prop where
  target : Table.Target key? (s.seen? c k) n h.id.key
  entry : ∃ pending, (s₁.registry c).get? h.id.key = some ⟨k, h, pending⟩
  seen : s₁.seen? c k h.id.key = some ((s.seen? c k h.id.key).getD (T.blank k))
  others : ∀ key, key ≠ h.id.key → s₁.seen? c k key = s.seen? c k key
  made : s.seen? c k h.id.key = none → s.entities.size ≤ h.slot ∧
    (s₁.registry c).get? h.id.key = some ⟨k, h, true⟩
  leaves : ∃ slots, s.Leaves s₁ c slots ∧ ∀ n ∈ slots, n = h.slot ∧ s.seen? c k h.id.key = none
  adds : s.Adds s₁ c k

theorem Targets.leaves_others {c : ContextId} {h : Handle k} (htargets : Targets s c key? n h s₁) :
    s.Leaves s₁ c [h.slot] := by
  rcases htargets.leaves with ⟨slots, hleaves, hslots⟩
  exact hleaves.mono fun n hn => List.mem_singleton.2 (hslots n hn).1

/-- When the target is changed, all else is left alone still. -/
theorem Targets.leaves_modifyEntity {c : ContextId} {h : Handle k}
    (htargets : Targets s c key? n h s₁) (f : Entity T → Entity T) (journal : Array Event) :
    s.Leaves { s₁.modifyEntity h.slot f with journal } c [h.slot] := by
  refine (htargets.leaves_others.trans (Leaves.modifyEntity s₁ c h.slot f journal)).mono ?_
  intro n hn
  rcases List.mem_append.1 hn with hslot | hslot <;> exact hslot

theorem Identifies.findOrInsert (hp : M.Identifies key? p field n) (hs : Sound s)
    (hnumbered : Numbered s) {P : Entity T → Prop} (hshown : ∀ m, P m → m.Shown)
    (hnew : ∀ (v : T.Value k) (temporary : Bool), P (.new k v temporary))
    (hready : s.Ready scope.context k field P) :
    ∃ h s₁, M.findOrInsertUnique scope p s = (some h, s₁) ∧ Sound s₁ ∧
      s₁.Ready scope.context k field P ∧ Targets s scope.context key? n h s₁ := by
  rcases hp.find hs (hready.mono hshown) with ⟨found, s₁, hfind, hs₁, hloads, hfound, hmissing⟩
  have hready₁ : s₁.Ready scope.context k field P := hready.loads hs hnew hloads
  have hseen : ∀ key, s₁.seen? scope.context k key = s.seen? scope.context k key :=
    fun _ => hloads.seen?_eq hs
  cases found with
  | some h =>
    rcases hfound h rfl with ⟨hentry, hlast⟩
    rcases hlast.entry with ⟨v, hv, _⟩
    refine ⟨h, s₁, findOrInsertUnique_of_found hfind, hs₁, hready₁, Or.inl hlast, hentry, ?_,
      fun key _ => hseen key, ?_, ?_, Adds.of_loads hloads⟩
    · rw [hseen, hv]
      rfl
    · intro hnone
      cases hv.symm.trans hnone
    · exact ⟨[], Leaves.of_loads hloads, fun _ hn => absurd hn List.not_mem_nil⟩
  | none =>
    -- the type is described, so an insertion cannot fail
    rcases insert_cases scope k s₁ with ⟨fault, _, hfault⟩ | ⟨store, hstore, hinsert⟩
    · rcases hready₁.described with ⟨d, hd, _⟩
      cases hfault.symm.trans hd
    · rcases (hloads.numbered hs hnumbered).unused hs₁ hstore with ⟨hunused, hrow⟩
      -- the key is new to the registry and to the rows
      have hfresh : s.seen? scope.context k store.nextKey = none := by
        rw [← hseen, seen?_of_row hunused, hrow]
        rfl
      have hentry : ((s₁.insertUnder scope.context k store.nextKey).registry scope.context).get?
          store.nextKey = some ⟨k, ⟨s₁.entities.size, ⟨T.entityName k, store.nextKey⟩,
            scope.context⟩, true⟩ := get?_insertUnder_new hstore
      have hresult : M.findOrInsertUnique scope p s =
          (some ⟨s₁.entities.size, ⟨T.entityName k, store.nextKey⟩, scope.context⟩,
            s₁.insertUnder scope.context k store.nextKey) := by
        rw [findOrInsertUnique_of_none hfind]
        simp only [Scope.insertOrReport, Work.bind_apply, hinsert]
        rfl
      refine ⟨_, _, hresult, hs₁.insertUnder hstore k _, hready₁.insertUnder hs₁ hnew hstore,
        Or.inr ⟨hfresh, hmissing rfl⟩, ⟨true, hentry⟩, ?_, ?_, ?_, ?_,
        (Adds.of_loads hloads).trans (Adds.insertUnder hstore)⟩
      · rw [hfresh, seen?_of_entry hentry rfl entity?_insertUnder_new rfl, value_new]
        rfl
      · intro key hkey
        rw [seen?_insertUnder_of_ne hs₁ hstore hkey, hseen]
      · exact fun _ => ⟨hloads.size, hentry⟩
      · refine ⟨_, (Leaves.of_loads hloads).trans (Leaves.insertUnder hstore hunused), ?_⟩
        exact fun n hn => ⟨List.mem_singleton.1 hn, hfresh⟩

end Mapping

end Reconcile
