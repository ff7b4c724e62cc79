import Reconcile.Proofs.Session.Sound
import Reconcile.Proofs.Session.Work

/-!
# Reading rows into a registry

Reading rows only adds: entities to the memory, and entries for rows that the registry did not have
(`Grows`, `Loads`).  Every entry that is added holds what its row reads as (`ReadFrom`).
-/

namespace Reconcile

namespace Session

variable {T : Model} {s s' s'' : Session T} {c d : ContextId} {k : T.Kind}

/-! ## Sessions that grow -/

/-- A session with further entities and further entries, and with the same stores. -/
structure Grows (s s' : Session T) : Prop where
  stores : s'.stores = s.stores
  opened : s'.opened = s.opened
  storeIdOf? : ∀ d, s'.storeIdOf? d = s.storeIdOf? d
  size : s.entities.size ≤ s'.entities.size
  entity? : ∀ n, n < s.entities.size → s'.entity? n = s.entity? n
  registry : ∀ d key e, (s.registry d).get? key = some e → (s'.registry d).get? key = some e

namespace Grows

theorem refl (s : Session T) : Grows s s :=
  ⟨rfl, rfl, fun _ => rfl, Nat.le_refl _, fun _ _ => rfl, fun _ _ _ he => he⟩

theorem trans (h : Grows s s') (h' : Grows s' s'') : Grows s s'' where
  stores := h'.stores.trans h.stores
  opened := h'.opened.trans h.opened
  storeIdOf? d := (h'.storeIdOf? d).trans (h.storeIdOf? d)
  size := Nat.le_trans h.size h'.size
  entity? n hn := (h'.entity? n (Nat.lt_of_lt_of_le hn h.size)).trans (h.entity? n hn)
  registry d key e he := h'.registry d key e (h.registry d key e he)

theorem journal (s : Session T) (journal : Array Event) : Grows s { s with journal } :=
  ⟨rfl, rfl, fun _ => rfl, Nat.le_refl _, fun _ _ => rfl, fun _ _ _ he => he⟩

theorem entity (h : Grows s s') {n : Nat} {m : Entity T} (hm : s.entity? n = some m) :
    s'.entity? n = some m :=
  (h.entity? n (lt_size_of_entity? hm)).trans hm

theorem store? (h : Grows s s') (i : StoreId) : s'.store? i = s.store? i := by
  rw [Session.store?, h.stores, Session.store?]

theorem storeOf? (h : Grows s s') (d : ContextId) : s'.storeOf? d = s.storeOf? d := by
  rw [storeOf?_eq, storeOf?_eq, h.storeIdOf?]
  cases s.storeIdOf? d with
  | none => rfl
  | some i => exact h.store? i

theorem rowsOf (h : Grows s s') (d : ContextId) : s'.rowsOf d = s.rowsOf d := by
  rw [Session.rowsOf, h.storeOf?, Session.rowsOf]

theorem schemaOf (h : Grows s s') (d : ContextId) : s'.schemaOf d = s.schemaOf d := by
  rw [Session.schemaOf, h.storeOf?, Session.schemaOf]

theorem settingsOf (h : Grows s s') (d : ContextId) : s'.settingsOf d = s.settingsOf d := by
  rw [Session.settingsOf, h.storeOf?, Session.settingsOf]

end Grows

/-! ## Entries made from rows -/

/-- The entry holds what the row reads as in the context. -/
structure ReadFrom (s : Session T) (c : ContextId) (k : T.Kind) (row : Row) (e : Entry T) :
    Prop where
  entry : ∃ n, e = ⟨k, ⟨n, row.id, c⟩, false⟩
  value : ∃ v : T.Value k, T.decode k (some c) row.payload = some v ∧
    s.entity? e.slot = some (.new k v false)

/-- Reading some of these rows into a registry. -/
structure Loads (s s' : Session T) (c : ContextId) (k : T.Kind) (rows : List (UInt64 × Row)) :
    Prop extends Grows s s' where
  entry : ∀ d key e, (s'.registry d).get? key = some e → (s.registry d).get? key = some e ∨
    (d = c ∧ s.entities.size ≤ e.slot ∧ (s.registry d).get? key = none ∧
      ∃ row, (key, row) ∈ rows ∧ s'.ReadFrom c k row e)

theorem Loads.refl (s : Session T) (c : ContextId) (k : T.Kind) (rows : List (UInt64 × Row)) :
    Loads s s c k rows :=
  ⟨Grows.refl s, fun _ _ _ he => Or.inl he⟩

theorem Loads.journal (s : Session T) (c : ContextId) (k : T.Kind) (rows : List (UInt64 × Row))
    (journal : Array Event) : Loads s { s with journal } c k rows :=
  ⟨Grows.journal s journal, fun _ _ _ he => Or.inl he⟩

theorem ReadFrom.grows {row : Row} {e : Entry T} (h : s.ReadFrom c k row e) (hgrows : Grows s s') :
    s'.ReadFrom c k row e := by
  rcases h.value with ⟨v, hdecode, hentity⟩
  exact ⟨h.entry, v, hdecode, hgrows.entity hentity⟩

theorem ReadFrom.id_eq {row : Row} {e : Entry T} (h : s.ReadFrom c k row e) : e.id = row.id := by
  rcases h.entry with ⟨n, rfl⟩
  rfl

theorem ReadFrom.kind_eq {row : Row} {e : Entry T} (h : s.ReadFrom c k row e) : e.kind = k := by
  rcases h.entry with ⟨n, rfl⟩
  rfl

theorem Loads.mono {rows rows' : List (UInt64 × Row)} (h : Loads s s' c k rows)
    (hsub : ∀ entry ∈ rows, entry ∈ rows') : Loads s s' c k rows' := by
  refine ⟨h.toGrows, ?_⟩
  intro d key e he
  rcases h.entry d key e he with hold | ⟨hd, hslot, hnone, row, hrow, hread⟩
  · exact Or.inl hold
  · exact Or.inr ⟨hd, hslot, hnone, row, hsub _ hrow, hread⟩

theorem Loads.trans {rows : List (UInt64 × Row)} (h : Loads s s' c k rows)
    (h' : Loads s' s'' c k rows) : Loads s s'' c k rows := by
  refine ⟨h.toGrows.trans h'.toGrows, ?_⟩
  intro d key e he
  rcases h'.entry d key e he with hmid | ⟨hd, hslot, hnone, row, hrow, hread⟩
  · rcases h.entry d key e hmid with hold | ⟨hd, hslot, hnone, row, hrow, hread⟩
    · exact Or.inl hold
    · exact Or.inr ⟨hd, hslot, hnone, row, hrow, hread.grows h'.toGrows⟩
  · refine Or.inr ⟨hd, Nat.le_trans h.size hslot, ?_, row, hrow, hread⟩
    cases hold : (s.registry d).get? key with
    | none => rfl
    | some old =>
      rw [h.registry d key old hold] at hnone
      cases hnone

theorem loads_enroll {ctx : Context T} (hctx : s.context? c = some ctx) {row : Row} {v : T.Value k}
    (hnew : (s.registry c).get? row.id.key = none)
    (hdecode : T.decode k (some c) row.payload = some v) :
    Loads s (s.enroll c k row.id v false) c k [(row.id.key, row)] := by
  have hgrows : Grows s (s.enroll c k row.id v false) := by
    refine ⟨stores_enroll, opened_enroll, fun _ => storeIdOf?_enroll, ?_,
      fun n hn => entity?_enroll_of_lt hn, ?_⟩
    · rw [size_enroll]
      exact Nat.le_succ _
    · intro d key e he
      refine (get?_registry_enroll_of_ne hctx ?_).trans he
      rintro rfl rfl
      cases he.symm.trans hnew
  refine ⟨hgrows, ?_⟩
  intro d key e he
  rcases entry_of_enroll hctx he with ⟨rfl, rfl, rfl⟩ | hold
  · exact Or.inr ⟨rfl, Nat.le_refl _, hnew, row, List.mem_singleton_self _,
      ⟨_, rfl⟩, v, hdecode, entity?_enroll_new⟩
  · exact Or.inl hold

theorem Loads.kind {rows : List (UInt64 × Row)} (h : Loads s s' c k rows) (hs : Sound s)
    {d : ContextId} {key : UInt64} {e : Entry T} (he : (s'.registry d).get? key = some e)
    {m : Entity T} (hm : s'.entity? e.slot = some m) : m.kind = e.kind := by
  rcases h.entry d key e he with hold | ⟨_, _, _, row, _, hread⟩
  · rcases (hs.lodged hold).entity with ⟨m', hm', hkind⟩
    cases hm.symm.trans (h.entity hm')
    exact hkind
  · rcases hread with ⟨⟨n, rfl⟩, v, _, hentity⟩
    cases hm.symm.trans hentity
    rfl

/-! ## Adopting rows -/

section Adopt

variable {scope : Scope} {row : Row} {rest : List (UInt64 × Row)} {key : UInt64}

theorem materialize_of_decoded {v : T.Value k}
    (h : T.decode k (some scope.context) row.payload = some v) :
    (scope.materialize k row).outcome s =
      (.ok ⟨s.entities.size, row.id, scope.context⟩,
        s.enroll scope.context k row.id v false) := by
  unfold Scope.materialize
  rw [h]
  rfl

/-- The fault of a row that cannot be read. -/
def unreadable (k : T.Kind) (row : Row) : Fault :=
  .query (T.entityName k) (.undecodable row.id "the payload is none of this type")

theorem materialize_of_undecodable (h : T.decode k (some scope.context) row.payload = none) :
    (scope.materialize k row).outcome s = (.error (unreadable k row), s) := by
  unfold Scope.materialize
  rw [h]
  rfl

theorem adoptRows_cons_of_registered (h : (s.registry scope.context).contains key = true) :
    (scope.adoptRows k ((key, row) :: rest)).outcome s = (scope.adoptRows k rest).outcome s := by
  rw [Scope.adoptRows, Attempt.outcome_bind_of_ok (Attempt.outcome_get s), h]
  rfl

theorem adoptRows_cons_of_decoded {v : T.Value k}
    (h : (s.registry scope.context).contains key = false)
    (hdecode : T.decode k (some scope.context) row.payload = some v) :
    (scope.adoptRows k ((key, row) :: rest)).outcome s =
      (scope.adoptRows k rest).outcome (s.enroll scope.context k row.id v false) := by
  rw [Scope.adoptRows, Attempt.outcome_bind_of_ok (Attempt.outcome_get s), h]
  show (scope.materialize k row >>= fun _ => scope.adoptRows k rest).outcome s = _
  exact Attempt.outcome_bind_of_ok (materialize_of_decoded hdecode)

theorem adoptRows_cons_of_undecodable (h : (s.registry scope.context).contains key = false)
    (hdecode : T.decode k (some scope.context) row.payload = none) :
    (scope.adoptRows k ((key, row) :: rest)).outcome s = (.error (unreadable k row), s) := by
  rw [Scope.adoptRows, Attempt.outcome_bind_of_ok (Attempt.outcome_get s), h]
  show (scope.materialize k row >>= fun _ => scope.adoptRows k rest).outcome s = _
  exact Attempt.outcome_bind_of_error (materialize_of_undecodable hdecode)

/-- The rows are rows of the context, of entities of the type. -/
def RowsFor (s : Session T) (c : ContextId) (k : T.Kind) (rows : List (UInt64 × Row)) : Prop :=
  ∀ key row, (key, row) ∈ rows →
    row.id = ⟨T.entityName k, key⟩ ∧ (s.rowsOf c).row? row.id = some row

theorem RowsFor.grows {rows : List (UInt64 × Row)} (h : s.RowsFor c k rows) (hgrows : Grows s s') :
    s'.RowsFor c k rows := by
  intro key row hrow
  rw [hgrows.rowsOf]
  exact h key row hrow

/-- What adopting rows does, whether it gets to their end or not. -/
structure Adopts (s : Session T) (c : ContextId) (k : T.Kind) (rows : List (UInt64 × Row))
    (out : Except Fault Unit × Session T) : Prop where
  run : Run Deed.Reading s out.2
  loads : Loads s out.2 c k rows
  complete : out.1 = .ok () → ∀ key row, (key, row) ∈ rows →
    (out.2.registry c).contains key = true
  succeeds : (∀ key row, (key, row) ∈ rows → (s.registry c).get? key = none →
    (T.decode k (some c) row.payload).isSome) → out.1 = .ok ()

theorem contains_of_grows (h : Grows s s') (hkey : (s.registry d).contains key = true) :
    (s'.registry d).contains key = true := by
  rcases Option.isSome_iff_exists.1 hkey with ⟨e, he⟩
  exact Option.isSome_iff_exists.2 ⟨e, h.registry d key e he⟩

/-! ### One row -/

section Adopts

variable {out : Except Fault Unit × Session T}

/-- A row whose key is registered is passed over. -/
theorem Adopts.skip (h : s.Adopts c k rest out) (hregistered : (s.registry c).contains key = true) :
    s.Adopts c k ((key, row) :: rest) out where
  run := h.run
  loads := h.loads.mono fun _ => List.mem_cons_of_mem _
  complete hok key' row' hrow' := by
    rcases List.mem_cons.1 hrow' with heq | htail
    · cases heq
      exact contains_of_grows h.loads.toGrows hregistered
    · exact h.complete hok key' row' htail
  succeeds hdecodes :=
    h.succeeds fun key' row' hrow' => hdecodes key' row' (List.mem_cons_of_mem _ hrow')

theorem adopts_error (hnew : (s.registry c).get? key = none)
    (hdecode : T.decode k (some c) row.payload = none) (fault : Fault) :
    s.Adopts c k ((key, row) :: rest) (.error fault, s) where
  run := Run.refl s
  loads := Loads.refl s _ k _
  complete hok := by cases hok
  succeeds hdecodes := by
    have hsome := hdecodes key row List.mem_cons_self hnew
    rw [hdecode] at hsome
    cases hsome

/-- A row that was not read yet is read before the others. -/
theorem Adopts.load {v : T.Value k} (hrow : (s.rowsOf c).row? row.id = some row)
    (hid : row.id = ⟨T.entityName k, key⟩) (hnew : (s.registry c).get? row.id.key = none)
    (hdecode : T.decode k (some c) row.payload = some v)
    (h : Adopts (s.enroll c k row.id v false) c k rest out) :
    s.Adopts c k ((key, row) :: rest) out := by
  have hkey : row.id.key = key := congrArg EntityId.key hid
  rcases storeOf?_of_row? hrow with ⟨store, hstore, _⟩
  rcases isOpen_of_storeOf? hstore with ⟨ctx, hctx, _⟩
  have hloads := loads_enroll hctx hnew hdecode
  have hstep : Step s (.loaded s.entities.size row) (s.enroll c k row.id v false) :=
    Step.load hrow (congrArg EntityId.entity hid) hnew hdecode
  have hfirst : Loads s (s.enroll c k row.id v false) c k ((key, row) :: rest) := by
    refine hloads.mono ?_
    intro entry hentry
    rw [List.mem_singleton.1 hentry, hkey]
    exact List.mem_cons_self
  constructor
  case run => exact (hstep.run trivial).trans h.run
  case loads => exact hfirst.trans (h.loads.mono fun _ => List.mem_cons_of_mem _)
  case complete =>
    intro hok key' row' hrow'
    rcases List.mem_cons.1 hrow' with heq | htail
    · cases heq
      have hentry : ((s.enroll c k row.id v false).registry c).get? row.id.key = some _ :=
        get?_registry_enroll_new hctx
      rw [hkey] at hentry
      exact contains_of_grows h.loads.toGrows (Option.isSome_iff_exists.2 ⟨_, hentry⟩)
    · exact h.complete hok key' row' htail
  case succeeds =>
    intro hdecodes
    refine h.succeeds ?_
    intro key' row' hrow' hnone
    refine hdecodes key' row' (List.mem_cons_of_mem _ hrow') ?_
    -- what is not registered after the first row was not registered before
    cases hold : (s.registry c).get? key' with
    | none => rfl
    | some old => cases (hloads.registry _ _ _ hold).symm.trans hnone

end Adopts

theorem adopts (scope : Scope) (k : T.Kind) (rows : List (UInt64 × Row)) (s : Session T)
    (hrows : s.RowsFor scope.context k rows) :
    s.Adopts scope.context k rows ((scope.adoptRows k rows).outcome s) := by
  induction rows generalizing s with
  | nil =>
    exact ⟨Run.refl s, Loads.refl s _ k [], fun _ _ _ hrow => absurd hrow List.not_mem_nil,
      fun _ => rfl⟩
  | cons entry rest ih =>
    rcases entry with ⟨key, row⟩
    have hrest : s.RowsFor scope.context k rest :=
      fun key row hrow => hrows key row (List.mem_cons_of_mem _ hrow)
    rcases hrows key row List.mem_cons_self with ⟨hid, hget⟩
    cases hregistered : (s.registry scope.context).contains key with
    | true =>
      rw [adoptRows_cons_of_registered hregistered]
      exact (ih s hrest).skip hregistered
    | false =>
      have hnew : (s.registry scope.context).get? key = none :=
        SortedMap.contains_eq_false_iff.1 hregistered
      cases hdecode : T.decode k (some scope.context) row.payload with
      | none =>
        rw [adoptRows_cons_of_undecodable hregistered hdecode]
        exact adopts_error hnew hdecode _
      | some v =>
        rw [adoptRows_cons_of_decoded hregistered hdecode]
        have hnew' : (s.registry scope.context).get? row.id.key = none := by
          rw [hid]
          exact hnew
        rcases storeOf?_of_row? hget with ⟨store, hstore, _⟩
        rcases isOpen_of_storeOf? hstore with ⟨ctx, hctx, _⟩
        have hgrows := (loads_enroll hctx hnew' hdecode).toGrows
        exact (ih _ (hrest.grows hgrows)).load hget hid hnew' hdecode

end Adopt

end Session

end Reconcile
