import Reconcile.Proofs.Query.Order
import Reconcile.Proofs.Session.Committing
import Reconcile.Proofs.Session.Selecting

/-!
# Fetching

A fetch reads the rows of its type that the registry does not have, and then answers with the
entries that match (`Fetches`).  Whatever becomes of it, it only reads.
-/

namespace Reconcile

namespace Session

variable {T : Model} {s s' : Session T} {c : ContextId} {k : T.Kind} {q : Query} {scope : Scope}

/-- The rows of a type that a context reads, by key. -/
def rowsNamed (s : Session T) (c : ContextId) (k : T.Kind) : List (UInt64 × Row) :=
  ((s.rowsOf c).ofEntity (T.entityName k)).toList

theorem mem_rowsNamed_iff {key : UInt64} {row : Row} :
    (key, row) ∈ s.rowsNamed c k ↔ (s.rowsOf c).row? ⟨T.entityName k, key⟩ = some row := by
  rw [rowsNamed, SortedMap.mem_toList_iff, Rows.row?_eq_ofEntity]

theorem rowsNamed_of_grows (h : Grows s s') : s'.rowsNamed c k = s.rowsNamed c k := by
  rw [rowsNamed, h.rowsOf, rowsNamed]

theorem Sound.rowsFor (h : Sound s) (c : ContextId) (k : T.Kind) :
    s.RowsFor c k (s.rowsNamed c k) := by
  intro key row hrow
  have hget := mem_rowsNamed_iff.1 hrow
  have hid : row.id = ⟨T.entityName k, key⟩ := h.filed_rowsOf c _ row hget
  exact ⟨hid, hid ▸ hget⟩

/-- Pending entities take part in fetches of the context. -/
def takesPending (s : Session T) (c : ContextId) : Bool := (s.settingsOf c).includePending

/-- The matches of a query in the registry of a context, in the order of their keys. -/
def matchesOf (s : Session T) (c : ContextId) (k : T.Kind) (q : Query) : List (Handle k × Json) :=
  (s.registry c).values.filterMap (s.matchOf? k q (s.takesPending c))

/-- A registry is kept by key, and matching keeps the order. -/
theorem Sound.pairwise_matchesOf (h : Sound s) (c : ContextId) (k : T.Kind) (q : Query) :
    (s.matchesOf c k q).Pairwise fun a b => a.1.id.key < b.1.id.key := by
  have hkeys : ∀ entry ∈ (s.registry c).toList, entry.2.id.key = entry.1 := by
    intro entry hentry
    exact (h.lodged (SortedMap.mem_toList_iff.1 hentry)).key
  have hvalues : (s.registry c).values.Pairwise fun a b => a.id.key < b.id.key := by
    rw [SortedMap.values, List.pairwise_map]
    refine List.Pairwise.imp_of_mem ?_ (s.registry c).sorted
    intro a b ha hb hlt
    rw [hkeys a ha, hkeys b hb]
    exact Std.compare_eq_lt.1 hlt
  rw [matchesOf, List.pairwise_filterMap]
  refine hvalues.imp ?_
  intro a b hlt m hm m' hm'
  rw [(matchOf?_eq_some hm).1, (matchOf?_eq_some hm').1]
  exact hlt

/-- The matches in the order that the query asks for. -/
def Query.arrange {k : T.Kind} (q : Query) (found : List (Handle k × Json)) :
    List (Handle k × Json) :=
  if q.order.isEmpty then found
  else sortStable (fun a b => SortTerm.compareBy q.order a.2 b.2) found

theorem Query.perm_arrange (q : Query) (found : List (Handle k × Json)) :
    (Query.arrange q found).Perm found := by
  unfold Query.arrange
  split
  · exact List.Perm.refl _
  · exact perm_sortStable found

theorem Query.mem_arrange {q : Query} {found : List (Handle k × Json)} {m : Handle k × Json} :
    m ∈ Query.arrange q found ↔ m ∈ found :=
  (Query.perm_arrange q found).mem_iff

/-- The query is one for the type, and the schema has the attributes it names. -/
def Askable (s : Session T) (c : ContextId) (k : T.Kind) (q : Query) : Prop :=
  q.entity = T.entityName k ∧ ∃ d, (s.schemaOf c).require (T.entityName k) = .ok d ∧
    d.checkKeys q.keys = .ok ()

/-- A type can be asked for the entities that have a value under an attribute. -/
theorem askable_matching {d : Description} {field : String}
    (hd : (s.schemaOf c).require (T.entityName k) = .ok d)
    (hfield : (d.attribute? field).isSome) (value : Json) :
    s.Askable c k (.matching (T.entityName k) (.equals field value)) := by
  refine ⟨rfl, d, hd, ?_⟩
  rcases Option.isSome_iff_exists.1 hfield with ⟨a, ha⟩
  have hqueryable : d.queryable field = .ok a := by rw [Description.queryable, ha]
  show d.checkKeys [field] = .ok ()
  rw [Description.checkKeys, hqueryable]
  rfl

/-- The part of a fetch that follows the checks. -/
def answer (scope : Scope) (k : T.Kind) (q : Query) (rows : List (UInt64 × Row)) :
    Attempt T (List (Handle k)) := do
  scope.adoptRows k rows
  let s ← get
  let found ← Scope.selectMatches k q (s.takesPending scope.context)
    (s.registry scope.context).values
  modify (·.report (.fetched (T.entityName k) scope.context (Query.arrange q found).length))
  return (Query.arrange q found).map (·.1)

theorem fetch_of_askable (h : s.Askable scope.context k q) : (scope.fetch k q).outcome s =
    (answer scope k q (s.rowsNamed scope.context k)).outcome s := by
  rcases h with ⟨htarget, d, hd, hkeys⟩
  unfold Scope.fetch
  rw [if_neg (not_not.2 htarget)]
  refine (Attempt.outcome_bind_of_ok (Attempt.outcome_get s)).trans ?_
  rw [hd]
  refine (Attempt.outcome_bind_of_ok (Attempt.outcome_ofExcept _ s)).trans ?_
  rw [hkeys]
  refine (Attempt.outcome_bind_of_ok (Attempt.outcome_ofExcept _ s)).trans ?_
  exact Attempt.outcome_bind_of_ok (Attempt.outcome_get s)

/-- Once the rows are read, all that a fetch does is report. -/
theorem answer_of_adopted {rows : List (UInt64 × Row)}
    (h : (scope.adoptRows k rows).outcome s = (.ok (), s')) :
    Run Deed.Reading s' ((answer scope k q rows).outcome s).2 ∧
      ∃ journal, ((answer scope k q rows).outcome s).2 = { s' with journal } := by
  have hselects := selects k q (s'.takesPending scope.context)
    (s'.registry scope.context).values s'
  have hrest : (answer scope k q rows).outcome s =
      (Scope.selectMatches k q (s'.takesPending scope.context)
        (s'.registry scope.context).values >>= fun found => do
          modify (·.report (.fetched (T.entityName k) scope.context
            (Query.arrange q found).length))
          return (Query.arrange q found).map (·.1)).outcome s' :=
    (Attempt.outcome_bind_of_ok h).trans (Attempt.outcome_bind_of_ok (Attempt.outcome_get s'))
  rw [hrest]
  refine Attempt.bind_state
    (P := fun s'' => Run Deed.Reading s' s'' ∧ ∃ journal, s'' = { s' with journal })
    ⟨hselects.run, _, hselects.quiet⟩ ?_
  intro found _
  have hselected := congrArg (fun s'' : Session T => s''.report (.fetched (T.entityName k)
    scope.context (Query.arrange q found).length)) hselects.quiet
  exact ⟨hselects.run.trans ((Step.report _ _).run trivial), _, hselected⟩

/-- What a fetch is refused for is a matter of the schema. -/
theorem fetch_of_not_askable (h : ¬ s.Askable scope.context k q) :
    ∃ fault, ∀ s' : Session T, s'.schemaOf scope.context = s.schemaOf scope.context →
      (scope.fetch k q).outcome s' = (.error fault, s') := by
  -- both checks are made before a row is read, and by the schema alone
  unfold Scope.fetch
  by_cases htarget : q.entity = T.entityName k
  · rw [if_neg (not_not.2 htarget)]
    cases hd : (s.schemaOf scope.context).require (T.entityName k) with
    | error fault =>
      refine ⟨fault, fun s' hschema => ?_⟩
      refine (Attempt.outcome_bind_of_ok (Attempt.outcome_get s')).trans ?_
      rw [hschema, hd]
      exact Attempt.outcome_bind_of_error (Attempt.outcome_ofExcept _ s')
    | ok d =>
      cases hkeys : d.checkKeys q.keys with
      | ok _ => exact absurd ⟨htarget, d, hd, hkeys⟩ h
      | error fault =>
        refine ⟨fault, fun s' hschema => ?_⟩
        refine (Attempt.outcome_bind_of_ok (Attempt.outcome_get s')).trans ?_
        rw [hschema, hd]
        refine (Attempt.outcome_bind_of_ok (Attempt.outcome_ofExcept _ s')).trans ?_
        rw [hkeys]
        exact Attempt.outcome_bind_of_error (Attempt.outcome_ofExcept _ s')
  · rw [if_pos htarget]
    exact ⟨_, fun _ _ => rfl⟩

/-- A fetch that ended well. -/
structure Fetches (s : Session T) (c : ContextId) (k : T.Kind) (q : Query)
    (found : List (Handle k)) (s' : Session T) : Prop where
  askable : s.Askable c k q
  loads : Loads s s' c k (s.rowsNamed c k)
  complete : ∀ key row, (key, row) ∈ s.rowsNamed c k → (s'.registry c).contains key = true
  found : found = (Query.arrange q (s'.matchesOf c k q)).map (·.1)
  fetchable : ∀ e ∈ (s'.registry c).values, s'.Fetchable k q (s'.takesPending c) e

theorem fetch_spec (hs : Sound s) (scope : Scope) (k : T.Kind) (q : Query) :
    Run Deed.Reading s ((scope.fetch k q).outcome s).2 ∧
      ∀ found s', (scope.fetch k q).outcome s = (.ok found, s') →
        s.Fetches scope.context k q found s' := by
  by_cases haskable : s.Askable scope.context k q
  · rw [fetch_of_askable haskable]
    have hadopts := adopts scope k _ s (hs.rowsFor scope.context k)
    -- a row that cannot be read ends the fetch
    rcases hadopt : (scope.adoptRows k (s.rowsNamed scope.context k)).outcome s with ⟨fault | _, s₁⟩
    · rw [hadopt] at hadopts
      have hout : (answer scope k q (s.rowsNamed scope.context k)).outcome s = (.error fault, s₁) :=
        Attempt.outcome_bind_of_error hadopt
      rw [hout]
      exact ⟨hadopts.run, fun found s' h => by cases h⟩
    · rw [hadopt] at hadopts
      have hselects := selects k q (s₁.takesPending scope.context)
        (s₁.registry scope.context).values s₁
      have hout : (answer scope k q (s.rowsNamed scope.context k)).outcome s =
          (Scope.selectMatches k q (s₁.takesPending scope.context)
            (s₁.registry scope.context).values >>= fun found => do
              modify (·.report (.fetched (T.entityName k) scope.context
                (Query.arrange q found).length))
              return (Query.arrange q found).map (·.1)).outcome s₁ :=
        (Attempt.outcome_bind_of_ok hadopt).trans
          (Attempt.outcome_bind_of_ok (Attempt.outcome_get s₁))
      -- and so does an entry that it cannot get past
      rcases hselect : (Scope.selectMatches k q (s₁.takesPending scope.context)
        (s₁.registry scope.context).values).outcome s₁ with ⟨fault | matched, s₂⟩
      · rw [hselect] at hselects
        rw [hout, Attempt.outcome_bind_of_error hselect]
        exact ⟨hadopts.run.trans hselects.run, fun found s' h => by cases h⟩
      · rw [hselect] at hselects
        have hend : (answer scope k q (s.rowsNamed scope.context k)).outcome s =
            (.ok ((Query.arrange q matched).map (·.1)), s₂.report (.fetched (T.entityName k)
              scope.context (Query.arrange q matched).length)) :=
          hout.trans (Attempt.outcome_bind_of_ok hselect)
        rw [hend]
        refine ⟨(hadopts.run.trans hselects.run).trans ((Step.report s₂ _).run trivial), ?_⟩
        intro found s' h
        rcases Prod.mk.inj h with ⟨hfound, hs'⟩
        cases hfound
        -- selecting only reports, so the registry is the one that was read
        have hselected : s₂ = { s₁ with journal := s₂.journal } := hselects.quiet
        have hquiet : s' = { s₁ with journal := s'.journal } := by
          rw [← hs', hselected]
          rfl
        rw [hquiet]
        refine ⟨haskable, hadopts.loads.trans (Loads.journal s₁ _ _ _ _), ?_, ?_, ?_⟩
        · exact hadopts.complete rfl
        · exact congrArg (fun found => (Query.arrange q found).map (·.1)) (hselects.found _ rfl)
        · exact hselects.fetchable _ rfl
  · rcases fetch_of_not_askable haskable with ⟨fault, hfault⟩
    rw [hfault s rfl]
    exact ⟨Run.refl s, fun found s' h => by cases h⟩

/-- However a fetch ends, all it leaves are rows that it read, and reports. -/
theorem loads_fetch (hs : Sound s) (scope : Scope) (k : T.Kind) (q : Query) :
    Loads s ((scope.fetch k q).outcome s).2 scope.context k (s.rowsNamed scope.context k) := by
  by_cases haskable : s.Askable scope.context k q
  · rw [fetch_of_askable haskable]
    have hadopts := adopts scope k _ s (hs.rowsFor scope.context k)
    refine Attempt.bind_state (P := fun s' => Loads s s' scope.context k _) hadopts.loads ?_
    intro _ _
    -- from here on there are reports only
    refine hadopts.loads.trans ?_
    refine Attempt.bind_state (P := fun s' => Loads _ s' scope.context k _) (Loads.refl _ _ k _) ?_
    intro s₁ _
    have hselects := selects k q (s₁.takesPending scope.context)
      (s₁.registry scope.context).values
      ((scope.adoptRows k (s.rowsNamed scope.context k)).outcome s).2
    refine Attempt.bind_state (P := fun s' => Loads _ s' scope.context k _) ?_ ?_
    · exact hselects.quiet ▸ Loads.journal _ _ k _ _
    · intro matched _
      refine Loads.trans ?_ (Loads.journal _ _ k _ _)
      exact hselects.quiet ▸ Loads.journal _ _ k _ _
  · rcases fetch_of_not_askable haskable with ⟨fault, hfault⟩
    rw [hfault s rfl]
    exact Loads.refl s _ k _

/-- A fetch that can be asked ends well if the rows that it reads can be read, and it can take in
every entry that it then looks at. -/
theorem fetch_ok (hs : Sound s) (scope : Scope) (haskable : s.Askable scope.context k q)
    (hdecodes : ∀ key row, (key, row) ∈ s.rowsNamed scope.context k →
      (s.registry scope.context).get? key = none →
        (T.decode k (some scope.context) row.payload).isSome)
    (hfetchable : ∀ s', Loads s s' scope.context k (s.rowsNamed scope.context k) →
      ∀ e ∈ (s'.registry scope.context).values,
        s'.Fetchable k q (s'.takesPending scope.context) e) :
    ∃ found s', (scope.fetch k q).outcome s = (.ok found, s') := by
  rw [fetch_of_askable haskable]
  have hadopts := adopts scope k _ s (hs.rowsFor scope.context k)
  have hadopted := hadopts.succeeds hdecodes
  rcases hadopt : (scope.adoptRows k (s.rowsNamed scope.context k)).outcome s with ⟨result, s₁⟩
  rw [hadopt] at hadopts hadopted
  cases hadopted
  have hselects := selects k q (s₁.takesPending scope.context)
    (s₁.registry scope.context).values s₁
  rcases hselects.succeeds (hfetchable s₁ hadopts.loads) with ⟨matched, hmatched⟩
  rcases hselect : (Scope.selectMatches k q (s₁.takesPending scope.context)
    (s₁.registry scope.context).values).outcome s₁ with ⟨result, s₂⟩
  rw [hselect] at hmatched
  cases hmatched
  have hout : (answer scope k q (s.rowsNamed scope.context k)).outcome s =
      (.ok ((Query.arrange q matched).map (·.1)), s₂.report (.fetched (T.entityName k)
        scope.context (Query.arrange q matched).length)) :=
    (Attempt.outcome_bind_of_ok hadopt).trans
      ((Attempt.outcome_bind_of_ok (Attempt.outcome_get s₁)).trans
        (Attempt.outcome_bind_of_ok hselect))
  exact ⟨_, _, hout⟩

/-! ## Results -/

section Results

variable {found : List (Handle k)} {id : EntityId}

/-- A handle is among the results if an entry with it matches. -/
theorem Fetches.mem_iff (h : s.Fetches c k q found s') (hs' : Sound s') {handle : Handle k} :
    handle ∈ found ↔ ∃ e payload, (s'.registry c).get? handle.id.key = some e ∧
      s'.matchOf? k q (s'.takesPending c) e = some (handle, payload) := by
  rw [h.found]
  constructor
  · intro hmem
    rcases List.mem_map.1 hmem with ⟨⟨handle, payload⟩, hm, rfl⟩
    rw [Query.mem_arrange] at hm
    rcases List.mem_filterMap.1 hm with ⟨e, he, hmatch⟩
    have hhandle : handle = ⟨e.handle.slot, e.handle.id, e.handle.context⟩ :=
      (matchOf?_eq_some hmatch).1
    refine ⟨e, payload, ?_, hmatch⟩
    rw [hhandle]
    exact hs'.entry_of_mem he
  · rintro ⟨e, payload, he, hmatch⟩
    refine List.mem_map.2 ⟨(handle, payload), ?_, rfl⟩
    rw [Query.mem_arrange]
    exact List.mem_filterMap.2 ⟨e, SortedMap.mem_values_iff.2 ⟨_, he⟩, hmatch⟩

/-- An id is among the results if the entry under it matches. -/
theorem Fetches.mem_ids_iff (h : s.Fetches c k q found s') (hs' : Sound s') :
    id ∈ found.map Handle.id ↔ ∃ e, (s'.registry c).get? id.key = some e ∧ e.id = id ∧
      (s'.matchOf? k q (s'.takesPending c) e).isSome := by
  constructor
  · intro hmem
    rcases List.mem_map.1 hmem with ⟨handle, hhandle, rfl⟩
    rcases (h.mem_iff hs').1 hhandle with ⟨e, payload, he, hmatch⟩
    have hid : handle = ⟨e.handle.slot, e.handle.id, e.handle.context⟩ :=
      (matchOf?_eq_some hmatch).1
    exact ⟨e, he, by rw [hid]; rfl, by rw [hmatch]; rfl⟩
  · rintro ⟨e, he, rfl, hsome⟩
    rcases Option.isSome_iff_exists.1 hsome with ⟨⟨handle, payload⟩, hm⟩
    have hid : handle = ⟨e.handle.slot, e.handle.id, e.handle.context⟩ := (matchOf?_eq_some hm).1
    refine List.mem_map.2 ⟨handle, (h.mem_iff hs').2 ⟨e, payload, ?_, hm⟩, ?_⟩
    · rw [hid]
      exact he
    · rw [hid]
      rfl

/-- The results of an unsorted fetch stand in the order of their keys. -/
theorem Fetches.sorted (h : s.Fetches c k q found s') (hs' : Sound s')
    (horder : q.order.isEmpty = true) : found.Pairwise fun a b => a.id.key < b.id.key := by
  have hfound : found = (s'.matchesOf c k q).map (·.1) := by
    rw [h.found, Query.arrange, if_pos horder]
  rw [hfound, List.pairwise_map]
  exact hs'.pairwise_matchesOf c k q

theorem last_of_pairwise {α : Type} {r : α → α → Prop} {as : List α} (h : as.Pairwise r) {a : α}
    (ha : a ∈ as) : ∃ last, as.getLast? = some last ∧ (last = a ∨ r a last) := by
  rcases List.eq_nil_or_concat as with rfl | ⟨init, last, rfl⟩
  · cases ha
  · rw [List.concat_eq_append] at ha h ⊢
    refine ⟨last, List.getLast?_concat, ?_⟩
    rcases List.mem_append.1 ha with hinit | hlast
    · exact Or.inr ((List.pairwise_append.1 h).2.2 a hinit last List.mem_cons_self)
    · exact Or.inl (List.mem_singleton.1 hlast).symm

end Results

end Session

end Reconcile
