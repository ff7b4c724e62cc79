import Reconcile.Proofs.Query.Sorting
import Reconcile.Proofs.Session.Identity
import Reconcile.Proofs.Sample.Tags

/-!
# What a fetch answers

A fetch is a question about the session before it: which entities of a type does the context have
registered or can it read from rows, what do others see of them (`Presents`), and which of these
does the query accept.  The answer has each of them once, in the order that the query asks for, and
asking again gets the same answer (`Answers`).

There is no answer if something stands in the way of the question: an entity or a row of the type
whose payload cannot be had, or an entity of another type that is accepted under the name
(`Answerable`).
-/

namespace Reconcile

namespace Session

variable {T : Model} {s s' : Session T} {c d : ContextId} {k : T.Kind} {q : Query}
  {id : EntityId} {key : UInt64} {e : Entry T} {pending : Bool} {found : List (Handle k)}
  {row : Row} {payload : Json} {binding : Bool}

/-! ## Entries and their entities -/

section Congruence

variable (hentity : s'.entity? e.slot = s.entity? e.slot)

include hentity

theorem entryDeleted_congr : s'.entryDeleted e = s.entryDeleted e := by
  have hslot : s'.entity? e.handle.slot = s.entity? e.handle.slot := hentity
  simp [entryDeleted, isDeleted, hslot]

theorem visibleOf_congr : s'.visibleOf e = s.visibleOf e := by
  simp [visibleOf, hentity]

theorem fetchable_congr : s'.Fetchable k q pending e ↔ s.Fetchable k q pending e := by
  simp [Fetchable, Eligible, entryDeleted_congr hentity, visibleOf_congr hentity]

theorem matchOf?_congr : s'.matchOf? k q pending e = s.matchOf? k q pending e := by
  simp [matchOf?, Eligible, entryDeleted_congr hentity, visibleOf_congr hentity]

end Congruence

theorem Grows.takesPending (hgrows : Grows s s') (c : ContextId) :
    s'.takesPending c = s.takesPending c := by
  simp [Session.takesPending, hgrows.settingsOf]

theorem Grows.askable (hgrows : Grows s s') (haskable : s.Askable c k q) : s'.Askable c k q := by
  simpa [Askable, hgrows.schemaOf] using haskable

/-- What was just read is live and committed, and shows the payload of its value. -/
theorem ReadFrom.shows (hread : s.ReadFrom c k row e) : ∃ v : T.Value k,
    T.decode k (some c) row.payload = some v ∧ s.entryDeleted e = false ∧ e.pending = false ∧
      s.visibleOf e = some (Model.payload v) := by
  rcases hread.value with ⟨v, hdecode, hm⟩
  rcases hread.entry with ⟨n, rfl⟩
  refine ⟨v, hdecode, entryDeleted_of_entity? hm, rfl, ?_⟩
  rw [visibleOf, hm]
  rfl

/-! ## What a fetch is about -/

/-- Others see this payload of the entity of the id, which is of the type, live and wanted: the
context has it registered, or it has a committed row that the context has not read. -/
inductive Presents (s : Session T) (c : ContextId) (k : T.Kind) (id : EntityId)
    (payload : Json) : Prop where
  | registered {e : Entry T} (he : (s.registry c).get? id.key = some e) (hid : e.id = id)
      (hkind : e.kind = k) (hlive : s.entryDeleted e = false)
      (hwanted : e.pending = true → s.takesPending c = true)
      (hvisible : s.visibleOf e = some (.ok payload))
  | committed {row : Row} {v : T.Value k}
      (hunread : ∀ e, (s.registry c).get? id.key = some e → e.id ≠ id)
      (hname : id.entity = T.entityName k) (hrow : (s.rowsOf c).row? id = some row)
      (hdecode : T.decode k (some c) row.payload = some v)
      (hpayload : Model.payload v = .ok payload)

/-- Nothing stands in the way of the fetch. -/
structure Answerable (s : Session T) (c : ContextId) (k : T.Kind) (q : Query) : Prop where
  entries : ∀ key e, (s.registry c).get? key = some e → s.Fetchable k q (s.takesPending c) e
  rows : ∀ id row, id.entity = T.entityName k →
    (∀ e, (s.registry c).get? id.key = some e → e.id ≠ id) → (s.rowsOf c).row? id = some row →
      ∃ (v : T.Value k) (payload : Json), T.decode k (some c) row.payload = some v ∧
        Model.payload v = .ok payload

/-! ## When there is an answer -/

theorem answerable_iff (hs : Sound s) (hunambiguous : Unambiguous s)
    (haskable : s.Askable c k q) :
    (∃ found s', ((Scope.mk c binding).fetch k q).outcome s = (.ok found, s')) ↔
      s.Answerable c k q := by
  constructor
  · rintro ⟨found, s', hfetch⟩
    have hfetches := (fetch_spec hs ⟨c, binding⟩ k q).2 found s' hfetch
    have hgrows := hfetches.loads.toGrows
    have hfetchable : ∀ {key e}, (s'.registry c).get? key = some e →
        s'.Fetchable k q (s.takesPending c) e := by
      intro key e he
      rw [← hgrows.takesPending]
      exact hfetches.fetchable e (SortedMap.mem_values_iff.2 ⟨key, he⟩)
    constructor
    case entries =>
      intro key e he
      have hkept := hfetchable (hfetches.loads.registry c key e he)
      exact (fetchable_congr (hgrows.entity?_of_entry hs he)).1 hkept
    case rows =>
      intro id row hname hunread hrow
      have hnone := hunambiguous.unregistered hs hrow hunread
      have hmem : (id.key, row) ∈ s.rowsNamed c k := by
        rw [mem_rowsNamed_iff, ← hname]
        exact hrow
      -- the row was read, so it could be, and then the fetch got past its entity
      rcases Option.isSome_iff_exists.1 (hfetches.complete _ _ hmem) with ⟨e, he⟩
      rcases hfetches.loads.entry c id.key e he with hold | ⟨_, _, _, row', hrow', hread⟩
      · cases hnone.symm.trans hold
      · cases (mem_rowsNamed_iff.1 hmem).symm.trans (mem_rowsNamed_iff.1 hrow')
        rcases hread.shows with ⟨v, hdecode, hlive, hcommitted, hvisible⟩
        have heligible : s'.Eligible k (s.takesPending c) e := by
          refine eligible_iff.2 ⟨?_, hlive, by simp [hcommitted]⟩
          rw [hread.id_eq, hs.filed_rowsOf c id row hrow, hname]
        rcases hfetchable he heligible _ hvisible with ⟨payload, hpayload, _⟩
        exact ⟨v, payload, hdecode, hpayload⟩
  · intro hanswerable
    refine fetch_ok hs ⟨c, binding⟩ haskable ?_ ?_
    · intro key row hmem hnone
      have hrow := mem_rowsNamed_iff.1 hmem
      rcases hanswerable.rows ⟨T.entityName k, key⟩ row rfl
        (fun e he => by cases hnone.symm.trans he) hrow with ⟨v, _, hdecode, _⟩
      exact Option.isSome_iff_exists.2 ⟨v, hdecode⟩
    · intro s' hloads e he
      rcases SortedMap.mem_values_iff.1 he with ⟨key, hget⟩
      have hpending : s'.takesPending c = s.takesPending c := hloads.toGrows.takesPending c
      dsimp only
      rw [hpending]
      rcases hloads.entry c key e hget with hold | ⟨_, _, hnone, row, hmem, hread⟩
      · exact (fetchable_congr (hloads.toGrows.entity?_of_entry hs hold)).2
          (hanswerable.entries key e hold)
      · intro _ visible hvisible
        rcases hanswerable.rows ⟨T.entityName k, key⟩ row rfl
          (fun e he => by cases hnone.symm.trans he) (mem_rowsNamed_iff.1 hmem) with
          ⟨v, payload, hdecode, hpayload⟩
        rcases hread.shows with ⟨v', hdecode', _, _, hvisible'⟩
        cases hdecode.symm.trans hdecode'
        cases hvisible.symm.trans hvisible'
        exact ⟨payload, hpayload, fun _ => hread.kind_eq⟩

/-! ## What the answer is -/

/-- An entity matches after the fetch has read the rows if it was presented before. -/
theorem Fetches.presents_of_match (hfetches : s.Fetches c k q found s') (hs : Sound s)
    (he : (s'.registry c).get? key = some e) {m : Handle k × Json}
    (hmatch : s'.matchOf? k q (s'.takesPending c) e = some m) :
    s.Presents c k m.1.id m.2 ∧ q.accepts m.2 = true := by
  have hgrows := hfetches.loads.toGrows
  rw [hgrows.takesPending] at hmatch
  -- the entry was there before the fetch, or the fetch read it from a row
  rcases hfetches.loads.entry c key e he with hold | ⟨_, _, hnone, row, hmem, hread⟩
  · rw [matchOf?_congr (hgrows.entity?_of_entry hs hold)] at hmatch
    rcases matchOf?_eq_some hmatch with ⟨hhandle, hkind, heligible, hvisible, haccepts⟩
    rcases eligible_iff.1 heligible with ⟨_, hlive, hwanted⟩
    have hid : e.id = m.1.id := by simp [hhandle, Entry.id]
    have hentry : (s.registry c).get? m.1.id.key = some e := by
      rw [← hid, (hs.lodged hold).key]
      exact hold
    exact ⟨.registered hentry hid hkind hlive hwanted hvisible, haccepts⟩
  · rcases matchOf?_eq_some hmatch with ⟨hhandle, _, _, hvisible, haccepts⟩
    rcases hread.shows with ⟨v, hdecode, _, _, hvisible'⟩
    have hrow := mem_rowsNamed_iff.1 hmem
    have hid : m.1.id = ⟨T.entityName k, key⟩ := by
      calc m.1.id = e.id := by simp [hhandle, Entry.id]
        _ = row.id := hread.id_eq
        _ = ⟨T.entityName k, key⟩ := hs.filed_rowsOf c _ row hrow
    rw [hid]
    refine ⟨.committed ?_ rfl hrow hdecode ?_, haccepts⟩
    · intro e he
      cases hnone.symm.trans he
    · exact Option.some.inj (hvisible'.symm.trans hvisible)

theorem Fetches.match_of_presents (hfetches : s.Fetches c k q found s') (hs : Sound s)
    (hunambiguous : Unambiguous s) (hpresents : s.Presents c k id payload)
    (haccepts : q.accepts payload = true) : ∃ e m, (s'.registry c).get? id.key = some e ∧
      s'.matchOf? k q (s'.takesPending c) e = some m ∧ m.1.id = id ∧ m.2 = payload := by
  have hgrows := hfetches.loads.toGrows
  -- whichever way the entity is presented, its entry is one that the fetch takes in
  have hmatch : ∃ e, (s'.registry c).get? id.key = some e ∧ e.id = id ∧ e.kind = k ∧
      s'.Eligible k (s'.takesPending c) e ∧ s'.visibleOf e = some (.ok payload) := by
    rw [hgrows.takesPending]
    cases hpresents with
    | @registered e he hid hkind hlive hwanted hvisible =>
      have hentity := hgrows.entity?_of_entry hs he
      have hname : e.id.entity = T.entityName k := hkind ▸ (hs.lodged he).name
      refine ⟨e, hfetches.loads.registry c _ e he, hid, hkind, ?_, ?_⟩
      · exact eligible_iff.2 ⟨hname, by rw [entryDeleted_congr hentity, hlive], hwanted⟩
      · rw [visibleOf_congr hentity, hvisible]
    | @committed row v hunread hname hrow hdecode hpayload =>
      have hnone := hunambiguous.unregistered hs hrow hunread
      have hmem : (id.key, row) ∈ s.rowsNamed c k := by
        rw [mem_rowsNamed_iff, ← hname]
        exact hrow
      rcases Option.isSome_iff_exists.1 (hfetches.complete _ _ hmem) with ⟨e, he⟩
      rcases hfetches.loads.entry c id.key e he with hold | ⟨_, _, _, row', hrow', hread⟩
      · cases hnone.symm.trans hold
      · cases (mem_rowsNamed_iff.1 hmem).symm.trans (mem_rowsNamed_iff.1 hrow')
        rcases hread.shows with ⟨v', hdecode', hlive, hcommitted, hvisible⟩
        cases hdecode.symm.trans hdecode'
        have hid : e.id = id := hread.id_eq.trans (hs.filed_rowsOf c id row hrow)
        refine ⟨e, he, hid, hread.kind_eq, ?_, by rw [hvisible, hpayload]⟩
        exact eligible_iff.2 ⟨by rw [hid, hname], hlive, by simp [hcommitted]⟩
  rcases hmatch with ⟨e, he, hid, hkind, heligible, hvisible⟩
  refine ⟨e, (⟨e.handle.slot, e.handle.id, e.handle.context⟩, payload), he, ?_, hid, rfl⟩
  have hhandle : e.handle? k = some ⟨e.handle.slot, e.handle.id, e.handle.context⟩ :=
    handle?_eq_some_iff.2 ⟨hkind, rfl⟩
  simp [matchOf?, heligible, hvisible, haccepts, hhandle]

theorem Presents.unique {payload' : Json} (h : s.Presents c k id payload)
    (h' : s.Presents c k id payload') : payload = payload' := by
  cases h with
  | registered he hid hkind hlive hwanted hvisible =>
    cases h' with
    | registered he' _ _ _ _ hvisible' =>
      cases he.symm.trans he'
      exact Except.ok.inj (Option.some.inj (hvisible.symm.trans hvisible'))
    | committed hunread => exact absurd hid (hunread _ he)
  | committed hunread _ hrow hdecode hpayload =>
    cases h' with
    | registered he hid => exact absurd hid (hunread _ he)
    | committed _ _ hrow' hdecode' hpayload' =>
      cases hrow.symm.trans hrow'
      cases hdecode.symm.trans hdecode'
      exact Except.ok.inj (hpayload.symm.trans hpayload')

/-! ## The order of the answer -/

/-- In the answer the first entity comes before the second one: the first sort term that tells what
is seen of them apart decides, and if none does, creation order. -/
def Sooner (s : Session T) (c : ContextId) (k : T.Kind) (order : List SortTerm)
    (a b : EntityId) : Prop :=
  ∀ payload payload', s.Presents c k a payload → s.Presents c k b payload' →
    SortTerm.Ahead payload payload' order ∨ (SortTerm.Level order payload payload' ∧ a.key < b.key)

/-- If comparing is a preorder on what is presented and accepted, the answer is in this order, and
what is level in creation order. -/
theorem Fetches.arranged {P : Json → Prop} (hfetches : s.Fetches c k q found s') (hs : Sound s)
    (hs' : Sound s') (harranges : Arranges P (SortTerm.compareBy q.order))
    (hP : ∀ id payload, s.Presents c k id payload → q.accepts payload = true → P payload) :
    found.Pairwise fun a b => ∃ payload payload', s.Presents c k a.id payload ∧
      s.Presents c k b.id payload' ∧ P payload ∧ P payload' ∧
        (SortTerm.compareBy q.order payload payload' = .lt ∨
          (SortTerm.compareBy q.order payload payload' = .eq ∧ a.id.key < b.id.key)) := by
  have hpresents : ∀ m ∈ s'.matchesOf c k q,
      s.Presents c k m.1.id m.2 ∧ q.accepts m.2 = true := by
    intro m hm
    rcases List.mem_filterMap.1 hm with ⟨e, he, hmatch⟩
    rcases SortedMap.mem_values_iff.1 he with ⟨key, hget⟩
    exact hfetches.presents_of_match hs hget hmatch
  have hholds : ∀ m ∈ s'.matchesOf c k q, P m.2 := by
    intro m hm
    exact hP _ _ (hpresents m hm).1 (hpresents m hm).2
  have hkeys := hs'.pairwise_matchesOf c k q
  -- without sort terms nothing is sorted, and with some creation order decides last
  have harranged : (Query.arrange q (s'.matchesOf c k q)).Pairwise
      (Before (fun a b => SortTerm.compareBy q.order a.2 b.2)
        fun a b => a.1.id.key < b.1.id.key) := by
    unfold Query.arrange
    split
    case isTrue hempty =>
      have horder : q.order = [] := List.isEmpty_iff.1 hempty
      refine hkeys.imp ?_
      intro a b hlt
      exact Or.inr ⟨by rw [horder]; rfl, hlt⟩
    case isFalse =>
      exact pairwise_sortStable (harranges.on fun m : Handle k × Json => m.2) hholds hkeys
  rw [hfetches.found, List.pairwise_map]
  refine List.Pairwise.imp_of_mem ?_ harranged
  intro a b ha hb hbefore
  have ha' := Query.mem_arrange.1 ha
  have hb' := Query.mem_arrange.1 hb
  exact ⟨a.2, b.2, (hpresents a ha').1, (hpresents b hb').1, hholds a ha', hholds b hb', hbefore⟩

theorem Fetches.sooner (hfetches : s.Fetches c k q found s') (hs : Sound s) (hs' : Sound s')
    (hscalars : ∀ id payload, s.Presents c k id payload → q.accepts payload = true →
      SortTerm.Scalars q.order payload) :
    found.Pairwise fun a b => s.Sooner c k q.order a.id b.id := by
  refine (hfetches.arranged hs hs' (SortTerm.arranges_compareBy q.order) hscalars).imp ?_
  rintro a b ⟨_, _, hseen, hseen', hscalar, hscalar', hbefore⟩ payload payload' hpayload hpayload'
  cases hseen.unique hpayload
  cases hseen'.unique hpayload'
  rcases SortTerm.compareBy_cases hscalar hscalar' with ⟨hahead, hlevel⟩
  rcases hbefore with hlt | ⟨heq, hlt⟩
  · exact Or.inl (hahead hlt)
  · exact Or.inr ⟨hlevel heq, hlt⟩

/-! ## Asking again -/

theorem adoptRows_of_registered {rows : List (UInt64 × Row)}
    (hrows : ∀ key row, (key, row) ∈ rows → (s.registry c).contains key = true) :
    ((Scope.mk c binding).adoptRows k rows).outcome s = (.ok (), s) := by
  induction rows with
  | nil => rfl
  | cons entry rest ih =>
    rcases entry with ⟨key, row⟩
    have hfirst : (s.registry c).contains key = true := hrows key row List.mem_cons_self
    rw [adoptRows_cons_of_registered hfirst]
    exact ih fun key row hrow => hrows key row (List.mem_cons_of_mem _ hrow)

/-- A fetch that has nothing to read does nothing but report. -/
theorem fetch_of_complete (haskable : s.Askable c k q)
    (hcomplete : ∀ key row, (key, row) ∈ s.rowsNamed c k → (s.registry c).contains key = true)
    (hfetchable : ∀ e ∈ (s.registry c).values, s.Fetchable k q (s.takesPending c) e) :
    ∃ journal, ((Scope.mk c binding).fetch k q).outcome s =
      (.ok ((Query.arrange q (s.matchesOf c k q)).map (·.1)), { s with journal }) := by
  have hselects := selects k q (s.takesPending c) (s.registry c).values s
  rcases hselect : (Scope.selectMatches k q (s.takesPending c)
    (s.registry c).values).outcome s with ⟨result, s₁⟩
  rw [hselect] at hselects
  rcases hselects.succeeds hfetchable with ⟨matched, hmatched⟩
  have hfound : matched = s.matchesOf c k q := hselects.found matched hmatched
  cases hmatched
  have hquiet : s₁ = { s with journal := s₁.journal } := hselects.quiet
  have hask : s.Askable (Scope.mk c binding).context k q := haskable
  refine ⟨(s₁.report (.fetched (T.entityName k) c (Query.arrange q matched).length)).journal, ?_⟩
  calc ((Scope.mk c binding).fetch k q).outcome s
      = (answer (Scope.mk c binding) k q (s.rowsNamed c k)).outcome s :=
        fetch_of_askable hask
    _ = (.ok ((Query.arrange q matched).map (·.1)),
          s₁.report (.fetched (T.entityName k) c (Query.arrange q matched).length)) :=
        (Attempt.outcome_bind_of_ok (adoptRows_of_registered hcomplete)).trans
          ((Attempt.outcome_bind_of_ok (Attempt.outcome_get s)).trans
            (Attempt.outcome_bind_of_ok hselect))
    _ = _ := by
        rw [hfound, hquiet]
        rfl

/-! ## The whole answer -/

/-- The answer of a fetch to its query: `s` is the session before, `s'` the one after. -/
structure Answers (s : Session T) (c : ContextId) (k : T.Kind) (q : Query)
    (found : List (Handle k)) (s' : Session T) : Prop where
  /-- The answer has what is presented and accepted, and nothing else. -/
  exact : ∀ id, id ∈ found.map Handle.id ↔
    ∃ payload, s.Presents c k id payload ∧ q.accepts payload = true
  once : (found.map Handle.id).Nodup
  /-- The handles are those that the context has registered. -/
  handles : ∀ h ∈ found, s'.Delivers c h ∧
    ∀ e, (s.registry c).get? h.id.key = some e → e.slot = h.slot
  ordered : (∀ id payload, s.Presents c k id payload → q.accepts payload = true →
      SortTerm.Scalars q.order payload) →
    found.Pairwise fun a b => s.Sooner c k q.order a.id b.id
  /-- All that is done is to read the rows of the type that were not read yet, all of them. -/
  loads : Loads s s' c k (s.rowsNamed c k)
  complete : ∀ key row, (key, row) ∈ s.rowsNamed c k → (s'.registry c).contains key = true
  again : ∀ binding, ∃ journal,
    ((Scope.mk c binding).fetch k q).outcome s' = (.ok found, { s' with journal })

/-- What a fetch answers in every session that gets there without imports, as long as keys are left:
there is an answer exactly when nothing stands in the way of the query, and it is the right one. -/
theorem fetch_answers (hrun : Run Deed.Native .empty s) (hkeys : s.KeysLeft) {binding : Bool}
    (haskable : s.Askable c k q) :
    ((∃ found s', ((Scope.mk c binding).fetch k q).outcome s = (.ok found, s')) ↔
      s.Answerable c k q) ∧
    ∀ found s', ((Scope.mk c binding).fetch k q).outcome s = (.ok found, s') →
      s.Answers c k q found s' := by
  rcases hrun.ordered ordered_empty hkeys with ⟨hs, _, hunambiguous⟩
  refine ⟨answerable_iff hs hunambiguous haskable, ?_⟩
  intro found s' hfetch
  rcases fetch_spec hs ⟨c, binding⟩ k q with ⟨hreads, hspec⟩
  have hs' : Sound s' := by simpa [hfetch] using hreads.sound hs
  have hfetches := hspec found s' hfetch
  have hgrows := hfetches.loads.toGrows
  constructor
  case exact =>
    intro id
    constructor
    · intro hmem
      rcases (hfetches.mem_ids_iff hs').1 hmem with ⟨e, he, hid, hmatch⟩
      rcases Option.isSome_iff_exists.1 hmatch with ⟨m, hm⟩
      have hsame : m.1.id = id := by
        rw [(matchOf?_eq_some hm).1]
        exact hid
      rcases hfetches.presents_of_match hs he hm with ⟨hpresents, haccepts⟩
      exact ⟨m.2, hsame ▸ hpresents, haccepts⟩
    · rintro ⟨payload, hpresents, haccepts⟩
      rcases hfetches.match_of_presents hs hunambiguous hpresents haccepts with
        ⟨e, m, he, hm, hid, _⟩
      have hsame : e.id = id := by
        rw [(matchOf?_eq_some hm).1] at hid
        exact hid
      exact (hfetches.mem_ids_iff hs').2 ⟨e, he, hsame, by simp [hm]⟩
  case once =>
    have hperm := Query.perm_arrange q (s'.matchesOf c k q)
    have hids : ((s'.matchesOf c k q).map fun m => m.1.id).Nodup := by
      rw [List.nodup_iff_pairwise_ne, List.pairwise_map]
      refine (hs'.pairwise_matchesOf c k q).imp ?_
      intro a b hlt heq
      exact absurd (heq ▸ hlt) (UInt64.lt_irrefl _)
    rw [hfetches.found, List.map_map]
    exact (hperm.map _).nodup_iff.2 hids
  case handles =>
    intro h hmem
    have hdelivers := delivers_fetch hs hfetch hmem
    refine ⟨hdelivers, ?_⟩
    intro e he
    rcases hdelivers.enrolled with ⟨pending, hentry⟩
    rw [hdelivers.context] at hentry
    cases (hgrows.registry c _ e he).symm.trans hentry
    rfl
  case ordered => exact hfetches.sooner hs hs'
  case loads => exact hfetches.loads
  case complete => exact hfetches.complete
  case again =>
    intro binding'
    rw [hfetches.found]
    refine fetch_of_complete (hgrows.askable haskable) ?_ hfetches.fetchable
    rw [rowsNamed_of_grows hgrows]
    exact hfetches.complete

section Sorted

open Sample

/-- Every tag, sorted by name, the greatest first. -/
def tagsByName : Query := ⟨"Tag", none, [⟨"name", false⟩]⟩

theorem run_redSaved : Run Deed.Native .empty redSaved := by
  rcases tracked_redSaved with ⟨L, htracked⟩
  exact htracked.run

/-- The second context reads the red tag that the first one saved, and that is its answer. -/
theorem fetch_answers_redSaved : ∃ found s',
    ((Scope.mk ⟨2⟩ true).fetch (T := model) Kind.tag tagsByName).outcome redSaved =
      (.ok found, s') ∧ redSaved.Answers ⟨2⟩ Kind.tag tagsByName found s' ∧
      found.map Handle.id = [tagId] := by
  have haskable : redSaved.Askable ⟨2⟩ Kind.tag tagsByName := ⟨rfl, tagDescription, rfl, rfl⟩
  have hfetch : ((Scope.mk ⟨2⟩ true).fetch (T := model) Kind.tag tagsByName).outcome redSaved =
      (.ok [⟨1, tagId, ⟨2⟩⟩],
        (((Scope.mk ⟨2⟩ true).fetch (T := model) Kind.tag tagsByName).outcome redSaved).2) := rfl
  have hanswers := (fetch_answers run_redSaved (by decide +kernel) haskable).2 _ _ hfetch
  exact ⟨_, _, hfetch, hanswers, rfl⟩

/-- A tag of the other type that has the name stands in the way: what others see of it is accepted,
and so the fetch fails, although no tag of the type is presented. -/
theorem fetch_refused_codedRed : Run Deed.Native .empty codedRed ∧ codedRed.KeysLeft ∧
    codedRed.Askable ⟨1⟩ Kind.tag (.matching "Tag" (.equals "name" (.string "red"))) ∧
    (∀ id payload, ¬ codedRed.Presents ⟨1⟩ Kind.tag id payload) ∧
    ∃ fault s', ((Scope.mk ⟨1⟩ true).fetch (T := model) Kind.tag
      (.matching "Tag" (.equals "name" (.string "red")))).outcome codedRed = (.error fault, s') := by
  refine ⟨run_codedRed, by decide +kernel, ⟨rfl, tagDescription, rfl, rfl⟩, ?_, _, _, rfl⟩
  intro id payload hpresents
  have hentry : ∀ key e, (codedRed.registry ⟨1⟩).get? key = some e →
      e = ⟨Kind.codedTag, ⟨0, ⟨"Tag", 1⟩, ⟨1⟩⟩, true⟩ := by
    intro key e he
    have hmem : e ∈ (codedRed.registry ⟨1⟩).values := SortedMap.mem_values_iff.2 ⟨key, he⟩
    have hvalues : (codedRed.registry ⟨1⟩).values =
        [⟨Kind.codedTag, ⟨0, ⟨"Tag", 1⟩, ⟨1⟩⟩, true⟩] := rfl
    rw [hvalues] at hmem
    exact List.mem_singleton.1 hmem
  cases hpresents with
  | registered he hid hkind =>
    rw [hentry _ _ he] at hkind
    cases hkind
  | committed hunread hname hrow =>
    have hempty : (codedRed.rowsOf ⟨1⟩) = .empty := rfl
    rw [hempty] at hrow
    cases hrow

end Sorted

end Session

end Reconcile
