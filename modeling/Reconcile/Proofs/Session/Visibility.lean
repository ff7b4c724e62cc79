import Reconcile.Sample.Mapping
import Reconcile.Proofs.Sample.Codec
import Reconcile.Proofs.Session.Isolation
import Reconcile.Proofs.Session.Numbering
import Reconcile.Proofs.Session.Reconciling

/-!
# What fetches see of the committed rows

A fetch evaluates its query on entities, not on rows.  An entity that the context only read has the
payload of its row, so the answer is the one that the row gives, as long as the context is not
behind.  A context that is behind still answers by the row that it loaded or saved, and what another
context committed over that row it cannot find.
-/

namespace Reconcile

namespace Session

variable {T : Model} {s s' : Session T} {c : ContextId} {k : T.Kind} {q : Query} {scope : Scope}
  {found : List (Handle k)} {id : EntityId} {L : Ledger}

/-! ## Entities that stand for rows -/

theorem ReadFrom.stands {row : Row} {e : Entry T} (h : s.ReadFrom c k row e) :
    s.Stands c e row ∧ e.kind = k := by
  rcases h with ⟨⟨n, rfl⟩, v, hdecode, hentity⟩
  exact ⟨⟨rfl, rfl, _, hentity, rfl, rfl, rfl, Or.inr ⟨v, hdecode, rfl⟩⟩, rfl⟩

theorem Stands.grows {row : Row} {e : Entry T} (h : s.Stands c e row) (hgrows : Grows s s') :
    s'.Stands c e row := by
  rcases h.entity with ⟨m, hm, _⟩
  exact h.of_same (hgrows.entity? _ (lt_size_of_entity? hm))

theorem Stands.visibleOf (hT : T.Faithful) {row : Row} {e : Entry T} (h : s.Stands c e row)
    (hwritten : T.Written (T.entityName e.kind) row.payload) :
    ∃ payload, s.visibleOf e = some (.ok payload) ∧ row.payload.same payload = true := by
  rcases h.entity with ⟨m, hm, _, _, hpublished, hreflects⟩
  rcases hT.same_of_reflects hwritten hreflects with ⟨payload, hencode, hsame⟩
  refine ⟨payload, ?_, hsame⟩
  have hpayload := payload_of_encode hencode
  have hshown : m.published = some payload := by
    rw [hpublished, Model.published, hencode]
    rfl
  -- whether the value is hidden or not: what is published is the payload of the value
  unfold Session.visibleOf
  rw [hm, Option.bind_some, Entity.visible?, Entity.live?]
  split
  · next live hlive =>
    split at hlive
    · cases hlive
    · rw [← Option.some.inj hlive, hpayload]
  · rw [hshown]
    rfl

/-- An entity that stands for a row is among the results exactly when the row is accepted. -/
theorem Fetches.mem_ids_iff_of_stands (h : s.Fetches c k q found s') (hT : T.Faithful)
    (hs' : Sound s') {e : Entry T} {row : Row} (he : (s'.registry c).get? id.key = some e)
    (hid : e.id = id) (hname : id.entity = T.entityName k) (hstands : s'.Stands c e row)
    (hwritten : T.Written id.entity row.payload) :
    id ∈ found.map Handle.id ↔ q.accepts row.payload = true := by
  have hkind : T.entityName e.kind = id.entity := by
    rw [← hid, (hs'.lodged he).name]
  rcases hstands.visibleOf hT (hkind ▸ hwritten) with ⟨payload, hvisible, hsame⟩
  have heligible : s'.Eligible k (s'.takesPending c) e := by
    rw [eligible_iff, hid, hname]
    refine ⟨rfl, hstands.live, ?_⟩
    rw [hstands.committed]
    intro hfalse
    cases hfalse
  have hfetchable := h.fetchable e (SortedMap.mem_values_iff.2 ⟨_, he⟩)
  rw [h.mem_ids_iff hs', Query.accepts_congr hsame,
    ← isSome_matchOf?_iff heligible hvisible hfetchable]
  constructor
  · rintro ⟨e', he', _, hsome⟩
    cases he'.symm.trans he
    exact hsome
  · intro hsome
    exact ⟨e, he, hid, hsome⟩

/-! ## What a fetch answers -/

theorem Fetches.entry_of_row (h : s.Fetches c k q found s') {row : Row}
    (hnone : (s.registry c).get? id.key = none) (hname : id.entity = T.entityName k)
    (hrow : (s.rowsOf c).row? id = some row) :
    ∃ e, (s'.registry c).get? id.key = some e ∧ s'.ReadFrom c k row e := by
  have hmem : (id.key, row) ∈ s.rowsNamed c k := by
    rw [mem_rowsNamed_iff, ← hname]
    exact hrow
  rcases Option.isSome_iff_exists.1 (h.complete _ _ hmem) with ⟨e, he⟩
  refine ⟨e, he, ?_⟩
  -- the entry is new, so it was read from a row with its key and this name
  rcases h.loads.entry _ _ _ he with hold | ⟨_, _, _, row', hrow', hread⟩
  · rw [hnone] at hold
    cases hold
  · have hsame : row' = row := by
      have hget := mem_rowsNamed_iff.1 hrow'
      rw [← hname] at hget
      exact Option.some.inj (hget.symm.trans hrow)
    exact hsame ▸ hread

theorem Fetches.not_mem_ids (h : s.Fetches c k q found s') (hs' : Sound s')
    (hname : id.entity = T.entityName k)
    (hnone : ∀ e, (s.registry c).get? id.key = some e → e.id ≠ id)
    (hrow : (s.rowsOf c).row? id = none) : id ∉ found.map Handle.id := by
  rw [h.mem_ids_iff hs']
  rintro ⟨e, he, hid, _⟩
  rcases h.loads.entry _ _ _ he with hold | ⟨_, _, _, row, hmem, hread⟩
  · exact hnone e hold hid
  · have hget := mem_rowsNamed_iff.1 hmem
    rw [← hname] at hget
    have hsame : (⟨id.entity, id.key⟩ : EntityId) = id := rfl
    rw [hsame, hrow] at hget
    cases hget

/-- An id of the type is among the results of a fetch exactly when a committed row of it is accepted
by the query, if the context neither owns the entity nor is behind; a context that loaded or saved
the entity and has not touched it since answers by the row that it loaded or saved. -/
theorem mem_fetch_iff (hT : T.Faithful) (h : Tracked Deed.Native s L) (hkeys : s.KeysLeft)
    (hfetch : (scope.fetch k q).outcome s = (.ok found, s')) (hname : id.entity = T.entityName k) :
    (¬ s.Owns L scope.context id → ¬ s.Behind L scope.context id →
      (id ∈ found.map Handle.id ↔
        ∃ row, (s.rowsOf scope.context).row? id = some row ∧ q.accepts row.payload = true)) ∧
    (∀ e row, (s.registry scope.context).get? id.key = some e → e.id = id →
      L e.slot = some row → (id ∈ found.map Handle.id ↔ q.accepts row.payload = true)) := by
  have hs : Sound s := h.sound
  have hspec := fetch_spec hs scope k q
  have hfetches : s.Fetches scope.context k q found s' := hspec.2 found s' hfetch
  have hrun := hspec.1
  rw [hfetch] at hrun
  have hs' : Sound s' := hrun.sound hs
  rcases h.written with ⟨hrows, hledger⟩
  have hstanding : ∀ e row, (s.registry scope.context).get? id.key = some e → e.id = id →
      L e.slot = some row → (id ∈ found.map Handle.id ↔ q.accepts row.payload = true) := by
    intro e row he hid hrow
    have hstands : s.Stands scope.context e row := h.upholds _ _ _ _ he hrow
    have hwritten : T.Written id.entity row.payload := by
      rw [← hid, ← hstands.id]
      exact hledger _ _ hrow
    exact hfetches.mem_ids_iff_of_stands hT hs' (hfetches.loads.registry _ _ _ he) hid hname
      (hstands.grows hfetches.loads.toGrows) hwritten
  refine ⟨?_, hstanding⟩
  intro howns hbehind
  -- nothing is registered under the key, or the entity itself, or another one
  cases he : (s.registry scope.context).get? id.key with
  | none =>
    cases hrow : (s.rowsOf scope.context).row? id with
    | none =>
      have hnot := hfetches.not_mem_ids hs' hname (fun e hget => by rw [he] at hget; cases hget)
        hrow
      simp [hnot]
    | some row =>
      rcases hfetches.entry_of_row he hname hrow with ⟨e, hget, hread⟩
      rcases hread.stands with ⟨hstands, _⟩
      have hid : e.id = id := by
        rw [← hstands.id]
        exact hs.filed_rowsOf _ id row hrow
      rw [hfetches.mem_ids_iff_of_stands hT hs' hget hid hname hstands (hrows.rowsOf hrow)]
      simp
  | some e =>
    by_cases hid : e.id = id
    · cases hledgered : L e.slot with
      | none => exact absurd ⟨e, he, hid, hledgered⟩ howns
      | some row =>
        have hcurrent : (s.rowsOf scope.context).row? id = some row := by
          have hrow := not_not.1 fun hover => hbehind ⟨e, row, he, hid, hledgered, hover⟩
          rw [(h.upholds _ _ _ _ he hledgered).id, hid] at hrow
          exact hrow
        rw [hstanding e row he hid hledgered, hcurrent]
        simp
    · -- the key belongs to another id, so there is no row of this one
      have hnone : (s.rowsOf scope.context).row? id = none :=
        (h.run.unambiguous hkeys).row?_of_taken hs he hid
      have hnot := hfetches.not_mem_ids hs' hname
        (fun e' he' hid' => hid ((Option.some.inj (he.symm.trans he')).symm ▸ hid')) hnone
      rw [hnone]
      simp [hnot]

/-! ## Finding by key -/

/-- An entity with a committed natural key is found by that key, unless a later entity is, and
reconciling a plain value with the key ends at the entity found and inserts none for it. -/
theorem findUnique_of_row (hT : T.Faithful) (M : Mapping T) (h : Tracked Deed.Native s L)
    (hkeys : s.KeysLeft) {p : M.Plain k} {key : NaturalKey} (hkey : M.naturalKey p = some key)
    (hfetch : (scope.fetch k (.matching (T.entityName k) key.filter)).outcome s =
      (.ok found, s')) (hname : id.entity = T.entityName k)
    (howns : ¬ s.Owns L scope.context id) (hbehind : ¬ s.Behind L scope.context id) {row : Row}
    (hrow : (s.rowsOf scope.context).row? id = some row)
    (hcarries : (row.payload.valueAt key.key).same key.value = true) :
    ∃ h, M.findUnique scope p s = (some h, s') ∧ (h.id = id ∨ id.key < h.id.key) ∧
      M.findOrInsertUnique scope p s = (some h, s') ∧
      ∀ hook, (M.reconcile scope p hook s).1 = some h := by
  have hspec := fetch_spec h.sound scope k (.matching (T.entityName k) key.filter)
  rw [hfetch] at hspec
  have hfetches := hspec.2 found s' rfl
  have hs' : Sound s' := hspec.1.sound h.sound
  have hmem : id ∈ found.map Handle.id :=
    ((mem_fetch_iff hT h hkeys hfetch hname).1 howns hbehind).2 ⟨row, hrow, hcarries⟩
  rcases List.mem_map.1 hmem with ⟨h₀, hmem₀, hid⟩
  -- the results stand in key order, and the last one is taken
  rcases last_of_pairwise (hfetches.sorted hs' rfl) hmem₀ with ⟨last, hlast, hle⟩
  have hfind : M.findUnique scope p s = (some last, s') := by
    rw [Mapping.findUnique_of_fetch hkey hfetch, hlast]
  have hinsert := Mapping.findOrInsertUnique_of_found hfind
  refine ⟨last, hfind, ?_, hinsert, Mapping.reconcile_fst hinsert⟩
  rcases hle with rfl | hlt
  · exact Or.inl hid
  · exact Or.inr (hid ▸ hlt)

/-! ## The sample model -/

section Sample

open Sample

/-- What a context of the sample model can tell from committed rows, whoever committed them.  A
fetch that ends well has an id of its type among its results exactly when a committed row of it is
accepted, unless the context owns the entity or is behind; what the context loaded or saved and has
not touched since is judged by the row that was loaded or saved.  Hence a committed natural key is
found, and reconciling it inserts no second entity. -/
theorem fetch_reflects_rows {s s' : Session model} {L : Ledger} {scope : Scope} {k : Sample.Kind}
    {q : Query} {found : List (Handle k)} {id : EntityId} (h : Tracked Deed.Native s L)
    (hkeys : s.KeysLeft) (hfetch : (scope.fetch (T := model) k q).outcome s = (.ok found, s'))
    (hname : id.entity = k.entityName) :
    (¬ s.Owns L scope.context id → ¬ s.Behind L scope.context id →
      (id ∈ found.map Handle.id ↔
        ∃ row, (s.rowsOf scope.context).row? id = some row ∧ q.accepts row.payload = true)) ∧
    (∀ e row, (s.registry scope.context).get? id.key = some e → e.id = id →
      L e.slot = some row → (id ∈ found.map Handle.id ↔ q.accepts row.payload = true)) ∧
    (∀ (M : Mapping model) (p : M.Plain k) (key : NaturalKey) (row : Row),
      M.naturalKey p = some key → q = .matching k.entityName key.filter →
      ¬ s.Owns L scope.context id → ¬ s.Behind L scope.context id →
      (s.rowsOf scope.context).row? id = some row →
      (row.payload.valueAt key.key).same key.value = true →
        ∃ h, M.findUnique scope p s = (some h, s') ∧ (h.id = id ∨ id.key < h.id.key) ∧
          M.findOrInsertUnique scope p s = (some h, s') ∧
          ∀ hook, (M.reconcile scope p hook s).1 = some h) := by
  rcases mem_fetch_iff faithful h hkeys hfetch hname with ⟨hrows, hstanding⟩
  refine ⟨hrows, hstanding, ?_⟩
  intro M p key row hkey hq howns hbehind hrow hcarries
  cases hq
  exact findUnique_of_row faithful M h hkeys hkey hfetch hname howns hbehind hrow hcarries

def namedTag (name : String) : Query :=
  .matching "Tag" (.equals "name" (.string name))

/-- The second context finds the red tag that the first one committed, and reconciles it. -/
theorem reconcile_committed_red : ∃ h : Handle Kind.tag,
    (mapping.reconcile (k := Kind.tag) (.within ⟨2⟩) (⟨"red", none⟩ : TagPlain) pure redSaved).1 =
      some h ∧ (h.id = tagId ∨ tagId.key < h.id.key) := by
  rcases tracked_redSaved with ⟨L, htracked⟩
  have hfetch : ((Scope.within ⟨2⟩).fetch (T := model) Kind.tag (namedTag "red")).outcome redSaved =
      (.ok [⟨1, tagId, ⟨2⟩⟩],
        (((Scope.within ⟨2⟩).fetch (T := model) Kind.tag (namedTag "red")).outcome redSaved).2) :=
    rfl
  have hentry : (redSaved.registry ⟨2⟩).get? tagId.key = none := rfl
  have howns : ¬ redSaved.Owns L (Scope.within ⟨2⟩).context tagId := by
    rintro ⟨e, he, _⟩
    cases he.symm.trans hentry
  have hbehind : ¬ redSaved.Behind L (Scope.within ⟨2⟩).context tagId := by
    rintro ⟨e, row, he, _⟩
    cases he.symm.trans hentry
  have hrow : (redSaved.rowsOf (Scope.within ⟨2⟩).context).row? tagId =
      some ⟨tagId, 1, tagPayload "red"⟩ := rfl
  rcases (fetch_reflects_rows htracked (by decide +kernel) hfetch rfl).2.2 mapping
    (⟨"red", none⟩ : TagPlain) ⟨"name", .string "red"⟩ _ rfl rfl howns hbehind hrow rfl with
    ⟨h, _, hid, _, hreconcile⟩
  exact ⟨h, hreconcile pure, hid⟩

/-- A context that is behind misses a committed tag that it has not touched. -/
theorem fetch_misses_overtaking_row : ∃ (L : Ledger) (s' : Session model)
    (found : List (Handle Kind.tag)) (row : Row),
    Tracked Deed.Native blueSaved L ∧ blueSaved.KeysLeft ∧
      ((Scope.within ⟨2⟩).fetch (T := model) Kind.tag (namedTag "blue")).outcome blueSaved =
        (.ok found, s') ∧
      ¬ blueSaved.Owns L ⟨2⟩ tagId ∧ (blueSaved.rowsOf ⟨2⟩).row? tagId = some row ∧
      (namedTag "blue").accepts row.payload = true ∧ tagId ∉ found.map Handle.id := by
  rcases tracked_blueSaved with ⟨L, htracked, hrow⟩
  refine ⟨L, _, [], ⟨tagId, 2, tagPayload "blue"⟩, htracked, by decide +kernel, rfl, ?_, rfl, rfl,
    List.not_mem_nil⟩
  rintro ⟨e, he, _, hnone⟩
  have hentry : (blueSaved.registry ⟨2⟩).get? 1 = some ⟨Kind.tag, ⟨1, tagId, ⟨2⟩⟩, false⟩ := rfl
  cases he.symm.trans hentry
  cases hrow.symm.trans hnone

end Sample

end Session

end Reconcile
