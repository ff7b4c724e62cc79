import Reconcile.Proofs.Session.Fetching
import Reconcile.Proofs.Session.Resting

/-!
# Fetches that fail

A fetch fails before it reads anything if it cannot be asked, and then nothing has changed.
Otherwise it fails at a row that it cannot read, or after the last row.  What it leaves then are the
rows before (`readable`), registered as entities that nobody has changed (`TakesIn`); neither the
store nor any other entry is touched.

A save that follows takes these entities in.  It ends as if the fetch had not been made if what each
row reads as is written back as it stands (`Returns`), and later if they are at rest.
-/

namespace Reconcile

namespace Session

variable {T : Model} {s s' : Session T} {c : ContextId} {k : T.Kind} {scope : Scope} {q : Query}

/-! ## What is read before the first row that cannot be -/

/-- Of these rows, those that the registry does not have and that stand before the first such row
that cannot be read. -/
def readableOf (s : Session T) (c : ContextId) (k : T.Kind) (rows : List (UInt64 × Row)) :
    List (UInt64 × Row) :=
  (rows.filter fun entry => !(s.registry c).contains entry.1).takeWhile fun entry =>
    (T.decode k (some c) entry.2.payload).isSome

section ReadableOf

variable {key : UInt64} {row : Row} {rest rows : List (UInt64 × Row)}

theorem readableOf_cons_of_registered (h : (s.registry c).contains key = true) :
    s.readableOf c k ((key, row) :: rest) = s.readableOf c k rest := by
  rw [readableOf, List.filter_cons_of_neg (by simp [h]), readableOf]

theorem readableOf_cons_of_undecodable (h : (s.registry c).contains key = false)
    (hdecode : T.decode k (some c) row.payload = none) :
    s.readableOf c k ((key, row) :: rest) = [] := by
  rw [readableOf, List.filter_cons_of_pos (by simp [h]),
    List.takeWhile_cons_of_neg (by simp [hdecode])]

theorem readableOf_cons_of_decoded {v : T.Value k} (h : (s.registry c).contains key = false)
    (hdecode : T.decode k (some c) row.payload = some v) :
    s.readableOf c k ((key, row) :: rest) = (key, row) :: s.readableOf c k rest := by
  rw [readableOf, List.filter_cons_of_pos (by simp [h]),
    List.takeWhile_cons_of_pos (by simp [hdecode]), readableOf]

theorem mem_of_mem_readableOf {entry : UInt64 × Row} (h : entry ∈ s.readableOf c k rows) :
    entry ∈ rows ∧ (s.registry c).contains entry.1 = false ∧
      (T.decode k (some c) entry.2.payload).isSome := by
  have hunread := (List.takeWhile_sublist _).subset h
  rcases List.mem_filter.1 hunread with ⟨hmem, hnew⟩
  exact ⟨hmem, by simpa using hnew, List.all_eq_true.1 List.all_takeWhile entry h⟩

/-- Another entity in the registry makes no difference to rows of other keys. -/
theorem readableOf_enroll {ctx : Context T} (hctx : s.context? c = some ctx) {id : EntityId}
    {v : T.Value k} (hother : ∀ entry ∈ rows, entry.1 ≠ id.key) :
    (s.enroll c k id v false).readableOf c k rows = s.readableOf c k rows := by
  rw [readableOf, readableOf]
  congr 1
  refine List.filter_congr ?_
  intro entry hentry
  rw [SortedMap.contains, SortedMap.contains,
    get?_registry_enroll_of_ne hctx fun _ => hother entry hentry]

end ReadableOf

/-- The rows of a type that a fetch reads before it gets to one that it cannot read. -/
def readable (s : Session T) (c : ContextId) (k : T.Kind) : List (UInt64 × Row) :=
  s.readableOf c k (s.rowsNamed c k)

/-- These rows were read into the registry, and nothing else. -/
structure TakesIn (s s' : Session T) (c : ContextId) (k : T.Kind) (rows : List (UInt64 × Row)) :
    Prop extends Loads s s' c k rows where
  registered : ∀ entry ∈ rows, (s'.registry c).contains entry.1 = true

theorem TakesIn.registry_eq_iff {rows : List (UInt64 × Row)} (h : TakesIn s s' c k rows)
    (hnew : ∀ entry ∈ rows, (s.registry c).contains entry.1 = false) :
    s'.registry c = s.registry c ↔ rows = [] := by
  constructor
  · intro heq
    refine List.eq_nil_iff_forall_not_mem.2 ?_
    intro entry hentry
    have hregistered := h.registered entry hentry
    rw [heq, hnew entry hentry] at hregistered
    cases hregistered
  · -- an entry that had come in would have been read from a row
    rintro rfl
    refine SortedMap.ext_get? fun key => ?_
    cases hget : (s'.registry c).get? key with
    | none =>
      cases hold : (s.registry c).get? key with
      | none => rfl
      | some e => exact hget.symm.trans (h.registry c key e hold)
    | some e =>
      rcases h.entry c key e hget with hold | ⟨_, _, _, row, hrow, _⟩
      · exact hold.symm
      · cases hrow

/-! ## The whole fetch -/

theorem takesIn_adoptRows (scope : Scope) (k : T.Kind) (rows : List (UInt64 × Row)) (s : Session T)
    (hrows : s.RowsFor scope.context k rows) (hnodup : (rows.map (·.1)).Nodup) :
    TakesIn s ((scope.adoptRows k rows).outcome s).2 scope.context k
      (s.readableOf scope.context k rows) := by
  -- a row that is read takes its own key and no other, so the rows after it are read as before
  induction rows generalizing s with
  | nil => exact ⟨Loads.refl s _ k [], fun _ hentry => absurd hentry List.not_mem_nil⟩
  | cons entry rest ih =>
    rcases entry with ⟨key, row⟩
    rcases List.nodup_cons.1 hnodup with ⟨hfirst, hnodup⟩
    have hrest : s.RowsFor scope.context k rest :=
      fun key row hrow => hrows key row (List.mem_cons_of_mem _ hrow)
    rcases hrows key row List.mem_cons_self with ⟨hid, hget⟩
    cases hregistered : (s.registry scope.context).contains key with
    | true =>
      rw [adoptRows_cons_of_registered hregistered, readableOf_cons_of_registered hregistered]
      exact ih s hrest hnodup
    | false =>
      cases hdecode : T.decode k (some scope.context) row.payload with
      | none =>
        rw [adoptRows_cons_of_undecodable hregistered hdecode,
          readableOf_cons_of_undecodable hregistered hdecode]
        exact ⟨Loads.refl s _ k [], fun _ hentry => absurd hentry List.not_mem_nil⟩
      | some v =>
        rw [adoptRows_cons_of_decoded hregistered hdecode,
          readableOf_cons_of_decoded hregistered hdecode]
        have hkey : row.id.key = key := congrArg EntityId.key hid
        have hnew : (s.registry scope.context).get? row.id.key = none := by
          rw [hkey]
          exact SortedMap.contains_eq_false_iff.1 hregistered
        rcases storeOf?_of_row? hget with ⟨store, hstore, _⟩
        rcases isOpen_of_storeOf? hstore with ⟨ctx, hctx, _⟩
        have hloads := loads_enroll hctx hnew hdecode
        have hlater := ih (s.enroll scope.context k row.id v false) (hrest.grows hloads.toGrows)
          hnodup
        rw [readableOf_enroll hctx] at hlater
        · constructor
          case toLoads =>
            refine (hloads.mono ?_).trans (hlater.toLoads.mono fun _ => List.mem_cons_of_mem _)
            intro entry hentry
            rw [List.mem_singleton.1 hentry, hkey]
            exact List.mem_cons_self
          case registered =>
            intro entry hentry
            rcases List.mem_cons.1 hentry with rfl | hentry
            · have hentered : ((s.enroll scope.context k row.id v false).registry
                  scope.context).get? row.id.key = some _ := get?_registry_enroll_new hctx
              rw [hkey] at hentered
              exact contains_of_grows hlater.toGrows (Option.isSome_iff_exists.2 ⟨_, hentered⟩)
            · exact hlater.registered entry hentry
        · intro entry hentry heq
          exact hfirst (List.mem_map.2 ⟨entry, hentry, heq.trans hkey⟩)

theorem nodup_rowsNamed (s : Session T) (c : ContextId) (k : T.Kind) :
    ((s.rowsNamed c k).map (·.1)).Nodup :=
  ((s.rowsOf c).ofEntity (T.entityName k)).nodup_keys

/-- However a fetch ends that could be asked, it has read what it could. -/
theorem takesIn_fetch (hs : Sound s) (haskable : s.Askable scope.context k q) :
    TakesIn s ((scope.fetch k q).outcome s).2 scope.context k (s.readable scope.context k) := by
  have htakes := takesIn_adoptRows scope k _ s (hs.rowsFor scope.context k)
    (nodup_rowsNamed s scope.context k)
  rw [fetch_of_askable haskable]
  rcases hadopt : (scope.adoptRows k (s.rowsNamed scope.context k)).outcome s with ⟨fault | _, s₁⟩
  · have hout : (answer scope k q (s.rowsNamed scope.context k)).outcome s = (.error fault, s₁) :=
      Attempt.outcome_bind_of_error hadopt
    rw [hadopt] at htakes
    rw [hout]
    exact htakes
  · -- what follows only reports
    rcases answer_of_adopted (q := q) hadopt with ⟨_, journal, hjournal⟩
    rw [hadopt] at htakes
    rw [hjournal]
    exact ⟨htakes.toLoads.trans (Loads.journal s₁ _ _ _ journal), htakes.registered⟩

/-! ## What it means for a save -/

/-- What the row reads as is written back as it stands, and passes the check of the context. -/
def Returns (s : Session T) (c : ContextId) (k : T.Kind) (row : Row) : Prop :=
  ∀ v : T.Value k, T.decode k (some c) row.payload = some v → ∃ payload,
    T.encode v = .ok payload ∧ row.payload.same payload = true ∧ s.Passes c row.id.entity payload

theorem ReadFrom.atRest {row : Row} {e : Entry T} (h : s'.ReadFrom c k row e) (hgrows : Grows s s')
    (hrow : (s.rowsOf c).row? row.id = some row) (hreturns : s.Returns c k row) :
    s'.AtRest c e := by
  rcases h.value with ⟨v, hdecode, hentity⟩
  rcases hreturns v hdecode with ⟨payload, hencode, hsame, hpasses⟩
  constructor
  case live => exact entryDeleted_of_entity? hentity
  case written =>
    refine ⟨payload, ⟨_, hentity, rfl, rfl, hencode⟩, ?_, row, ?_, hsame⟩
    · rw [h.id_eq, Passes, hgrows.settingsOf, hgrows.schemaOf]
      exact hpasses
    · rw [hgrows.rowsOf, h.id_eq]
      exact hrow

/-- The session with some entities taken off the registry of a context. -/
def unregister (s : Session T) (c : ContextId) (ids : List EntityId) : Session T :=
  s.withRegistry c ((s.registry c).filter fun _ e => decide (e.id ∉ ids))

theorem registry_unregister (s : Session T) (c : ContextId) (ids : List EntityId) :
    (s.unregister c ids).registry c = (s.registry c).filter fun _ e => decide (e.id ∉ ids) := by
  cases hctx : s.context? c with
  | some ctx => exact registry_withRegistry_self hctx _
  | none =>
    rw [unregister, withRegistry, hctx]
    dsimp only
    rw [registry, hctx]
    rfl

theorem values_filter (registry : Registry T) (wanted : EntityId → Bool) :
    (registry.filter fun _ e => wanted e.id).values =
      registry.values.filter fun e => wanted e.id := by
  rw [SortedMap.values, SortedMap.values, List.filter_map]
  rfl

/-- Entities at rest can be taken off the registry without a save telling the difference. -/
theorem savesAlike_unregister {ids : List EntityId} (hs : Sound s)
    (hrest : ∀ e ∈ (s.registry scope.context).values, e.id ∈ ids → s.AtRest scope.context e) :
    SavesAlike scope (s.unregister scope.context ids) s := by
  refine savesAlike_of_rest (fun id => decide (id ∉ ids)) hs (stores_withRegistry s _ _)
    (storeIdOf?_withRegistry s _ _ _) ?_ ?_ ?_
  · rw [registry_unregister]
    exact values_filter _ fun id => decide (id ∉ ids)
  · intro e _
    rw [unregister, entity?, entities_withRegistry, entity?]
  · intro e he hunwanted
    exact hrest e he (by simpa using hunwanted)

/-- A save cannot tell that rows have been read if each of them returns. -/
theorem TakesIn.savesAlike {rows : List (UInt64 × Row)} (h : TakesIn s s' scope.context k rows)
    (hs : Sound s) (hs' : Sound s') (hrows : s.RowsFor scope.context k rows)
    (hreturns : ∀ entry ∈ rows, s.Returns scope.context k entry.2) : SavesAlike scope s s' := by
  -- the old registry is what the new one has under the keys of the old one
  have hkept : s.registry scope.context = (s'.registry scope.context).filter
      fun _ e => (s.registry scope.context).contains e.id.key := by
    refine SortedMap.ext_get? fun key => Option.ext fun e => ?_
    rw [SortedMap.get?_filter_eq_some_iff]
    constructor
    · intro he
      have he' := h.registry _ _ _ he
      rw [(hs'.lodged he').key]
      exact ⟨he', Option.isSome_iff_exists.2 ⟨e, he⟩⟩
    · rintro ⟨he', hcontains⟩
      rw [(hs'.lodged he').key] at hcontains
      rcases Option.isSome_iff_exists.1 hcontains with ⟨old, hold⟩
      rw [hold]
      exact (h.registry _ _ _ hold).symm.trans he'
  refine savesAlike_of_rest (fun id => (s.registry scope.context).contains id.key) hs'
    h.stores.symm (h.storeIdOf? _).symm ?_ ?_ ?_
  · exact (congrArg SortedMap.values hkept).trans
      (values_filter _ fun id => (s.registry scope.context).contains id.key)
  · intro e he
    rcases SortedMap.mem_values_iff.1 he with ⟨key, hget⟩
    rcases (hs.lodged hget).entity with ⟨m, hm, _⟩
    exact hm.trans (h.entity hm).symm
  · intro e he hunwanted
    rcases SortedMap.mem_values_iff.1 he with ⟨key, hget⟩
    rcases h.entry _ key e hget with hold | ⟨_, _, _, row, hrow, hread⟩
    · -- an entry from before is wanted
      have hcontains : (s.registry scope.context).contains key = true :=
        Option.isSome_iff_exists.2 ⟨e, hold⟩
      rw [(hs'.lodged hget).key] at hunwanted
      cases hcontains.symm.trans hunwanted
    · exact hread.atRest h.toGrows (hrows key row hrow).2 (hreturns _ hrow)

/-- What a fetch leaves that fails: the store is as it was, and the registry has gained the rows
that the fetch could read before it failed, none if it could not even be asked.  A save that follows
at once is as if the fetch had not been made if these rows return; a later one is, if what is left
of them then is at rest. -/
theorem failed_fetch {fault : Fault} (h : Run (fun _ => True) .empty s)
    (hfetch : (scope.fetch k q).outcome s = (.error fault, s')) :
    s'.stores = s.stores ∧
    (¬ s.Askable scope.context k q → s' = s) ∧
    (s.Askable scope.context k q → TakesIn s s' scope.context k (s.readable scope.context k) ∧
      (s'.registry scope.context = s.registry scope.context ↔
        s.readable scope.context k = [])) ∧
    ((∀ entry ∈ s.readable scope.context k, s.Returns scope.context k entry.2) →
      SavesAlike scope s s') ∧
    ∀ t, Run (fun _ => True) s' t →
      (∀ e ∈ (t.registry scope.context).values,
        e.id ∈ (s.readable scope.context k).map (·.2.id) → t.AtRest scope.context e) →
      SavesAlike scope
        (t.unregister scope.context ((s.readable scope.context k).map (·.2.id))) t := by
  have hs : Sound s := h.sound sound_empty
  have hs' : Sound s' := by
    have hrun := (fetch_spec hs scope k q).1
    rw [hfetch] at hrun
    exact hrun.sound hs
  have hlater : ∀ t, Run (fun _ => True) s' t → ∀ ids : List EntityId,
      (∀ e ∈ (t.registry scope.context).values, e.id ∈ ids → t.AtRest scope.context e) →
        SavesAlike scope (t.unregister scope.context ids) t :=
    fun t hrun ids hrest => savesAlike_unregister (hrun.sound hs') hrest
  by_cases haskable : s.Askable scope.context k q
  · have htakes := takesIn_fetch hs haskable
    rw [hfetch] at htakes
    have hrows : s.RowsFor scope.context k (s.readable scope.context k) :=
      fun key row hrow => hs.rowsFor scope.context k key row (mem_of_mem_readableOf hrow).1
    have hnew := htakes.registry_eq_iff fun entry hentry => (mem_of_mem_readableOf hentry).2.1
    exact ⟨htakes.stores, fun hnot => absurd haskable hnot, fun _ => ⟨htakes, hnew⟩,
      htakes.savesAlike hs hs' hrows, fun t hrun => hlater t hrun _⟩
  · rcases fetch_of_not_askable haskable with ⟨fault', hfault⟩
    cases (hfault s rfl).symm.trans hfetch
    exact ⟨rfl, fun _ => rfl, fun hyes => absurd hyes haskable, fun _ => SavesAlike.refl scope s,
      fun t hrun => hlater t hrun _⟩

section Nodes

open Sample

def nodeId (key : UInt64) : EntityId := ⟨"Node", key⟩

/-- A node with this payload, and one with a code that is too large for nodes. -/
def nodeRows (payload : Json) : Rows :=
  Rows.file (Rows.file .empty "Node" 1 ⟨nodeId 1, 1, payload⟩) "Node" 2
    ⟨nodeId 2, 1, .object [("code", .ofUInt64 18446744073709551615)]⟩

/-- A store that took in the two nodes, and a context. -/
def nodesImported (payload : Json) : Session model :=
  (((Session.empty.openStore standardSchema .default).2.modifyStore ⟨0⟩ fun _ =>
    ⟨standardSchema, .default, 3, nodeRows payload⟩).openContext ⟨0⟩).2

theorem run_nodesImported {payload : Json}
    (h : (⟨1, 1, 3, nodeRows payload⟩ : Snapshot).check standardSchema = .ok ()) :
    Run (fun _ => True) .empty (nodesImported payload) := run_ofSnapshot h

/-- A node as it is written. -/
def firstNode : Json := Node.toJson { Node.blank with code := some 1 }

/-- The first node is read before the fetch fails at the second, and nothing is written for it. -/
theorem failed_fetch_of_nodes : ∃ s' : Session model,
    Run (fun _ => True) .empty (nodesImported firstNode) ∧
    ((Scope.within ⟨1⟩).fetch Kind.node (.all "Node")).outcome (nodesImported firstNode) =
      (.error (unreadable (T := model) Kind.node
        ⟨nodeId 2, 1, .object [("code", .ofUInt64 18446744073709551615)]⟩), s') ∧
    (nodesImported firstNode).readable ⟨1⟩ Kind.node = [(1, ⟨nodeId 1, 1, firstNode⟩)] ∧
    TakesIn (nodesImported firstNode) s' ⟨1⟩ Kind.node [(1, ⟨nodeId 1, 1, firstNode⟩)] ∧
    SavesAlike (.within ⟨1⟩) (nodesImported firstNode) s' := by
  have hrun : Run (fun _ => True) .empty (nodesImported firstNode) := run_nodesImported rfl
  have hfetch : ((Scope.within ⟨1⟩).fetch Kind.node (.all "Node")).outcome
      (nodesImported firstNode) = (.error (unreadable (T := model) Kind.node
        ⟨nodeId 2, 1, .object [("code", .ofUInt64 18446744073709551615)]⟩), _) := rfl
  have hreadable : (nodesImported firstNode).readable ⟨1⟩ Kind.node =
      [(1, ⟨nodeId 1, 1, firstNode⟩)] := rfl
  have haskable : (nodesImported firstNode).Askable ⟨1⟩ Kind.node (.all "Node") :=
    ⟨rfl, nodeDescription, rfl, rfl⟩
  rcases failed_fetch hrun hfetch with ⟨_, _, htakes, hsaves, _⟩
  refine ⟨_, hrun, hfetch, hreadable, hreadable ▸ (htakes haskable).1, hsaves ?_⟩
  intro entry hentry
  have hentry' : entry = (1, ⟨nodeId 1, 1, firstNode⟩) := List.mem_singleton.1 (hreadable ▸ hentry)
  subst hentry'
  intro v hdecode
  cases hdecode
  exact ⟨firstNode, rfl, Json.same_refl _, fun _ => ⟨nodeDescription, rfl, rfl⟩⟩

/-- The short form of the same node. -/
def shortNode : Json := .object [("code", .ofInt64 1)]

/-- A fetch that fails leaves an entity behind that makes the next save rewrite a row. -/
theorem failed_fetch_rewrites : ∃ (s' s₁ s₂ : Session model) (fault : Fault),
    Run (fun _ => True) .empty (nodesImported shortNode) ∧
    ((Scope.within ⟨1⟩).fetch Kind.node (.all "Node")).outcome (nodesImported shortNode) =
      (.error fault, s') ∧
    ((nodesImported shortNode).registry ⟨1⟩).contains 1 = false ∧
    (s'.registry ⟨1⟩).contains 1 = true ∧
    ((Scope.within ⟨1⟩).save (T := model)).outcome (nodesImported shortNode) = (.ok .zero, s₁) ∧
    ((Scope.within ⟨1⟩).save (T := model)).outcome s' = (.ok ⟨0, 1, 0⟩, s₂) ∧
    (s₁.rowsOf ⟨1⟩).row? (nodeId 1) = some ⟨nodeId 1, 1, shortNode⟩ ∧
    (s₂.rowsOf ⟨1⟩).row? (nodeId 1) = some ⟨nodeId 1, 2, firstNode⟩ :=
  ⟨_, _, _, _, run_nodesImported rfl, rfl, rfl, rfl, rfl, rfl, rfl, rfl⟩

end Nodes

end Session

end Reconcile
