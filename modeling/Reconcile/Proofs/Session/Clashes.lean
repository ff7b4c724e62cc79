import Reconcile.Proofs.Session.Upkeep

/-!
# Keys that clash

A registry has one entity for each key, so a row whose key is registered for another type is never
read.  Keys are unique in a store as far as insertions hand them out, but a snapshot is taken in
whatever keys its rows have.  Imports that bring only rows whose keys are their own (`Welcome`) keep
keys unique, and then a context that reads all types, in any order, finds every row once.
-/

namespace Reconcile

namespace Session

variable {T : Model} {s s' : Session T} {c : ContextId} {i : StoreId} {deed : Deed}

/-! ## Imports without clashes -/

/-- No two of these rows have the same key. -/
def KeysApart (rows : Rows) : Prop :=
  ∀ id id', (rows.row? id).isSome → (rows.row? id').isSome → id.key = id'.key → id = id'

/-- No two of these rows have the same key, and none has the key of another entity that a context of
the store knows. -/
structure Welcome (s : Session T) (i : StoreId) (rows : Rows) : Prop where
  apart : KeysApart rows
  registered : ∀ id c e, (rows.row? id).isSome → s.storeIdOf? c = some i →
    (s.registry c).get? id.key = some e → e.id = id

/-- A step that imports, if it does, only what is welcome. -/
def CarefulStep (s s' : Session T) : Prop :=
  ∃ deed, Step s deed s' ∧
    ∀ i store, deed = .imported i → s'.store? i = some store → s.Welcome i store.rows

abbrev CarefulRun : Session T → Session T → Prop := Relation.ReflTransGen CarefulStep

/-- A context of the store has an entity of this id. -/
def Known (s : Session T) (i : StoreId) (id : EntityId) : Prop :=
  ∃ c e, s.storeIdOf? c = some i ∧ (s.registry c).get? id.key = some e ∧ e.id = id

theorem Known.inUse {id : EntityId} (h : s.Known i id) : s.InUse i id := by
  rcases h with ⟨c, e, hi, he, hid⟩
  exact Or.inr ⟨c, id.key, e, hi, he, hid⟩

theorem inUse_restore (hs : Sound s) {store : Store} {j : StoreId} {id : EntityId}
    (h : (s.modifyStore i fun _ => store).InUse j id) :
    s.Known j id ∨ (j = i ∧ (store.rows.row? id).isSome) ∨ (j ≠ i ∧ s.InUse j id) := by
  rcases h with ⟨new, hnew, hrow⟩ | ⟨c, key, e, hi, he, hid⟩
  · rw [store?_modifyStore] at hnew
    split at hnew
    · next hj =>
      rcases Option.map_eq_some_iff.1 hnew with ⟨old, _, rfl⟩
      exact Or.inr (Or.inl ⟨hj.symm, hrow⟩)
    · next hj => exact Or.inr (Or.inr ⟨fun heq => hj heq.symm, Or.inl ⟨new, hnew, hrow⟩⟩)
  · refine Or.inl ⟨c, e, hi, ?_, hid⟩
    have hold : (s.registry c).get? key = some e := he
    rw [← hid, (hs.lodged hold).key]
    exact hold

theorem unambiguous_restore (hs : Sound s) (h : Unambiguous s) {store : Store}
    (hwelcome : s.Welcome i store.rows) : Unambiguous (s.modifyStore i fun _ => store) := by
  -- an imported row shares its key with no other entity that is known
  have hclash : ∀ {id id'}, s.Known i id → (store.rows.row? id').isSome → id.key = id'.key →
      id = id' := by
    rintro id id' ⟨c, e, hi, he, rfl⟩ hrow hkey
    rw [hkey] at he
    exact hwelcome.registered id' c e hrow hi he
  intro j id id' huse huse' hkey
  rcases inUse_restore hs huse with hknown | ⟨rfl, hrow⟩ | ⟨hj, hold⟩
  · rcases inUse_restore hs huse' with hknown' | ⟨rfl, hrow'⟩ | ⟨_, hold'⟩
    · exact h j id id' hknown.inUse hknown'.inUse hkey
    · exact hclash hknown hrow' hkey
    · exact h j id id' hknown.inUse hold' hkey
  · rcases inUse_restore hs huse' with hknown' | ⟨_, hrow'⟩ | ⟨hj, _⟩
    · exact (hclash hknown' hrow hkey.symm).symm
    · exact hwelcome.apart id id' hrow hrow' hkey
    · exact absurd rfl hj
  · rcases inUse_restore hs huse' with hknown' | ⟨hi, _⟩ | ⟨_, hold'⟩
    · exact h j id id' hold hknown'.inUse hkey
    · exact absurd hi hj
    · exact h j id id' hold hold' hkey

theorem CarefulStep.unambiguous (h : CarefulStep s s') (hs : Sound s) (hnumbered : Numbered s)
    (hunambiguous : Unambiguous s) : Unambiguous s' := by
  rcases h with ⟨deed, hstep, hcareful⟩
  by_cases hnative : deed.Native
  · exact hstep.unambiguous hs hnative hnumbered hunambiguous
  · cases hstep with
    | @restore i store snapshot store' hstore hrestore =>
      refine unambiguous_restore hs hunambiguous (hcareful i store' rfl ?_)
      rw [store?_modifyStore, if_pos rfl, hstore]
      rfl
    | _ => exact absurd trivial hnative

/-- However carefully sessions import, their keys stay unique while keys are left. -/
theorem CarefulRun.ordered (h : CarefulRun s s') (hs : Ordered s) (hkeys : KeysLeft s') :
    Ordered s' := by
  induction h with
  | refl => exact hs
  | tail hrun hstep ih =>
    rcases hstep with ⟨deed, hstep, hcareful⟩
    rcases ih (hstep.keysLeft hkeys) with ⟨hsound, hnumbered, hunambiguous⟩
    exact ⟨hstep.sound hsound, hstep.numbered hsound hkeys hnumbered,
      CarefulStep.unambiguous ⟨deed, hstep, hcareful⟩ hsound hnumbered hunambiguous⟩

/-! ## Reading all types -/

/-- Fetches everything of each of these types in turn, and answers with the ids. -/
def fetchTypes (scope : Scope) : List T.Kind → Attempt T (List (List EntityId))
  | [] => return []
  | k :: rest => do
    let found ← scope.fetch k (.all (T.entityName k))
    let others ← fetchTypes scope rest
    return found.map Handle.id :: others

/-- Rows of the type are described, and read as values that have payloads. -/
structure Legible (s : Session T) (c : ContextId) (k : T.Kind) : Prop where
  described : ∃ d, (s.schemaOf c).require (T.entityName k) = .ok d
  readable : ∀ key row, (key, row) ∈ s.rowsNamed c k →
    ∃ (v : T.Value k) (j : Json), T.decode k (some c) row.payload = some v ∧ T.encode v = .ok j

theorem Legible.isSome_decode (h : s.Legible c k) {key : UInt64} {row : Row}
    (hrow : (key, row) ∈ s.rowsNamed c k) : (T.decode k (some c) row.payload).isSome := by
  rcases h.readable key row hrow with ⟨v, _, hdecode, _⟩
  exact Option.isSome_iff_exists.2 ⟨v, hdecode⟩

/-- The registry has what was read from rows of these types, and nothing else. -/
structure HasRead (s s' : Session T) (c : ContextId) (kinds : List T.Kind) : Prop where
  grows : Grows s s'
  entry : ∀ key e, (s'.registry c).get? key = some e →
    ∃ k ∈ kinds, ∃ row, (key, row) ∈ s.rowsNamed c k ∧ s'.ReadFrom c k row e

section OneType

variable {scope : Scope} {k : T.Kind} {kinds : List T.Kind} {row : Row} {e : Entry T}
  {key : UInt64}

theorem HasRead.loads (h : HasRead s s' c kinds) {s'' : Session T}
    (hloads : Loads s' s'' c k (s'.rowsNamed c k)) : HasRead s s'' c (k :: kinds) := by
  refine ⟨h.grows.trans hloads.toGrows, ?_⟩
  intro key e he
  rcases hloads.entry c key e he with hold | ⟨_, _, _, row, hrow, hread⟩
  · rcases h.entry key e hold with ⟨l, hl, row, hrow, hread⟩
    exact ⟨l, List.mem_cons_of_mem _ hl, row, hrow, hread.grows hloads.toGrows⟩
  · rw [rowsNamed_of_grows h.grows] at hrow
    exact ⟨k, List.mem_cons_self, row, hrow, hread⟩

/-- With the name of a type that the others do not have, an entry was read from its rows. -/
theorem HasRead.entry_named (h : HasRead s s' c (k :: kinds)) (hs : Sound s)
    (hnames : ∀ l ∈ kinds, T.entityName l ≠ T.entityName k)
    (he : (s'.registry c).get? key = some e) (hname : e.id.entity = T.entityName k) :
    ∃ row, (key, row) ∈ s.rowsNamed c k ∧ s'.ReadFrom c k row e := by
  rcases h.entry key e he with ⟨l, hl, row, hrow, hread⟩
  rcases List.mem_cons.1 hl with rfl | hl
  · exact ⟨row, hrow, hread⟩
  · rw [hread.id_eq, (hs.rowsFor c l key row hrow).1] at hname
    exact absurd hname (hnames l hl)

/-- What was read of a legible type is live and committed, and can be seen. -/
theorem ReadFrom.visible (hlegible : s.Legible c k) (hrow : (key, row) ∈ s.rowsNamed c k)
    (h : s'.ReadFrom c k row e) :
    s'.entryDeleted e = false ∧ e.pending = false ∧ ∃ j, s'.visibleOf e = some (.ok j) := by
  rcases hlegible.readable key row hrow with ⟨v, j, hdecode, hencode⟩
  rcases h.value with ⟨v', hdecode', hm⟩
  cases hdecode.symm.trans hdecode'
  rcases h.entry with ⟨n, rfl⟩
  refine ⟨entryDeleted_of_entity? hm, rfl, j, ?_⟩
  rw [visibleOf, hm, Option.bind_some]
  exact congrArg some (payload_of_encode hencode)

theorem HasRead.fetchable (h : HasRead s s' c (k :: kinds)) (hs : Sound s)
    (hlegible : s.Legible c k) (hnames : ∀ l ∈ kinds, T.entityName l ≠ T.entityName k)
    (q : Query) (pending : Bool) (he : e ∈ (s'.registry c).values) :
    s'.Fetchable k q pending e := by
  intro heligible visible hvisible
  rcases SortedMap.mem_values_iff.1 he with ⟨key, hget⟩
  rcases h.entry_named hs hnames hget (eligible_iff.1 heligible).1 with ⟨row, hrow, hread⟩
  rcases hread.visible hlegible hrow with ⟨_, _, j, hj⟩
  cases hvisible.symm.trans hj
  exact ⟨j, rfl, fun _ => hread.kind_eq⟩

/-- With unique keys, what the registry has under the key of a row was read from that row. -/
theorem HasRead.entry_of_row (h : HasRead s s' c (k :: kinds))
    (hapart : KeysApart (s.rowsOf c)) (hnames : ∀ l ∈ kinds, T.entityName l ≠ T.entityName k)
    (hrow : (key, row) ∈ s.rowsNamed c k) (he : (s'.registry c).get? key = some e) :
    s'.ReadFrom c k row e := by
  rcases h.entry key e he with ⟨l, hl, row', hrow', hread⟩
  have hget := mem_rowsNamed_iff.1 hrow
  have hget' := mem_rowsNamed_iff.1 hrow'
  have hid := hapart ⟨T.entityName k, key⟩ ⟨T.entityName l, key⟩ (by rw [hget]; rfl)
    (by rw [hget']; rfl) rfl
  have hname : T.entityName k = T.entityName l := congrArg EntityId.entity hid
  rcases List.mem_cons.1 hl with rfl | hl
  · cases Option.some.inj (hget.symm.trans hget')
    exact hread
  · exact absurd hname.symm (hnames l hl)

theorem pairwise_rowsNamed (hs : Sound s) (c : ContextId) (k : T.Kind) :
    ((s.rowsNamed c k).map fun entry => entry.2.id).Pairwise fun a b => a.key < b.key := by
  rw [List.pairwise_map]
  refine List.Pairwise.imp_of_mem ?_ (SortedMap.sorted _)
  rintro ⟨key, row⟩ ⟨key', row'⟩ ha hb hlt
  rw [(hs.rowsFor c k key row ha).1, (hs.rowsFor c k key' row' hb).1]
  exact Std.compare_eq_lt.1 hlt

/-- Ids that stand in the order of their keys are determined by which they are. -/
theorem eq_of_ordered_ids {as bs : List EntityId} (ha : as.Pairwise fun a b => a.key < b.key)
    (hb : bs.Pairwise fun a b => a.key < b.key) (h : ∀ id, id ∈ as ↔ id ∈ bs) : as = bs := by
  have hirrefl : Std.Irrefl fun a b : EntityId => a.key < b.key := ⟨fun _ => UInt64.lt_irrefl _⟩
  have hantisymm : Std.Antisymm fun a b : EntityId => a.key < b.key :=
    ⟨fun _ _ hlt hgt => absurd (UInt64.lt_trans hlt hgt) (UInt64.lt_irrefl _)⟩
  exact List.Pairwise.eq_of_mem_iff ha hb fun {id} => h id

/-- One type more is read: a fetch finds each of its rows once. -/
theorem HasRead.fetch (h : HasRead s s' scope.context kinds) (hs : Sound s) (hs' : Sound s')
    (hapart : KeysApart (s.rowsOf scope.context)) (hlegible : s.Legible scope.context k)
    (hnames : ∀ l ∈ kinds, T.entityName l ≠ T.entityName k) :
    ∃ found s'', (scope.fetch k (.all (T.entityName k))).outcome s' = (.ok found, s'') ∧
      HasRead s s'' scope.context (k :: kinds) ∧ Sound s'' ∧
      found.map Handle.id = (s.rowsNamed scope.context k).map fun entry => entry.2.id := by
  have haskable : s'.Askable scope.context k (.all (T.entityName k)) := by
    rcases hlegible.described with ⟨d, hd⟩
    refine ⟨rfl, d, ?_, rfl⟩
    rw [h.grows.schemaOf]
    exact hd
  have hdecodes : ∀ key row, (key, row) ∈ s'.rowsNamed scope.context k →
      (s'.registry scope.context).get? key = none →
      (T.decode k (some scope.context) row.payload).isSome := by
    intro key row hrow _
    rw [rowsNamed_of_grows h.grows] at hrow
    exact hlegible.isSome_decode hrow
  rcases fetch_ok hs' scope haskable hdecodes
    (fun s₁ hloads e he => (h.loads hloads).fetchable hs hlegible hnames _ _ he) with
    ⟨found, s'', hfetch⟩
  rcases fetch_spec hs' scope k (.all (T.entityName k)) with ⟨hrun, hspec⟩
  have hfetches := hspec found s'' hfetch
  have hs'' : Sound s'' := by
    rw [hfetch] at hrun
    exact hrun.sound hs'
  have hread := h.loads hfetches.loads
  refine ⟨found, s'', hfetch, hread, hs'', ?_⟩
  -- both lists stand in key order, so it is enough that they have the same ids
  refine eq_of_ordered_ids ?_ (pairwise_rowsNamed hs _ k) ?_
  · rw [List.pairwise_map]
    exact hfetches.sorted hs'' rfl
  intro id
  rw [hfetches.mem_ids_iff hs'']
  constructor
  · rintro ⟨e, he, rfl, hmatch⟩
    rcases Option.isSome_iff_exists.1 hmatch with ⟨m, hm⟩
    have heligible := (matchOf?_eq_some hm).2.2.1
    rcases hread.entry_named hs hnames he (eligible_iff.1 heligible).1 with ⟨row, hrow, hfrom⟩
    exact List.mem_map.2 ⟨_, hrow, hfrom.id_eq.symm⟩
  · intro hid
    rcases List.mem_map.1 hid with ⟨⟨key, row⟩, hrow, rfl⟩
    have hrowid : row.id = ⟨T.entityName k, key⟩ := (hs.rowsFor _ k key row hrow).1
    have hregistered := hfetches.complete key row (by rw [rowsNamed_of_grows h.grows]; exact hrow)
    rcases Option.isSome_iff_exists.1 hregistered with ⟨e, he⟩
    have hfrom := hread.entry_of_row hapart hnames hrow he
    rcases hfrom.visible hlegible hrow with ⟨hlive, hcommitted, j, hvisible⟩
    refine ⟨e, by rw [hrowid]; exact he, hfrom.id_eq, ?_⟩
    have heligible : s''.Eligible k (s''.takesPending scope.context) e := by
      refine eligible_iff.2 ⟨?_, hlive, ?_⟩
      · rw [hfrom.id_eq, hrowid]
      · intro hpending
        rw [hcommitted] at hpending
        cases hpending
    have hfetchable := hfetches.fetchable e (SortedMap.mem_values_iff.2 ⟨key, he⟩)
    exact (isSome_matchOf?_iff heligible hvisible hfetchable).2 rfl

end OneType

/-- With unique keys a context that has read nothing yet finds every row of each type once,
whatever the order in which it asks for the types. -/
theorem fetchTypes_ok (scope : Scope) (hs : Sound s) (hapart : KeysApart (s.rowsOf scope.context))
    (kinds done : List T.Kind) (hread : HasRead s s' scope.context done) (hs' : Sound s')
    (hlegible : ∀ k ∈ kinds, s.Legible scope.context k)
    (hnames : ((kinds ++ done).map T.entityName).Nodup) :
    ∃ s'', (fetchTypes scope kinds).outcome s' = (.ok (kinds.map fun k =>
      (s.rowsNamed scope.context k).map fun entry => entry.2.id), s'') := by
  induction kinds generalizing done s' with
  | nil => exact ⟨s', rfl⟩
  | cons k rest ih =>
    have hsplit : ((rest ++ done).map T.entityName).Nodup ∧
        T.entityName k ∉ (rest ++ done).map T.entityName := by
      have hcons := List.nodup_cons.1 hnames
      exact ⟨hcons.2, hcons.1⟩
    -- names are not shared, so what was read before is not of this type
    have hother : ∀ l ∈ done, T.entityName l ≠ T.entityName k := by
      intro l hl heq
      exact hsplit.2 (heq ▸ List.mem_map.2 ⟨l, List.mem_append_right _ hl, rfl⟩)
    rcases hread.fetch hs hs' hapart (hlegible k List.mem_cons_self) hother with
      ⟨found, s₁, hfetch, hread₁, hs₁, hids⟩
    have hnames₁ : ((rest ++ k :: done).map T.entityName).Nodup := by
      refine (List.Perm.nodup_iff (List.Perm.map _ ?_)).2 hnames
      exact List.perm_middle
    rcases ih (k :: done) hread₁ hs₁ (fun l hl => hlegible l (List.mem_cons_of_mem _ hl)) hnames₁
      with ⟨s₂, hrest⟩
    refine ⟨s₂, ?_⟩
    rw [fetchTypes, Attempt.outcome_bind_of_ok hfetch, Attempt.outcome_bind_of_ok hrest, hids]
    rfl

/-- As long as imports are careful and keys are left, no two rows of a store have the same key, and
a context that is newly opened finds every row of each type once, whatever the order in which it
asks for the types. -/
theorem keys_apart (h : CarefulRun .empty s) (hkeys : s.KeysLeft) :
    (∀ i store, s.store? i = some store → KeysApart store.rows) ∧
    ∀ i store binding (kinds : List T.Kind), s.store? i = some store →
      (kinds.map T.entityName).Nodup →
      (∀ k ∈ kinds, (s.openContext i).2.Legible (s.openContext i).1 k) →
      ∃ s', (fetchTypes ⟨(s.openContext i).1, binding⟩ kinds).outcome (s.openContext i).2 =
        (.ok (kinds.map fun k =>
          (store.rows.ofEntity (T.entityName k)).toList.map fun entry => entry.2.id), s') := by
  have hordered : Ordered s := h.ordered ordered_empty hkeys
  have hapart : ∀ i store, s.store? i = some store → KeysApart store.rows := by
    intro i store hstore id id' hrow hrow'
    exact hordered.unambiguous i id id' (Or.inl ⟨store, hstore, hrow⟩)
      (Or.inl ⟨store, hstore, hrow'⟩)
  refine ⟨hapart, ?_⟩
  intro i store binding kinds hstore hnames hlegible
  have hcontext : (s.openContext i).2.context? (s.openContext i).1 = some ⟨i, .empty⟩ := by
    rw [context?_openContext]
    exact if_pos rfl
  have hstoreOf : (s.openContext i).2.storeOf? (s.openContext i).1 = some store := by
    rw [storeOf?, hcontext]
    exact hstore
  have hrows : (s.openContext i).2.rowsOf (s.openContext i).1 = store.rows :=
    rowsOf_of_storeOf? hstoreOf
  have hsound : Sound (s.openContext i).2 :=
    hordered.sound.openContext (by rw [hstore]; rfl)
  have hread : HasRead (T := T) (s.openContext i).2 (s.openContext i).2 (s.openContext i).1 [] := by
    refine ⟨Grows.refl _, ?_⟩
    intro key e he
    rw [registry, hcontext] at he
    cases he
  have hfetched := fetchTypes_ok ⟨(s.openContext i).1, binding⟩ hsound
    (by rw [hrows]; exact hapart i store hstore) kinds [] hread hsound hlegible
    (by rw [List.append_nil]; exact hnames)
  unfold rowsNamed at hfetched
  rw [hrows] at hfetched
  exact hfetched

section Importing

open Sample

def authorId (key : UInt64) : EntityId := ⟨"Author", key⟩

/-- A red tag under the first key, and an author. -/
def tagAndAuthor (key : UInt64) : Rows :=
  Rows.file (Rows.file .empty "Tag" 1 ⟨tagId, 1, tagPayload "red"⟩) "Author" key
    ⟨authorId key, 1, Author.toJson ⟨some "ann", none⟩⟩

/-- A store that took in the red tag and the author. -/
def imported (key : UInt64) : Session model :=
  (Session.empty.openStore blogSchema .default).2.modifyStore ⟨0⟩ fun _ =>
    ⟨blogSchema, .default, 3, tagAndAuthor key⟩

theorem step_imported {key : UInt64}
    (h : (⟨1, 1, 3, tagAndAuthor key⟩ : Snapshot).check blogSchema = .ok ()) :
    Step (Session.empty.openStore blogSchema .default).2 (.imported ⟨0⟩) (imported key) := by
  have hstore : (Session.empty.openStore (T := model) blogSchema .default).2.store? ⟨0⟩ =
      some (.new blogSchema .default) := rfl
  exact Step.imports hstore h

theorem step_opened : Step (.empty : Session model) .quiet
    (Session.empty.openStore blogSchema .default).2 := Step.openStore _ blogSchema .default

theorem row?_tagAndAuthor {key : UInt64} {id : EntityId}
    (h : ((tagAndAuthor key).row? id).isSome) : id = tagId ∨ id = authorId key := by
  by_cases hauthor : id = authorId key
  · exact Or.inr hauthor
  · refine Or.inl ?_
    by_contra htag
    have hnone : (tagAndAuthor key).row? id = none :=
      (Rows.row?_file_of_ne _ hauthor _).trans (Rows.row?_file_of_ne _ htag _)
    rw [hnone] at h
    cases h

/-- Under keys of their own, the tag and the author are both found. -/
theorem fetch_imported_apart : ∃ s', (fetchTypes (.within ⟨1⟩) [Kind.author, Kind.tag]).outcome
    ((imported 2).openContext ⟨0⟩).2 = (.ok [[authorId 2], [tagId]], s') := by
  have hcheck : (⟨1, 1, 3, tagAndAuthor 2⟩ : Snapshot).check blogSchema = .ok () := rfl
  have hwelcome : (Session.empty.openStore blogSchema .default).2.Welcome (T := model) ⟨0⟩
      (tagAndAuthor 2) := by
    refine ⟨?_, ?_⟩
    · intro id id' hrow hrow' hkey
      rcases row?_tagAndAuthor hrow with rfl | rfl <;>
        rcases row?_tagAndAuthor hrow' with rfl | rfl
      · rfl
      · exact absurd hkey (by decide)
      · exact absurd hkey (by decide)
      · rfl
    · intro id c e _ hi
      cases hi
  have hopened : CarefulStep (.empty : Session model)
      (Session.empty.openStore blogSchema .default).2 :=
    ⟨_, step_opened, fun i store hdeed => by cases hdeed⟩
  have himported : CarefulStep (Session.empty.openStore blogSchema .default).2 (imported 2) := by
    refine ⟨_, step_imported hcheck, ?_⟩
    intro i store hdeed hstore
    cases hdeed
    cases hstore
    exact hwelcome
  have hrun : CarefulRun .empty (imported 2) :=
    (Relation.ReflTransGen.single hopened).tail himported
  refine (keys_apart hrun (by decide)).2 ⟨0⟩ _ true [Kind.author, Kind.tag] rfl (by decide) ?_
  intro k hk
  rcases List.mem_cons.1 hk with rfl | hk
  · refine ⟨⟨authorDescription, rfl⟩, ?_⟩
    intro key row hrow
    have hrows : ((imported 2).openContext ⟨0⟩).2.rowsNamed ⟨1⟩ Kind.author =
        [(2, ⟨authorId 2, 1, Author.toJson ⟨some "ann", none⟩⟩)] := rfl
    cases List.mem_singleton.1 (hrows ▸ hrow)
    exact ⟨(⟨some "ann", none⟩ : Author), _, rfl, rfl⟩
  · cases List.mem_singleton.1 hk
    refine ⟨⟨tagDescription, rfl⟩, ?_⟩
    intro key row hrow
    have hrows : ((imported 2).openContext ⟨0⟩).2.rowsNamed ⟨1⟩ Kind.tag =
        [(1, ⟨tagId, 1, tagPayload "red"⟩)] := rfl
    cases List.mem_singleton.1 (hrows ▸ hrow)
    exact ⟨(⟨some "red", none⟩ : Tag), _, rfl, rfl⟩

/-- A snapshot with one key for both is taken in, and a context that has read the tag does not find
the author. -/
theorem fetch_imported_clash : ∃ s s' : Session model, Run (fun _ => True) .empty s ∧
    s.KeysLeft ∧ (∃ store, s.store? ⟨0⟩ = some store ∧ ¬ KeysApart store.rows) ∧
    (fetchTypes (.within ⟨1⟩) [Kind.tag, Kind.author]).outcome (s.openContext ⟨0⟩).2 =
      (.ok [[tagId], []], s') := by
  have hcheck : (⟨1, 1, 3, tagAndAuthor 1⟩ : Snapshot).check blogSchema = .ok () := rfl
  have hrun : Run (fun _ => True) .empty (imported 1) :=
    (step_opened.run trivial).trans ((step_imported hcheck).run trivial)
  refine ⟨imported 1, _, hrun, by decide, ⟨_, rfl, ?_⟩, rfl⟩
  intro hapart
  have hsame := hapart tagId (authorId 1) rfl rfl rfl
  exact absurd hsame (by decide)

end Importing

end Session

end Reconcile
