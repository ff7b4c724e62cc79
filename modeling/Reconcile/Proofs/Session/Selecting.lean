import Reconcile.Proofs.Session.Loading

/-!
# What a fetch selects

Of the entries of a registry a fetch keeps those of the type that are live and wanted and whose
visible payload the query accepts, in the order of the registry (`matchOf?`).  It fails when the
visible payload of one that it has to look at cannot be had, or when it accepts one of another type
under the same name.
-/

namespace Reconcile

namespace Session

variable {T : Model} {s s' : Session T} {k : T.Kind} {q : Query} {pending : Bool} {e : Entry T}

/-- A fetch of this type looks at the entry. -/
def Eligible (s : Session T) (k : T.Kind) (pending : Bool) (e : Entry T) : Prop :=
  ¬ (e.id.entity ≠ T.entityName k ∨ s.entryDeleted e = true ∨
    (e.pending = true ∧ (!pending) = true))

instance (s : Session T) (k : T.Kind) (pending : Bool) (e : Entry T) :
    Decidable (s.Eligible k pending e) :=
  inferInstanceAs (Decidable (¬ _))

theorem eligible_iff : s.Eligible k pending e ↔
    e.id.entity = T.entityName k ∧ s.entryDeleted e = false ∧
      (e.pending = true → pending = true) := by
  unfold Eligible
  cases s.entryDeleted e <;> cases e.pending <;> cases pending <;> simp

/-- What others see of the entity of an entry. -/
def visibleOf (s : Session T) (e : Entry T) : Option (Except Fault Json) :=
  (s.entity? e.slot).bind Entity.visible?

/-- The handle and the payload with which a fetch keeps an entry. -/
def matchOf? (s : Session T) (k : T.Kind) (q : Query) (pending : Bool) (e : Entry T) :
    Option (Handle k × Json) :=
  if s.Eligible k pending e then
    match s.visibleOf e with
    | some (.ok payload) =>
      if q.accepts payload then (e.handle? k).map fun h => (h, payload) else none
    | _ => none
  else none

/-! ## One entry -/

section Entry

variable {rest : List (Entry T)}

theorem selectMatches_of_ineligible (h : ¬ s.Eligible k pending e) :
    (Scope.selectMatches k q pending (e :: rest)).outcome s =
      (Scope.selectMatches k q pending rest).outcome s := by
  rw [Scope.selectMatches, Attempt.outcome_bind_of_ok (Attempt.outcome_get s),
    if_pos (not_not.1 h)]

theorem selectMatches_of_hidden (h : s.Eligible k pending e) (hvisible : s.visibleOf e = none) :
    (Scope.selectMatches k q pending (e :: rest)).outcome s =
      (Scope.selectMatches k q pending rest).outcome (s.report (.payloadMissing e.id)) := by
  rw [Scope.selectMatches, Attempt.outcome_bind_of_ok (Attempt.outcome_get s), if_neg h]
  unfold visibleOf at hvisible
  rw [hvisible]
  rfl

theorem selectMatches_of_visible {visible : Except Fault Json} (h : s.Eligible k pending e)
    (hvisible : s.visibleOf e = some visible) :
    (Scope.selectMatches k q pending (e :: rest)).outcome s =
      (Attempt.ofExcept visible >>= fun payload =>
        if q.accepts payload then
          match e.handle? k with
          | none => throw (.query (T.entityName k) (.otherType e.id))
          | some handle => do
            return (handle, payload) :: (← Scope.selectMatches k q pending rest)
        else Scope.selectMatches k q pending rest).outcome s := by
  rw [Scope.selectMatches, Attempt.outcome_bind_of_ok (Attempt.outcome_get s), if_neg h]
  unfold visibleOf at hvisible
  split
  · next hnone => cases hnone.symm.trans hvisible
  · next hsome =>
    obtain rfl := Option.some.inj (hsome.symm.trans hvisible)
    rfl

theorem selectMatches_of_refused {payload : Json} (h : s.Eligible k pending e)
    (hvisible : s.visibleOf e = some (.ok payload)) (hrefused : q.accepts payload = false) :
    (Scope.selectMatches k q pending (e :: rest)).outcome s =
      (Scope.selectMatches k q pending rest).outcome s := by
  rw [selectMatches_of_visible h hvisible]
  refine (Attempt.outcome_bind_of_ok (Attempt.outcome_ofExcept _ s)).trans ?_
  rw [hrefused]
  rfl

theorem selectMatches_of_accepted {payload : Json} (h : s.Eligible k pending e)
    (hvisible : s.visibleOf e = some (.ok payload)) (haccepted : q.accepts payload = true)
    {handle : Handle k} (hhandle : e.handle? k = some handle) :
    (Scope.selectMatches k q pending (e :: rest)).outcome s =
      (Scope.selectMatches k q pending rest >>= fun found =>
        pure ((handle, payload) :: found)).outcome s := by
  rw [selectMatches_of_visible h hvisible]
  refine (Attempt.outcome_bind_of_ok (Attempt.outcome_ofExcept _ s)).trans ?_
  rw [haccepted, hhandle]
  rfl

/-- An entry that the fetch cannot get past. -/
theorem selectMatches_of_bad {visible : Except Fault Json} (h : s.Eligible k pending e)
    (hvisible : s.visibleOf e = some visible)
    (hbad : ∀ payload, visible = .ok payload → q.accepts payload = true ∧ e.handle? k = none) :
    ∃ fault, (Scope.selectMatches k q pending (e :: rest)).outcome s = (.error fault, s) := by
  rw [selectMatches_of_visible h hvisible]
  cases visible with
  | error fault => exact ⟨fault, Attempt.outcome_bind_of_error (Attempt.outcome_ofExcept _ s)⟩
  | ok payload =>
    rcases hbad payload rfl with ⟨haccepted, hhandle⟩
    refine ⟨.query (T.entityName k) (.otherType e.id),
      (Attempt.outcome_bind_of_ok (Attempt.outcome_ofExcept _ s)).trans ?_⟩
    rw [haccepted, hhandle]
    rfl

end Entry

theorem handle?_eq_some_iff {h : Handle k} :
    e.handle? k = some h ↔ e.kind = k ∧ h = ⟨e.handle.slot, e.handle.id, e.handle.context⟩ := by
  unfold Entry.handle?
  split
  · next hkind => simp [hkind, eq_comm]
  · next hkind => simp [hkind]

theorem handle?_eq_none_iff : e.handle? k = none ↔ e.kind ≠ k := by
  unfold Entry.handle?
  split
  · next hkind => simp [hkind]
  · next hkind => simp [hkind]

/-! ## All entries -/

/-- The fetch can take the entry in: its visible payload can be had, and if the query accepts that,
the entity is of the type. -/
def Fetchable (s : Session T) (k : T.Kind) (q : Query) (pending : Bool) (e : Entry T) : Prop :=
  s.Eligible k pending e → ∀ visible, s.visibleOf e = some visible →
    ∃ payload, visible = .ok payload ∧ (q.accepts payload = true → e.kind = k)

/-- What selecting does, whether it gets to the end of the entries or not. -/
structure Selects (s : Session T) (k : T.Kind) (q : Query) (pending : Bool)
    (entries : List (Entry T)) (out : Except Fault (List (Handle k × Json)) × Session T) :
    Prop where
  run : Run Deed.Reading s out.2
  quiet : out.2 = { s with journal := out.2.journal }
  found : ∀ found, out.1 = .ok found → found = entries.filterMap (s.matchOf? k q pending)
  fetchable : ∀ found, out.1 = .ok found → ∀ e ∈ entries, s.Fetchable k q pending e
  succeeds : (∀ e ∈ entries, s.Fetchable k q pending e) → ∃ found, out.1 = .ok found

theorem matchOf?_eq_none (h : s.Eligible k pending e → ∀ payload,
    s.visibleOf e = some (.ok payload) → q.accepts payload = false) :
    s.matchOf? k q pending e = none := by
  unfold matchOf?
  split
  · next heligible =>
    split
    · next payload hvisible => rw [h heligible payload hvisible]; rfl
    · rfl
  · rfl

/-! ### One entry -/

/-- An entry is passed over with a report at most, or the fetch fails at it, or it is taken in. -/
theorem selectMatches_cases (k : T.Kind) (q : Query) (pending : Bool) (e : Entry T)
    (rest : List (Entry T)) (s : Session T) :
    (s.Fetchable k q pending e ∧ s.matchOf? k q pending e = none ∧
      ∃ s', (s' = s ∨ s' = s.report (.payloadMissing e.id)) ∧
        (Scope.selectMatches k q pending (e :: rest)).outcome s =
          (Scope.selectMatches k q pending rest).outcome s') ∨
    (¬ s.Fetchable k q pending e ∧
      ∃ fault, (Scope.selectMatches k q pending (e :: rest)).outcome s = (.error fault, s)) ∨
    (s.Fetchable k q pending e ∧ ∃ m, s.matchOf? k q pending e = some m ∧
      (Scope.selectMatches k q pending (e :: rest)).outcome s =
        (Scope.selectMatches k q pending rest >>= fun found => pure (m :: found)).outcome s) := by
  -- the checks, in the order in which a fetch makes them
  by_cases heligible : s.Eligible k pending e
  case neg =>
    exact Or.inl ⟨fun h => absurd h heligible, matchOf?_eq_none fun h => absurd h heligible, s,
      Or.inl rfl, selectMatches_of_ineligible heligible⟩
  cases hvisible : s.visibleOf e with
  | none =>
    refine Or.inl ⟨?_, matchOf?_eq_none ?_, s.report (.payloadMissing e.id), Or.inr rfl,
      selectMatches_of_hidden heligible hvisible⟩
    · intro _ visible hsome
      cases hvisible.symm.trans hsome
    · intro _ payload hpayload
      cases hvisible.symm.trans hpayload
  | some visible =>
    cases visible with
    | error fault =>
      refine Or.inr (Or.inl ⟨?_, selectMatches_of_bad heligible hvisible fun _ hok => by cases hok⟩)
      intro hfetchable
      rcases hfetchable heligible _ hvisible with ⟨payload, hok, _⟩
      cases hok
    | ok payload =>
      cases haccepted : q.accepts payload with
      | false =>
        refine Or.inl ⟨?_, matchOf?_eq_none ?_, s, Or.inl rfl,
          selectMatches_of_refused heligible hvisible haccepted⟩
        · intro _ visible hsome
          cases hvisible.symm.trans hsome
          exact ⟨payload, rfl, fun htrue => by cases haccepted.symm.trans htrue⟩
        · intro _ payload' hpayload
          cases hvisible.symm.trans hpayload
          exact haccepted
      | true =>
        cases hhandle : e.handle? k with
        | none =>
          refine Or.inr (Or.inl ⟨?_, selectMatches_of_bad heligible hvisible ?_⟩)
          · intro hfetchable
            rcases hfetchable heligible _ hvisible with ⟨payload', hok, hkind⟩
            cases hok
            exact handle?_eq_none_iff.1 hhandle (hkind haccepted)
          · intro payload' hok
            cases hok
            exact ⟨haccepted, hhandle⟩
        | some handle =>
          refine Or.inr (Or.inr ⟨?_, (handle, payload), ?_,
            selectMatches_of_accepted heligible hvisible haccepted hhandle⟩)
          · intro _ visible hsome
            cases hvisible.symm.trans hsome
            exact ⟨payload, rfl, fun _ => (handle?_eq_some_iff.1 hhandle).1⟩
          · unfold matchOf?
            rw [if_pos heligible, hvisible]
            dsimp only
            rw [if_pos haccepted, hhandle]
            rfl

/-! ### From one entry to the next -/

section Selects

variable {entries : List (Entry T)} {out : Except Fault (List (Handle k × Json)) × Session T}

theorem Selects.skip (h : s.Selects k q pending entries out)
    (hfetchable : s.Fetchable k q pending e) (hnone : s.matchOf? k q pending e = none) :
    s.Selects k q pending (e :: entries) out where
  run := h.run
  quiet := h.quiet
  found found hfound := by
    rw [List.filterMap_cons_none hnone]
    exact h.found found hfound
  fetchable found hfound := List.forall_mem_cons.2 ⟨hfetchable, h.fetchable found hfound⟩
  succeeds hall := h.succeeds (List.forall_mem_cons.1 hall).2

/-- A report ahead of selecting makes no difference. -/
theorem Selects.report {event : Event} (h : (s.report event).Selects k q pending entries out) :
    s.Selects k q pending entries out :=
  ⟨((Step.report s event).run trivial).trans h.run, h.quiet, h.found, h.fetchable, h.succeeds⟩

theorem selects_error (hunfetchable : ¬ s.Fetchable k q pending e) (fault : Fault) :
    s.Selects k q pending (e :: entries) (.error fault, s) where
  run := Run.refl s
  quiet := rfl
  found found hfound := by cases hfound
  fetchable found hfound := by cases hfound
  succeeds hall := absurd (hall e List.mem_cons_self) hunfetchable

theorem Selects.take {matches? : Attempt T (List (Handle k × Json))} {m : Handle k × Json}
    (h : s.Selects k q pending entries (matches?.outcome s))
    (hfetchable : s.Fetchable k q pending e) (hmatch : s.matchOf? k q pending e = some m) :
    s.Selects k q pending (e :: entries)
      ((matches? >>= fun found => pure (m :: found)).outcome s) := by
  rcases hout : matches?.outcome s with ⟨fault | found, s'⟩
  · rw [hout] at h
    rw [Attempt.outcome_bind_of_error hout]
    refine ⟨h.run, h.quiet, fun found hfound => ?_, fun found hfound => ?_, ?_⟩
    · cases hfound
    · cases hfound
    · intro hall
      rcases h.succeeds (List.forall_mem_cons.1 hall).2 with ⟨found, hfound⟩
      cases hfound
  · rw [hout] at h
    rw [Attempt.outcome_bind_of_ok hout]
    refine ⟨h.run, h.quiet, ?_, ?_, fun _ => ⟨_, rfl⟩⟩
    · intro all hall
      cases hall
      rw [List.filterMap_cons_some hmatch, ← h.found found rfl]
    · intro all hall
      exact List.forall_mem_cons.2 ⟨hfetchable, h.fetchable found rfl⟩

end Selects

theorem selects (k : T.Kind) (q : Query) (pending : Bool) (entries : List (Entry T))
    (s : Session T) : s.Selects k q pending entries
      ((Scope.selectMatches k q pending entries).outcome s) := by
  induction entries generalizing s with
  | nil =>
    refine ⟨Run.refl s, rfl, ?_, fun _ _ e he => absurd he List.not_mem_nil, fun _ => ⟨[], rfl⟩⟩
    intro found hfound
    exact (Except.ok.inj hfound).symm
  | cons e rest ih =>
    rcases selectMatches_cases k q pending e rest s with ⟨hfetchable, hnone, s', hs', heq⟩ |
      ⟨hunfetchable, fault, hfault⟩ | ⟨hfetchable, m, hmatch, heq⟩
    · rw [heq]
      rcases hs' with rfl | rfl
      · exact (ih s').skip hfetchable hnone
      · exact (ih _).report.skip hfetchable hnone
    · rw [hfault]
      exact selects_error hunfetchable fault
    · rw [heq]
      exact (ih s).take hfetchable hmatch

/-! ## Entries that match -/

theorem matchOf?_eq_some {m : Handle k × Json}
    (h : s.matchOf? k q pending e = some m) :
    m.1 = ⟨e.handle.slot, e.handle.id, e.handle.context⟩ ∧ e.kind = k ∧
      s.Eligible k pending e ∧ s.visibleOf e = some (.ok m.2) ∧ q.accepts m.2 = true := by
  unfold matchOf? at h
  split at h
  · next heligible =>
    split at h
    · next payload hvisible =>
      split at h
      · next haccepted =>
        rcases Option.map_eq_some_iff.1 h with ⟨handle, hhandle, rfl⟩
        rcases handle?_eq_some_iff.1 hhandle with ⟨hkind, rfl⟩
        exact ⟨rfl, hkind, heligible, hvisible, haccepted⟩
      · cases h
    · cases h
  · cases h

theorem isSome_matchOf?_iff (heligible : s.Eligible k pending e)
    {payload : Json} (hvisible : s.visibleOf e = some (.ok payload))
    (hfetchable : s.Fetchable k q pending e) :
    (s.matchOf? k q pending e).isSome ↔ q.accepts payload = true := by
  constructor
  · intro hsome
    rcases Option.isSome_iff_exists.1 hsome with ⟨m, hm⟩
    rcases matchOf?_eq_some hm with ⟨_, _, _, hvisible', haccepted⟩
    cases hvisible.symm.trans hvisible'
    exact haccepted
  · intro haccepted
    rcases hfetchable heligible _ hvisible with ⟨payload', hpayload, hkind⟩
    cases hpayload
    have hhandle : e.handle? k = some ⟨e.handle.slot, e.handle.id, e.handle.context⟩ :=
      handle?_eq_some_iff.2 ⟨hkind haccepted, rfl⟩
    unfold matchOf?
    rw [if_pos heligible, hvisible]
    dsimp only
    rw [if_pos haccepted, hhandle]
    rfl

end Session

end Reconcile
