import Reconcile.Proofs.Query.Sorting
import Reconcile.Proofs.Session.Fetching

/-!
# What fetches cannot tell apart

A fetch of a context depends on little of a session: the rows and the schema of the context's store,
its registry, and of the entities in the registry whether they are deleted and what others see of
them.  Sessions that are alike in this (`Alike`) give the same answer, the same entities in the same
order or the same fault, and stay alike.

The entities need not be in the same slots of both sessions: `place` says where an entity of the
first one is in the second.
-/

namespace Reconcile

/-- The same entity in another session. -/
def Handle.placed {K : Type} {k : K} (place : Nat → Nat) (h : Handle k) : Handle k :=
  { h with slot := place h.slot }

def Entry.placed {T : Model} (place : Nat → Nat) (e : Entry T) : Entry T :=
  ⟨e.kind, e.handle.placed place, e.pending⟩

/-- To others the entities look the same. -/
structure Entity.LooksLike {T : Model} (m m' : Entity T) : Prop where
  deleted : m'.deleted = m.deleted
  visible? : m'.visible? = m.visible?

theorem Entity.LooksLike.refl {T : Model} (m : Entity T) : m.LooksLike m := ⟨rfl, rfl⟩

/-- The attempts ended alike. -/
structure Attempt.Agree {T : Model} {α β : Type} (f : α → β)
    (R : Session T → Session T → Prop) (out : Except Fault α × Session T)
    (out' : Except Fault β × Session T) : Prop where
  result : out'.1 = out.1.map f
  related : R out.2 out'.2

theorem Attempt.Agree.bind {T : Model} {α α' β β' : Type} {g : α → α'} {f : β → β'}
    {R : Session T → Session T → Prop} {a : Attempt T α} {a' : Attempt T α'} {next : α → Attempt T β}
    {next' : α' → Attempt T β'} {s s' : Session T} (h : Agree g R (a.outcome s) (a'.outcome s'))
    (hnext : ∀ x s s', R s s' → Agree f R ((next x).outcome s) ((next' (g x)).outcome s')) :
    Agree f R ((a >>= next).outcome s) ((a' >>= next').outcome s') := by
  rcases hout : a.outcome s with ⟨fault | x, s₁⟩
  · rcases hout' : a'.outcome s' with ⟨result', s₁'⟩
    rw [hout, hout'] at h
    obtain rfl : result' = .error fault := h.result
    rw [Attempt.outcome_bind_of_error hout, Attempt.outcome_bind_of_error hout']
    exact ⟨rfl, h.related⟩
  · rcases hout' : a'.outcome s' with ⟨result', s₁'⟩
    rw [hout, hout'] at h
    obtain rfl : result' = .ok (g x) := h.result
    rw [Attempt.outcome_bind_of_ok hout, Attempt.outcome_bind_of_ok hout']
    exact hnext x s₁ s₁' h.related

namespace Session

variable {T : Model} {s s' : Session T} {c : ContextId} {k : T.Kind} {q : Query} {e : Entry T}
  {place : Nat → Nat} {pending : Bool} {scope : Scope}

/-- Fetches in the context cannot tell the sessions apart. -/
structure Alike (place : Nat → Nat) (c : ContextId) (s s' : Session T) : Prop where
  isOpen : (s'.storeIdOf? c).isSome = (s.storeIdOf? c).isSome
  schemaOf : s'.schemaOf c = s.schemaOf c
  settingsOf : s'.settingsOf c = s.settingsOf c
  rowsOf : s'.rowsOf c = s.rowsOf c
  /-- Entities that are added to both are in places that belong together. -/
  aligned : ∀ n, place (s.entities.size + n) = s'.entities.size + n
  registry : s'.registry c = (s.registry c).map (Entry.placed place)
  entity : ∀ e ∈ (s.registry c).values, ∃ m m', s.entity? e.slot = some m ∧
    s'.entity? (place e.slot) = some m' ∧ m.LooksLike m'

namespace Alike

theorem journal (h : Alike place c s s') (journal journal' : Array Event) :
    Alike place c { s with journal } { s' with journal := journal' } :=
  ⟨h.isOpen, h.schemaOf, h.settingsOf, h.rowsOf, h.aligned, h.registry, h.entity⟩

/-! ## Reading rows -/

theorem storeOf?_enroll {id : EntityId} {v : T.Value k} :
    (s.enroll c k id v pending).storeOf? c = s.storeOf? c := by
  rw [storeOf?_eq, storeIdOf?_enroll, storeOf?_eq]
  exact congrArg (fun stores : Array Store => (s.storeIdOf? c).bind fun i => stores[i.number]?)
    stores_enroll

theorem rowsOf_enroll {id : EntityId} {v : T.Value k} :
    (s.enroll c k id v pending).rowsOf c = s.rowsOf c := by
  rw [Session.rowsOf, storeOf?_enroll, Session.rowsOf]

theorem enroll (h : Alike place c s s') {ctx : Context T} (hctx : s.context? c = some ctx)
    {id : EntityId} {v : T.Value k} :
    Alike place c (s.enroll c k id v pending) (s'.enroll c k id v pending) := by
  have hplace : place s.entities.size = s'.entities.size := h.aligned 0
  constructor
  case isOpen => rw [storeIdOf?_enroll, storeIdOf?_enroll, h.isOpen]
  case schemaOf =>
    rw [Session.schemaOf, storeOf?_enroll, Session.schemaOf, storeOf?_enroll]
    exact h.schemaOf
  case settingsOf =>
    rw [Session.settingsOf, storeOf?_enroll, Session.settingsOf, storeOf?_enroll]
    exact h.settingsOf
  case rowsOf => rw [rowsOf_enroll, rowsOf_enroll, h.rowsOf]
  case aligned =>
    intro n
    rw [size_enroll, size_enroll, Nat.add_assoc, h.aligned, Nat.add_assoc]
  case registry =>
    have hisOpen := h.isOpen
    unfold storeIdOf? at hisOpen
    rw [hctx, Option.isSome_map, Option.map_some, Option.isSome_some] at hisOpen
    rcases Option.isSome_iff_exists.1 hisOpen with ⟨ctx', hctx'⟩
    rw [registry_enroll_self hctx, registry_enroll_self hctx', SortedMap.map_insert, h.registry,
      ← hplace]
    rfl
  case entity =>
    -- the new entities hold the same value, and the old ones stay
    intro e he
    rcases SortedMap.mem_values_iff.1 he with ⟨key, hget⟩
    rcases entry_of_enroll hctx hget with ⟨_, rfl, rfl⟩ | hold
    · refine ⟨_, _, entity?_enroll_new, ?_, .refl _⟩
      show (s'.enroll c k id v pending).entity? (place s.entities.size) = _
      rw [hplace]
      exact entity?_enroll_new
    · rcases h.entity e (SortedMap.mem_values_iff.2 ⟨key, hold⟩) with ⟨m, m', hm, hm', hlike⟩
      exact ⟨m, m', entity?_enroll hm, entity?_enroll hm', hlike⟩

theorem adoptRows (h : Alike place scope.context s s') (k : T.Kind) (rows : List (UInt64 × Row))
    (hrows : ∀ key row, (key, row) ∈ rows →
      ∃ id, (s.rowsOf scope.context).row? id = some row) :
    Attempt.Agree id (Alike place scope.context) ((scope.adoptRows k rows).outcome s)
      ((scope.adoptRows k rows).outcome s') := by
  -- both sides skip, refuse and take in the same rows
  induction rows generalizing s s' with
  | nil => exact ⟨rfl, h⟩
  | cons entry rest ih =>
    rcases entry with ⟨key, row⟩
    have hcontains : (s'.registry scope.context).contains key =
        (s.registry scope.context).contains key := by
      rw [h.registry, SortedMap.contains, SortedMap.get?_map, Option.isSome_map]
      rfl
    have hrest : ∀ key row, (key, row) ∈ rest →
        ∃ id, (s.rowsOf scope.context).row? id = some row :=
      fun key row hrow => hrows key row (List.mem_cons_of_mem _ hrow)
    cases hregistered : (s.registry scope.context).contains key with
    | true =>
      rw [adoptRows_cons_of_registered hregistered,
        adoptRows_cons_of_registered (hcontains.trans hregistered)]
      exact ih h hrest
    | false =>
      cases hdecode : T.decode k (some scope.context) row.payload with
      | none =>
        rw [adoptRows_cons_of_undecodable hregistered hdecode,
          adoptRows_cons_of_undecodable (hcontains.trans hregistered) hdecode]
        exact ⟨rfl, h⟩
      | some v =>
        rcases hrows key row List.mem_cons_self with ⟨id, hrow⟩
        rcases storeOf?_of_row? hrow with ⟨store, hstore, _⟩
        rcases isOpen_of_storeOf? hstore with ⟨ctx, hctx, _⟩
        rw [adoptRows_cons_of_decoded hregistered hdecode,
          adoptRows_cons_of_decoded (hcontains.trans hregistered) hdecode]
        refine ih (h.enroll hctx) ?_
        intro key row hrow
        rw [rowsOf_enroll]
        exact hrest key row hrow

/-! ## Selecting -/

/-- What a fetch answers with, as the other session has it. -/
abbrev placedMatch (place : Nat → Nat) (m : Handle k × Json) : Handle k × Json :=
  (m.1.placed place, m.2)

theorem handle?_placed (e : Entry T) (k : T.Kind) :
    (e.placed place).handle? k = (e.handle? k).map (Handle.placed place) := by
  unfold Entry.handle?
  by_cases hkind : e.kind = k
  · rw [if_pos hkind, if_pos (show (e.placed place).kind = k from hkind)]
    rfl
  · rw [if_neg hkind, if_neg (show (e.placed place).kind ≠ k from hkind)]
    rfl

section Entry

variable {m m' : Entity T} (hm : s.entity? e.slot = some m)
  (hm' : s'.entity? (place e.slot) = some m') (hlike : m.LooksLike m')
include hm hm' hlike

theorem eligible_placed_iff : s'.Eligible k pending (e.placed place) ↔ s.Eligible k pending e := by
  have hdeleted : s'.entryDeleted (e.placed place) = s.entryDeleted e := by
    rw [entryDeleted_of_entity? hm, ← hlike.deleted]
    exact entryDeleted_of_entity? hm'
  rw [eligible_iff, eligible_iff, hdeleted]
  rfl

theorem visibleOf_placed : s'.visibleOf (e.placed place) = s.visibleOf e := by
  rw [visibleOf, visibleOf, hm, Option.bind_some, ← hlike.visible?]
  exact congrArg (fun m => Option.bind m Entity.visible?) hm'

end Entry

theorem selectMatches (h : Alike place c s s') (es : List (Entry T))
    (hes : ∀ e ∈ es, ∃ m m', s.entity? e.slot = some m ∧ s'.entity? (place e.slot) = some m' ∧
      m.LooksLike m') :
    Attempt.Agree (List.map (placedMatch place)) (Alike place c)
      ((Scope.selectMatches k q pending es).outcome s)
      ((Scope.selectMatches k q pending (es.map (Entry.placed place))).outcome s') := by
  -- entities that look alike are passed over, refused and matched alike
  induction es generalizing s s' with
  | nil => exact ⟨rfl, h⟩
  | cons e rest ih =>
    rcases hes e List.mem_cons_self with ⟨m, m', hm, hm', hlike⟩
    have hrest : ∀ e ∈ rest, ∃ m m', s.entity? e.slot = some m ∧
        s'.entity? (place e.slot) = some m' ∧ m.LooksLike m' :=
      fun e he => hes e (List.mem_cons_of_mem _ he)
    have heligible : s'.Eligible k pending (e.placed place) ↔ s.Eligible k pending e :=
      eligible_placed_iff hm hm' hlike
    rw [List.map_cons]
    by_cases hlook : s.Eligible k pending e
    · have hvisible := visibleOf_placed hm hm' hlike
      cases hshown : s.visibleOf e with
      | none =>
        rw [selectMatches_of_hidden hlook hshown,
          selectMatches_of_hidden (heligible.2 hlook) (hvisible.trans hshown)]
        exact ih (h.journal _ _) hrest
      | some visible =>
        rw [selectMatches_of_visible hlook hshown,
          selectMatches_of_visible (heligible.2 hlook) (hvisible.trans hshown)]
        cases visible with
        | error fault => exact ⟨rfl, h⟩
        | ok payload =>
          rw [Attempt.outcome_bind_of_ok (Attempt.outcome_ofExcept _ s),
            Attempt.outcome_bind_of_ok (Attempt.outcome_ofExcept _ s'), handle?_placed]
          split
          · cases e.handle? k with
            | none => exact ⟨rfl, h⟩
            | some handle => exact (ih h hrest).bind fun _ _ _ ht => ⟨rfl, ht⟩
          · exact ih h hrest
    · rw [selectMatches_of_ineligible hlook, selectMatches_of_ineligible (heligible.not.2 hlook)]
      exact ih h hrest

/-! ## Fetching -/

theorem arrange_placed (found : List (Handle k × Json)) :
    Query.arrange q (found.map (placedMatch place)) =
      (Query.arrange q found).map (placedMatch place) := by
  unfold Query.arrange
  split
  · rfl
  · exact sortStable_map (fun _ _ => rfl) found

theorem takesPending (h : Alike place c s s') : s'.takesPending c = s.takesPending c := by
  rw [Session.takesPending, h.settingsOf, Session.takesPending]

/-- A fetch answers alike in sessions that are alike, and leaves them alike. -/
theorem fetch (h : Alike place scope.context s s') (k : T.Kind) (q : Query) :
    Attempt.Agree (List.map (Handle.placed place)) (Alike place scope.context)
      ((scope.fetch k q).outcome s) ((scope.fetch k q).outcome s') := by
  by_cases haskable : s.Askable scope.context k q
  · have haskable' : s'.Askable scope.context k q := by
      rw [Askable, h.schemaOf]
      exact haskable
    have hrows : s'.rowsNamed scope.context k = s.rowsNamed scope.context k := by
      rw [rowsNamed, h.rowsOf, rowsNamed]
    rw [fetch_of_askable haskable, fetch_of_askable haskable', hrows]
    refine (h.adoptRows k _ fun key row hrow => ⟨_, mem_rowsNamed_iff.1 hrow⟩).bind ?_
    intro _ t t' ht
    -- the entries of both registries are looked at in the same order
    rw [Attempt.outcome_bind_of_ok (Attempt.outcome_get t),
      Attempt.outcome_bind_of_ok (Attempt.outcome_get t'), ht.takesPending, ht.registry,
      SortedMap.values_map]
    refine (ht.selectMatches _ ht.entity).bind ?_
    intro found t t' ht
    refine ⟨?_, ht.journal _ _⟩
    show Except.ok ((Query.arrange q (found.map (placedMatch place))).map (·.1)) =
      Except.ok (((Query.arrange q found).map (·.1)).map (Handle.placed place))
    rw [arrange_placed, List.map_map, List.map_map]
    rfl
  · rcases fetch_of_not_askable haskable with ⟨fault, hfault⟩
    rw [hfault s rfl, hfault s' h.schemaOf]
    exact ⟨rfl, h⟩

end Alike

end Session

end Reconcile
