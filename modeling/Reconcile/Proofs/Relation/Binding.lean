import Reconcile.Proofs.Mapping.Cascading

/-!
# What binding members answers

A member that is bound answers with what it is bound to, whatever the context has by now, and one
that is not bound answers with what is found by its id (`Member.answer`).  Looking up members only
reads, so what is found of one of them is found at the end as well: the lookups can all be read off
the session that they leave (`bindAll_answers`, `bindDistinctIn_answers`).
-/

namespace Reconcile

open Session

variable {T : Model} {k : T.Kind} {s s' s₁ s₂ : Session T} {scope : Scope} {c : ContextId}
  {m : Member k} {ms : List (Member k)} {h : Handle k} {hs : List (Handle k)} {id : EntityId}
  {seen : List EntityId}

/-! ## Looking up ids -/

namespace Session

/-- What looking up an id would find. -/
def found? (s : Session T) (scope : Scope) (k : T.Kind) (id : EntityId) : Option (Handle k) :=
  ((scope.locate k id).outcome s).1.toOption

theorem found?_eq_some :
    s.found? scope k id = some h ↔ ((scope.locate k id).outcome s).1 = .ok h :=
  Outcome.toOption_eq_some

theorem isSome_found? : (s.found? scope k id).isSome ↔ s.Resolves scope k id := by
  rw [Option.isSome_iff_exists]
  exact exists_congr fun h => found?_eq_some

theorem found?_eq_none : s.found? scope k id = none ↔ ¬ s.Resolves scope k id := by
  rw [← isSome_found?, Option.not_isSome_iff_eq_none]

theorem delivers_of_found? (hsound : Sound s) (hfound : s.found? scope k id = some h) :
    ∃ s₁, (scope.locate k id).outcome s = (.ok h, s₁) ∧ s₁.Delivers scope.context h ∧
      h.id = id := by
  have hok := found?_eq_some.1 hfound
  have hlocate : (scope.locate k id).outcome s = (.ok h, ((scope.locate k id).outcome s).2) :=
    Prod.ext hok rfl
  exact ⟨_, hlocate, delivers_locate hsound hlocate⟩

/-- Reading rows finds no entity and loses none. -/
theorem Loads.resolves_iff (hloads : Loads s s' scope.context k (s.rowsNamed scope.context k))
    (hsound : Sound s) (hsound' : Sound s') :
    s'.Resolves scope k id ↔ s.Resolves scope k id := by
  rw [Session.resolves_iff hsound', Session.resolves_iff hsound, hloads.seen?_eq hsound]

/-- What was handed out is found where only rows were read since. -/
theorem found?_of_delivers (hdelivers : s.Delivers scope.context h) (hgrows : Grows s s')
    (hsound' : Sound s') : s'.found? scope k h.id = some h := by
  rcases hdelivers.enrolled with ⟨pending, he⟩
  rcases hdelivers.holds with ⟨m, hm, _⟩
  have hlive : m.deleted = false := by simpa [isDeleted, hm] using hdelivers.live
  rw [hdelivers.context] at he
  exact found?_eq_some.2 (congrArg Prod.fst
    (locate_of_entry hsound' (hgrows.registry _ _ _ he) (hgrows.entity hm) hlive))

theorem Delivers.grows (hdelivers : s.Delivers c h) (hgrows : Grows s s') : s'.Delivers c h := by
  rcases hdelivers.holds with ⟨m, hm, hkind⟩
  rcases hdelivers.enrolled with ⟨pending, he⟩
  have hm' := hgrows.entity hm
  refine ⟨hdelivers.context, hdelivers.name, ⟨m, hm', hkind⟩, ?_, pending,
    hgrows.registry _ _ _ he⟩
  rw [isDeleted, hm', ← hm]
  exact hdelivers.live

theorem Loads.trans_rowsNamed {s'' : Session T} (h : Loads s s' c k (s.rowsNamed c k))
    (h' : Loads s' s'' c k (s'.rowsNamed c k)) : Loads s s'' c k (s.rowsNamed c k) := by
  have hrows : s'.rowsNamed c k = s.rowsNamed c k := rowsNamed_of_grows h.toGrows
  exact h.trans (hrows ▸ h')

end Session

/-! ## Answers -/

namespace Member

/-- The handle that a member is bound to, or else what is found by its id. -/
def answer (s : Session T) (scope : Scope) (m : Member k) : Option (Handle k) :=
  m.bound.or (s.found? scope k m.id)

theorem isSome_answer : (m.answer s scope).isSome ↔ m.bound.isSome ∨ s.Resolves scope k m.id := by
  rw [answer, Option.isSome_or, Bool.or_eq_true, isSome_found?]

theorem answer_eq_none :
    m.answer s scope = none ↔ m.bound = none ∧ ¬ s.Resolves scope k m.id := by
  rw [answer, Option.or_eq_none_iff, found?_eq_none]

/-- The member bound to its answer. -/
def settled (s : Session T) (scope : Scope) (m : Member k) : Member k :=
  { m with bound := m.answer s scope }

theorem id_settled (s : Session T) (scope : Scope) (m : Member k) :
    (m.settled s scope).id = m.id := rfl

/-- The lookup of a member, read off any session in which only rows were read since.  What it finds
by the id is registered from then on. -/
structure Answers (s : Session T) (scope : Scope) (m : Member k)
    (lookup : Work T (Option (Handle k) × Member k)) (s' : Session T) : Prop where
  sound : Sound s'
  loads : Loads s s' scope.context k (s.rowsNamed scope.context k)
  later : ∀ s₂, Sound s₂ → Loads s' s₂ scope.context k (s'.rowsNamed scope.context k) →
    lookup s = ((m.answer s₂ scope, m.settled s₂ scope), s')
  delivers : ∀ s₂, Sound s₂ → Loads s' s₂ scope.context k (s'.rowsNamed scope.context k) →
    m.bound = none → ∀ h ∈ m.answer s₂ scope, s₂.Delivers scope.context h

theorem answers_of_bound (hsound : Sound s) (hbound : m.bound = some h)
    {lookup : Work T (Option (Handle k) × Member k)} (hlookup : lookup s = ((some h, m), s)) :
    Answers s scope m lookup s where
  sound := hsound
  loads := Loads.refl s _ k _
  later s₂ _ _ := by
    have hanswer : m.answer s₂ scope = some h := by rw [answer, hbound, Option.some_or]
    have hsettled : m.settled s₂ scope = m := by rw [settled, hanswer, ← hbound]
    rw [hlookup, hanswer, hsettled]
  delivers _ _ _ hnone := nomatch hbound.symm.trans hnone

/-- A lookup that fails leaves a report, and the member as it is. -/
theorem answers_of_unresolved (hsound : Sound s) (hbound : m.bound = none)
    (hunresolved : ¬ s.Resolves scope k m.id) (event : Event)
    {lookup : Work T (Option (Handle k) × Member k)}
    (hlookup : lookup s = ((none, m), s.report event)) :
    Answers s scope m lookup (s.report event) := by
  have hloads : Loads s (s.report event) scope.context k (s.rowsNamed scope.context k) :=
    Loads.journal s _ k _ _
  have hanswer : ∀ s₂, Sound s₂ → Loads (s.report event) s₂ scope.context k
      ((s.report event).rowsNamed scope.context k) → m.answer s₂ scope = none := by
    intro s₂ hsound₂ hlater
    refine answer_eq_none.2 ⟨hbound, ?_⟩
    rwa [(hloads.trans_rowsNamed hlater).resolves_iff hsound hsound₂]
  refine ⟨hsound.report event, hloads, ?_, ?_⟩
  · intro s₂ hsound₂ hlater
    have hsettled : m.settled s₂ scope = m := by
      rw [settled, hanswer s₂ hsound₂ hlater, ← hbound]
    rw [hlookup, hanswer s₂ hsound₂ hlater, hsettled]
  · intro s₂ hsound₂ hlater _ h hh
    rw [hanswer s₂ hsound₂ hlater] at hh
    cases hh

theorem exists_answers_bindIn (hsound : Sound s) (scope : Scope) (m : Member k) :
    ∃ s', Answers s scope m (m.bindIn scope) s' := by
  cases hbound : m.bound with
  | some h =>
    refine ⟨s, answers_of_bound hsound hbound ?_⟩
    simp only [bindIn, hbound]
    rfl
  | none =>
    have hlocates := locates hsound scope k m.id
    rcases hlocate : (scope.locate k m.id).outcome s with ⟨fault | h, s₁⟩
    · have hsame := locate_error hsound (congrArg Prod.fst hlocate)
      rw [hlocate] at hsame
      obtain rfl : s₁ = s := hsame
      have hunresolved : ¬ s₁.Resolves scope k m.id := by
        rintro ⟨h, hok⟩
        rw [hlocate] at hok
        cases hok
      refine ⟨_, answers_of_unresolved hsound hbound hunresolved (.bindFailed m.id fault) ?_⟩
      simp only [bindIn, hbound, Work.bind_apply, hlocate]
      rfl
    · rw [hlocate] at hlocates
      rcases delivers_locate hsound hlocate with ⟨hdelivers, hid⟩
      have hanswer : ∀ s₂, Sound s₂ → Grows s₁ s₂ → m.answer s₂ scope = some h := by
        intro s₂ hsound₂ hgrows
        rw [answer, hbound, Option.none_or, ← hid, found?_of_delivers hdelivers hgrows hsound₂]
      refine ⟨s₁, hlocates.run.sound hsound, hlocates.loads, ?_, ?_⟩
      · intro s₂ hsound₂ hlater
        have hanswer₂ := hanswer s₂ hsound₂ hlater.toGrows
        simp only [bindIn, hbound, Work.bind_apply, hlocate, settled, hanswer₂]
        rfl
      · intro s₂ hsound₂ hlater _ h' hh'
        rw [hanswer s₂ hsound₂ hlater.toGrows] at hh'
        cases hh'
        exact hdelivers.grows hlater.toGrows

/-- A context that is closed finds nothing. -/
theorem not_resolves_of_closed (hsound : Sound s) (hclosed : s.isOpen scope.context = false) :
    ¬ s.Resolves scope k id := by
  have hcontext : s.context? scope.context = none := by
    simpa [isOpen, SortedMap.contains, context?] using hclosed
  have hregistry : (s.registry scope.context).get? id.key = none := by
    rw [registry, hcontext]
    rfl
  have hrows : s.rowsOf scope.context = .empty := by
    rw [rowsOf, storeOf?, hcontext]
    rfl
  rw [resolves_iff hsound, seen?_of_row hregistry, hrows]
  rintro ⟨_, hsome⟩
  cases hsome

/-- A member of a field that was read in a context is looked up there. -/
theorem exists_answers_bind (hsound : Sound s) (c : ContextId) (m : Member k) :
    ∃ s', Answers s (.within c) m (m.bind (some c)) s' := by
  cases hopen : s.isOpen c with
  | true =>
    rcases exists_answers_bindIn hsound (.within c) m with ⟨s', hanswers⟩
    have hsame : m.bind (some c) s = m.bindIn (.within c) s := by
      cases hbound : m.bound with
      | some h => simp only [bind, bindIn, hbound]
      | none =>
        simp only [bind, hbound, Work.bind_apply, Work.get_apply, Option.filter, hopen]
        rfl
    exact ⟨s', { hanswers with later := by simpa only [hsame] using hanswers.later }⟩
  | false =>
    cases hbound : m.bound with
    | some h =>
      refine ⟨s, answers_of_bound hsound hbound ?_⟩
      simp only [bind, hbound]
      rfl
    | none =>
      refine ⟨_, answers_of_unresolved hsound hbound (not_resolves_of_closed hsound hopen)
        (.memberAdrift m.id) ?_⟩
      simp only [bind, hbound, Work.bind_apply, Work.get_apply, Option.filter, hopen]
      rfl

/-! ## Lookups in turn -/

/-- The lookup of some members in turn, read off any session in which only rows were read since. -/
structure AnswersAll (s : Session T) (scope : Scope) (asked : List (Member k))
    (lookup : Work T (List (Handle k) × List (Member k))) (left : Session T → List (Member k))
    (s' : Session T) : Prop where
  sound : Sound s'
  loads : Loads s s' scope.context k (s.rowsNamed scope.context k)
  later : ∀ s₂, Sound s₂ → Loads s' s₂ scope.context k (s'.rowsNamed scope.context k) →
    lookup s = ((asked.filterMap (answer s₂ scope), left s₂), s')
  delivers : ∀ s₂, Sound s₂ → Loads s' s₂ scope.context k (s'.rowsNamed scope.context k) →
    ∀ m ∈ asked, m.bound = none → ∀ h ∈ m.answer s₂ scope, s₂.Delivers scope.context h

theorem answersAll_nil (hsound : Sound s) {lookup : Work T (List (Handle k) × List (Member k))}
    (hlookup : lookup s = (([], []), s)) : AnswersAll s scope [] lookup (fun _ => []) s :=
  ⟨hsound, Loads.refl s _ k _, fun _ _ _ => hlookup, nofun⟩

theorem AnswersAll.eq {asked : List (Member k)}
    {lookup : Work T (List (Handle k) × List (Member k))} {left : Session T → List (Member k)}
    (hanswers : AnswersAll s scope asked lookup left s') :
    lookup s = ((asked.filterMap (answer s' scope), left s'), s') :=
  hanswers.later s' hanswers.sound (Loads.refl s' _ k _)

/-- One member is looked up and then others. -/
theorem AnswersAll.cons {asked : List (Member k)}
    {lookup : Work T (Option (Handle k) × Member k)}
    {lookups lookups' : Work T (List (Handle k) × List (Member k))}
    {left : Session T → List (Member k)} (hfirst : Answers s scope m lookup s₁)
    (hrest : AnswersAll s₁ scope asked lookups left s')
    (hlookups : ∀ {o : Option (Handle k)} {m' : Member k} {found : List (Handle k)}
      {ms' : List (Member k)}, lookup s = ((o, m'), s₁) → lookups s₁ = ((found, ms'), s') →
      lookups' s = ((o.toList ++ found, m' :: ms'), s')) :
    AnswersAll s scope (m :: asked) lookups' (fun s₂ => m.settled s₂ scope :: left s₂) s' where
  sound := hrest.sound
  loads := hfirst.loads.trans_rowsNamed hrest.loads
  later s₂ hsound₂ hlater := by
    have hlater₁ := hrest.loads.trans_rowsNamed hlater
    rw [hlookups (hfirst.later s₂ hsound₂ hlater₁) (hrest.later s₂ hsound₂ hlater)]
    cases hanswer : m.answer s₂ scope <;> simp [hanswer]
  delivers s₂ hsound₂ hlater x hx := by
    rcases List.mem_cons.1 hx with rfl | hx
    · exact hfirst.delivers s₂ hsound₂ (hrest.loads.trans_rowsNamed hlater)
    · exact hrest.delivers s₂ hsound₂ hlater x hx

theorem exists_answers_bindAll (hsound : Sound s) (c : ContextId) (ms : List (Member k)) :
    ∃ s', AnswersAll s (.within c) ms (bindAll (some c) ms)
      (fun s₂ => ms.map (settled s₂ (.within c))) s' := by
  -- what the first lookup answers can still be read off after the others, which only read rows
  induction ms generalizing s with
  | nil => exact ⟨s, answersAll_nil hsound rfl⟩
  | cons m rest ih =>
    rcases exists_answers_bind hsound c m with ⟨s₁, hfirst⟩
    rcases ih hfirst.sound with ⟨s', hrest⟩
    refine ⟨s', AnswersAll.cons hfirst hrest ?_⟩
    intro o m' found ms' hbind hbound
    rw [bindAll, Work.bind_apply, hbind]
    dsimp only
    rw [Work.bind_apply, hbound]
    rfl

/-- The first member of each id, in order; ids in `seen` are passed over. -/
def firsts (seen : List EntityId) : List (Member k) → List (Member k)
  | [] => []
  | m :: rest => if m.id ∈ seen then firsts seen rest else m :: firsts (m.id :: seen) rest

/-- The members where the first of each id is changed; ids in `seen` are passed over. -/
def mapFirsts (f : Member k → Member k) (seen : List EntityId) : List (Member k) → List (Member k)
  | [] => []
  | m :: rest =>
    if m.id ∈ seen then m :: mapFirsts f seen rest else f m :: mapFirsts f (m.id :: seen) rest

theorem exists_answers_bindDistinctIn (hsound : Sound s) (scope : Scope) (seen : List EntityId)
    (ms : List (Member k)) : ∃ s', AnswersAll s scope (firsts seen ms)
      (bindDistinctIn scope seen ms) (fun s₂ => mapFirsts (settled s₂ scope) seen ms) s' := by
  induction ms generalizing s seen with
  | nil => exact ⟨s, answersAll_nil hsound rfl⟩
  | cons m rest ih =>
    by_cases hseen : m.id ∈ seen
    · rcases ih hsound seen with ⟨s', hrest⟩
      rw [firsts, if_pos hseen]
      refine ⟨s', { hrest with later := ?_ }⟩
      intro s₂ hsound₂ hlater
      rw [bindDistinctIn_of_seen hseen (hrest.later s₂ hsound₂ hlater), mapFirsts, if_pos hseen]
    · rcases exists_answers_bindIn hsound scope m with ⟨s₁, hfirst⟩
      rcases ih hfirst.sound (m.id :: seen) with ⟨s', hrest⟩
      simp only [firsts, mapFirsts, if_neg hseen]
      exact ⟨s', AnswersAll.cons hfirst hrest (bindDistinctIn_of_unseen hseen)⟩

/-! ## First members -/

theorem mem_of_mem_firsts (hm : m ∈ firsts seen ms) : m ∈ ms ∧ m.id ∉ seen := by
  induction ms generalizing seen with
  | nil => cases hm
  | cons x rest ih =>
    rw [firsts] at hm
    split at hm
    · exact ⟨List.mem_cons_of_mem _ (ih hm).1, (ih hm).2⟩
    · next hseen =>
      rcases List.mem_cons.1 hm with rfl | hrest
      · exact ⟨List.mem_cons_self, hseen⟩
      · exact ⟨List.mem_cons_of_mem _ (ih hrest).1,
          fun hmem => (ih hrest).2 (List.mem_cons_of_mem _ hmem)⟩

/-- There is one first member for each id. -/
theorem first_unique {x y : Member k} (hx : x ∈ firsts seen ms) (hy : y ∈ firsts seen ms)
    (hid : x.id = y.id) : x = y := by
  induction ms generalizing seen with
  | nil => cases hx
  | cons m rest ih =>
    rw [firsts] at hx hy
    split at hx
    · next hseen =>
      rw [if_pos hseen] at hy
      exact ih hx hy
    · next hseen =>
      rw [if_neg hseen] at hy
      have hlater : ∀ z ∈ firsts (m.id :: seen) rest, z.id ≠ m.id := by
        intro z hz hsame
        exact (mem_of_mem_firsts hz).2 (hsame ▸ List.mem_cons_self)
      rcases List.mem_cons.1 hx with rfl | hx
      · rcases List.mem_cons.1 hy with rfl | hy
        · rfl
        · exact absurd hid.symm (hlater y hy)
      · rcases List.mem_cons.1 hy with rfl | hy
        · exact absurd hid (hlater x hx)
        · exact ih hx hy

end Member

end Reconcile
