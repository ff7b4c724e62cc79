import Reconcile.Proofs.Relation.Binding

/-!
# Enumerating the distinct members of a relationship

`distinctHandles` looks up every member and then leaves out repetitions, `resolveIn` passes over
repetitions and looks up the first member of each id.  For a field that was read in a context both
answer alike, unless a member that cannot be looked up any more stands before another one of its id
that was bound in time (`Overtaken`): the first way still finds the other one, the second does not.
The members of a set all have different ids, so this happens only to lists.
-/

namespace Reconcile

open Session

variable {T : Model} {k : T.Kind} {s₀ s s' s₁ s₂ : Session T} {scope : Scope} {c : ContextId}
  {m : Member k} {ms : List (Member k)} {h : Handle k} {hs : List (Handle k)} {id : EntityId}
  {seen seen' : List EntityId}

/-! ## Leaving out repetitions -/

namespace Handle

theorem distinct_congr (hseen : ∀ h ∈ hs, h.id ∈ seen ↔ h.id ∈ seen') :
    distinct seen hs = distinct seen' hs := by
  induction hs generalizing seen seen' with
  | nil => rfl
  | cons h rest ih =>
    rcases List.forall_mem_cons.1 hseen with ⟨hfirst, hrest⟩
    by_cases hmem : h.id ∈ seen
    · rw [distinct, if_pos hmem, distinct, if_pos (hfirst.1 hmem), ih hrest]
    · rw [distinct, if_neg hmem, distinct, if_neg (mt hfirst.2 hmem)]
      refine congrArg (h :: ·) (ih ?_)
      intro x hx
      rw [List.mem_cons, List.mem_cons, hrest x hx]

theorem exists_distinct (hh : h ∈ hs) (hseen : h.id ∉ seen) :
    ∃ x ∈ distinct seen hs, x.id = h.id := by
  induction hs generalizing seen with
  | nil => cases hh
  | cons x rest ih =>
    rw [distinct]
    rcases List.mem_cons.1 hh with rfl | hrest
    · rw [if_neg hseen]
      exact ⟨h, List.mem_cons_self, rfl⟩
    · split
      · exact ih hrest hseen
      · by_cases hsame : h.id = x.id
        · exact ⟨x, List.mem_cons_self, hsame.symm⟩
        · rcases ih hrest (List.not_mem_cons_of_ne_of_not_mem hsame hseen) with ⟨y, hy, hid⟩
          exact ⟨y, List.mem_cons_of_mem _ hy, hid⟩

end Handle

namespace Member

/-- If anything is found of an id, then it is found of the first member. -/
def Led (find : Member k → Option (Handle k)) (seen : List EntityId) (ms : List (Member k)) :
    Prop :=
  ∀ x ∈ firsts seen ms, find x = none → ∀ m ∈ ms, m.id = x.id → find m = none

section Find

variable {find : Member k → Option (Handle k)} (hfind : ∀ m ∈ ms, ∀ h ∈ find m, h.id = m.id)
include hfind

/-- It comes to the same to leave out repetitions before or after. -/
theorem distinct_filterMap (hled : Led find seen ms) :
    Handle.distinct seen (ms.filterMap find) = (firsts seen ms).filterMap find := by
  -- both ways pass over the ids in `seen`, which grow from member to member
  induction ms generalizing seen with
  | nil => rfl
  | cons m rest ih =>
    rcases List.forall_mem_cons.1 hfind with ⟨hfirst, hrest⟩
    by_cases hseen : m.id ∈ seen
    · rw [firsts, if_pos hseen]
      have hledRest : Led find seen rest := by
        intro x hx hnone y hy
        refine hled x ?_ hnone y (List.mem_cons_of_mem _ hy)
        rwa [firsts, if_pos hseen]
      cases hm : find m with
      | none => rw [List.filterMap_cons_none hm, ih hrest hledRest]
      | some h =>
        have hid : h.id ∈ seen := hfirst h hm ▸ hseen
        rw [List.filterMap_cons_some hm, Handle.distinct, if_pos hid, ih hrest hledRest]
    · rw [firsts, if_neg hseen]
      have hledRest : Led find (m.id :: seen) rest := by
        intro x hx hnone y hy
        refine hled x ?_ hnone y (List.mem_cons_of_mem _ hy)
        rw [firsts, if_neg hseen]
        exact List.mem_cons_of_mem _ hx
      cases hm : find m with
      | some h =>
        have hid : h.id = m.id := hfirst h hm
        rw [List.filterMap_cons_some hm, List.filterMap_cons_some hm, Handle.distinct, hid,
          if_neg hseen, ih hrest hledRest]
      | none =>
        -- nothing is found of this id further on, so it does not matter that it was seen
        rw [List.filterMap_cons_none hm, List.filterMap_cons_none hm, ← ih hrest hledRest]
        refine Handle.distinct_congr ?_
        intro h hh
        rcases List.mem_filterMap.1 hh with ⟨x, hx, hxh⟩
        have hne : h.id ≠ m.id := by
          intro hsame
          have hnone : find x = none :=
            hled m (by simp [firsts, hseen]) hm x (List.mem_cons_of_mem _ hx)
              ((hrest x hx h hxh).symm.trans hsame)
          exact absurd (hnone.symm.trans hxh) (by simp)
        simp [hne]

theorem led_of_ids (hids : (Handle.distinct seen (ms.filterMap find)).map Handle.id =
    ((firsts seen ms).filterMap find).map Handle.id) : Led find seen ms := by
  intro x hx hnone m hm hid
  cases hfound : find m with
  | none => rfl
  | some h =>
    have hseen : h.id ∉ seen := by
      rw [hfind m hm h hfound, hid]
      exact (mem_of_mem_firsts hx).2
    rcases Handle.exists_distinct (List.mem_filterMap.2 ⟨m, hm, hfound⟩) hseen with ⟨y, hy, hyid⟩
    -- the id is enumerated the other way as well, so the first member is found
    have hmem : h.id ∈ ((firsts seen ms).filterMap find).map Handle.id := by
      rw [← hids, ← hyid]
      exact List.mem_map_of_mem hy
    rcases List.mem_map.1 hmem with ⟨z, hz, hzid⟩
    rcases List.mem_filterMap.1 hz with ⟨w, hw, hwz⟩
    have hwid : w.id = x.id := by
      rw [← hfind w (mem_of_mem_firsts hw).1 z hwz, hzid, hfind m hm h hfound, hid]
    cases first_unique hw hx hwid
    cases hnone.symm.trans hwz

theorem distinct_filterMap_iff :
    Handle.distinct seen (ms.filterMap find) = (firsts seen ms).filterMap find ↔
      Led find seen ms := by
  constructor
  · intro heq
    exact led_of_ids hfind (congrArg (List.map Handle.id) heq)
  · exact distinct_filterMap hfind

end Find

/-! ## Members of fields that were read -/

/-- If a member is bound, then to a handle of its id. -/
def Named (m : Member k) : Prop := ∀ h ∈ m.bound, h.id = m.id

theorem named_unbound (id : EntityId) : (unbound id : Member k).Named := nofun

theorem Named.answer (hnamed : m.Named) (hsound : Sound s) :
    ∀ h ∈ m.answer s scope, h.id = m.id := by
  intro h hh
  rcases Option.or_eq_some_iff.1 hh with hbound | ⟨_, hfound⟩
  · exact hnamed h hbound
  · rcases delivers_of_found? hsound hfound with ⟨_, _, _, hid⟩
    exact hid

theorem Named.settled (hnamed : m.Named) (hsound : Sound s) : (m.settled s scope).Named :=
  hnamed.answer hsound

/-- The id of an answer does not depend on which handle is found. -/
theorem Named.ids_answer (hnamed : m.Named) (hsound : Sound s) (hsound' : Sound s')
    (hresolves : s'.Resolves scope k m.id ↔ s.Resolves scope k m.id) :
    (m.answer s' scope).map Handle.id = (m.answer s scope).map Handle.id := by
  cases hanswer : m.answer s scope with
  | none =>
    rcases answer_eq_none.1 hanswer with ⟨hbound, hunresolved⟩
    rw [answer_eq_none.2 ⟨hbound, mt hresolves.1 hunresolved⟩]
  | some h =>
    have hsome : (m.answer s' scope).isSome := by
      rw [isSome_answer, hresolves, ← isSome_answer, hanswer]
      rfl
    rcases Option.isSome_iff_exists.1 hsome with ⟨h', hanswer'⟩
    rw [hanswer', Option.map_some, Option.map_some, hnamed.answer hsound h hanswer,
      hnamed.answer hsound' h' hanswer']

/-- The first member of some id is not bound and cannot be looked up, while another one is bound. -/
def Overtaken (s : Session T) (scope : Scope) (ms : List (Member k)) : Prop :=
  ∃ x ∈ firsts [] ms, x.bound = none ∧ ¬ s.Resolves scope k x.id ∧
    ∃ m ∈ ms, m.id = x.id ∧ m.bound.isSome

theorem led_answer_iff : Led (answer s scope) [] ms ↔ ¬ Overtaken s scope ms := by
  constructor
  · rintro hled ⟨x, hx, hbound, hunresolved, m, hm, hid, hsome⟩
    have hnone := hled x hx (answer_eq_none.2 ⟨hbound, hunresolved⟩) m hm hid
    rw [(answer_eq_none.1 hnone).1] at hsome
    cases hsome
  · intro hnot x hx hnone m hm hid
    rcases answer_eq_none.1 hnone with ⟨hbound, hunresolved⟩
    refine answer_eq_none.2 ⟨?_, hid ▸ hunresolved⟩
    rw [← Option.not_isSome_iff_eq_none]
    exact fun hsome => hnot ⟨x, hx, hbound, hunresolved, m, hm, hid, hsome⟩

theorem overtaken_congr (hresolves : ∀ id, s'.Resolves scope k id ↔ s.Resolves scope k id) :
    Overtaken s' scope ms ↔ Overtaken s scope ms := by
  unfold Overtaken
  simp only [hresolves]

/-- Reading rows overtakes no member. -/
theorem led_answer_iff_of_loads (hloads : Loads s s' scope.context k
      (s.rowsNamed scope.context k)) (hsound : Sound s) (hsound' : Sound s') :
    Led (answer s' scope) [] ms ↔ ¬ Overtaken s scope ms := by
  rw [led_answer_iff, overtaken_congr fun id => hloads.resolves_iff hsound hsound']

/-- Where all ids are different, none is overtaken. -/
theorem not_overtaken_of_nodup (hnodup : (ms.map Member.id).Nodup) : ¬ Overtaken s scope ms := by
  rintro ⟨x, hx, hbound, _, m, hm, hid, hsome⟩
  have hsame : m = x := List.inj_on_of_nodup_map hnodup hm (mem_of_mem_firsts hx).1 hid
  rw [hsame, hbound] at hsome
  cases hsome

/-! ## Members of which the first ones were looked up -/

section MapFirsts

/-- A member that was settled answers with the same handle again. -/
theorem answer_settled (hresolves : s'.Resolves scope k m.id ↔ s.Resolves scope k m.id) :
    (m.settled s scope).answer s' scope = m.answer s scope := by
  have hbound : (m.settled s scope).bound = m.answer s scope := rfl
  cases hanswer : m.answer s scope with
  | some h => rw [answer, hbound, hanswer, Option.some_or]
  | none =>
    rcases answer_eq_none.1 hanswer with ⟨_, hunresolved⟩
    exact answer_eq_none.2 ⟨hbound.trans hanswer, mt hresolves.1 hunresolved⟩

variable {f : Member k → Member k} (hf : ∀ m, (f m).id = m.id)
include hf

theorem firsts_mapFirsts : firsts seen (mapFirsts f seen ms) = (firsts seen ms).map f := by
  induction ms generalizing seen with
  | nil => rfl
  | cons m rest ih =>
    by_cases hseen : m.id ∈ seen
    · rw [mapFirsts, if_pos hseen, firsts, if_pos hseen, firsts, if_pos hseen, ih]
    · rw [mapFirsts, if_neg hseen, firsts, hf, if_neg hseen, firsts, if_neg hseen, ih]
      rfl

theorem firsts_map : firsts seen (ms.map f) = (firsts seen ms).map f := by
  induction ms generalizing seen with
  | nil => rfl
  | cons m rest ih =>
    rw [List.map_cons, firsts, firsts, hf]
    split
    · rw [ih]
    · rw [ih, List.map_cons]

theorem ids_mapFirsts : (mapFirsts f seen ms).map Member.id = ms.map Member.id := by
  induction ms generalizing seen with
  | nil => rfl
  | cons m rest ih =>
    by_cases hseen : m.id ∈ seen
    · rw [mapFirsts, if_pos hseen, List.map_cons, ih, List.map_cons]
    · rw [mapFirsts, if_neg hseen, List.map_cons, ih, List.map_cons, hf]

end MapFirsts

theorem mem_of_mem_mapFirsts {f : Member k → Member k} (hm : m ∈ mapFirsts f seen ms) :
    m ∈ ms ∨ ∃ x ∈ firsts seen ms, m = f x := by
  induction ms generalizing seen with
  | nil => cases hm
  | cons x rest ih =>
    by_cases hseen : x.id ∈ seen
    · rw [mapFirsts, if_pos hseen] at hm
      rw [firsts, if_pos hseen]
      rcases List.mem_cons.1 hm with rfl | hrest
      · exact Or.inl List.mem_cons_self
      · exact (ih hrest).imp_left (List.mem_cons_of_mem _)
    · rw [mapFirsts, if_neg hseen] at hm
      rw [firsts, if_neg hseen]
      rcases List.mem_cons.1 hm with rfl | hrest
      · exact Or.inr ⟨x, List.mem_cons_self, rfl⟩
      · rcases ih hrest with hold | ⟨y, hy, rfl⟩
        · exact Or.inl (List.mem_cons_of_mem _ hold)
        · exact Or.inr ⟨y, List.mem_cons_of_mem _ hy, rfl⟩

theorem mem_mapFirsts {f : Member k → Member k} (hm : m ∈ ms) :
    m ∈ mapFirsts f seen ms ∨ (m ∈ firsts seen ms ∧ f m ∈ mapFirsts f seen ms) := by
  induction ms generalizing seen with
  | nil => cases hm
  | cons x rest ih =>
    by_cases hseen : x.id ∈ seen
    · rw [mapFirsts, if_pos hseen, firsts, if_pos hseen]
      rcases List.mem_cons.1 hm with rfl | hrest
      · exact Or.inl List.mem_cons_self
      · exact (ih hrest).imp (List.mem_cons_of_mem _) fun h => ⟨h.1, List.mem_cons_of_mem _ h.2⟩
    · rw [mapFirsts, if_neg hseen, firsts, if_neg hseen]
      rcases List.mem_cons.1 hm with rfl | hrest
      · exact Or.inr ⟨List.mem_cons_self, List.mem_cons_self⟩
      · exact (ih hrest).imp (List.mem_cons_of_mem _) fun h =>
          ⟨List.mem_cons_of_mem _ h.1, List.mem_cons_of_mem _ h.2⟩

/-- What is overtaken stays so when the first members are looked up. -/
theorem overtaken_mapFirsts (hloads : Loads s s' scope.context k (s.rowsNamed scope.context k))
    (hsound : Sound s) (hsound' : Sound s') :
    Overtaken s' scope (mapFirsts (settled s' scope) [] ms) ↔ Overtaken s scope ms := by
  have hresolves : ∀ id, s'.Resolves scope k id ↔ s.Resolves scope k id :=
    fun id => hloads.resolves_iff hsound hsound'
  rw [← overtaken_congr hresolves]
  constructor
  · rintro ⟨x', hx', hbound, hunresolved, m, hm, hid, hsome⟩
    rw [firsts_mapFirsts (id_settled s' scope)] at hx'
    rcases List.mem_map.1 hx' with ⟨x, hx, rfl⟩
    have hxbound : x.bound = none := (answer_eq_none.1 hbound).1
    rcases mem_of_mem_mapFirsts hm with hold | ⟨y, hy, rfl⟩
    · exact ⟨x, hx, hxbound, hunresolved, m, hold, hid, hsome⟩
    · -- this is the first member itself, which was not found
      cases first_unique hy hx hid
      rw [hbound] at hsome
      cases hsome
  · rintro ⟨x, hx, hbound, hunresolved, m, hm, hid, hsome⟩
    refine ⟨x.settled s' scope, ?_, answer_eq_none.2 ⟨hbound, hunresolved⟩, hunresolved, ?_⟩
    · rw [firsts_mapFirsts (id_settled s' scope)]
      exact List.mem_map_of_mem hx
    · have hcases : m ∈ mapFirsts (settled s' scope) [] ms ∨
          (m ∈ firsts [] ms ∧ m.settled s' scope ∈ mapFirsts (settled s' scope) [] ms) :=
        mem_mapFirsts hm
      rcases hcases with hstays | ⟨_, hmapped⟩
      · exact ⟨m, hstays, hid, hsome⟩
      · refine ⟨m.settled s' scope, hmapped, hid, ?_⟩
        have hsettled : (m.settled s' scope).bound = m.answer s' scope := rfl
        rw [hsettled, isSome_answer]
        exact Or.inl hsome

end Member

theorem MemberSet.nodup_members {K : Type} {k : K} (set : MemberSet k) :
    (set.members.map Member.id).Nodup := by
  rw [map_id_members]
  exact set.bindings.nodup_keys

/-! ## Fields that were read in a context -/

namespace ToMany

open Member

/-- Other members leave it as it is where the field was read. -/
class SourcedToMany {K : Type} (R : K → Type) [ToMany R] : Prop extends LawfulToMany R where
  source_withMembers {k : K} (r : R k) (ms : List (Member k)) :
    ToMany.source (ToMany.withMembers r ms) = ToMany.source r

instance {K : Type} : SourcedToMany (K := K) MemberSet where
  source_withMembers _ _ := rfl

instance {K : Type} : SourcedToMany (K := K) MemberList where
  source_withMembers _ _ := rfl

variable {R : T.Kind → Type} [ToMany R] {r₀ r r' : R k}

/-- How a field fares that was read: its members are looked up at single positions and all in a
row, and in between sessions go on in any way. -/
inductive Accessed (c : ContextId) (r₀ : R k) (s₀ : Session T) : R k → Session T → Prop where
  | read : Accessed c r₀ s₀ r₀ s₀
  | visit {r : R k} {s s' : Session T} {m m' : Member k} {found : Option (Handle k)}
      (h : Accessed c r₀ s₀ r s) (i : Nat) (hm : (members r)[i]? = some m)
      (hbind : m.bind (source r) s = ((found, m'), s')) :
      Accessed c r₀ s₀ (withMembers r ((members r).set i m')) s'
  | iterate {r r' : R k} {s s' : Session T} {found : List (Handle k)} (h : Accessed c r₀ s₀ r s)
      (hhandles : handles r s = ((found, r'), s')) : Accessed c r₀ s₀ r' s'
  | resolve {r r' : R k} {s s' : Session T} {found : List (Handle k)} (h : Accessed c r₀ s₀ r s)
      (hresolve : resolveIn (.within c) r s = ((found, r'), s')) : Accessed c r₀ s₀ r' s'
  | proceed {r : R k} {s s' : Session T} (h : Accessed c r₀ s₀ r s)
      (hrun : Run (fun _ => True) s s') : Accessed c r₀ s₀ r s'

/-- Positions of lists are read one by one. -/
theorem Accessed.handleAt {l₀ l l' : MemberList k} (h : Accessed c l₀ s₀ l s) (i : Nat)
    {found : Option (Handle k)} (hget : l.handleAt i s = ((found, l'), s')) :
    Accessed c l₀ s₀ l' s' := by
  unfold MemberList.handleAt at hget
  cases hm : l.members[i]? with
  | none =>
    rw [hm] at hget
    cases hget
    exact h
  | some m =>
    rw [hm] at hget
    rcases hbind : m.bind l.source s with ⟨⟨o, m'⟩, s₁⟩
    simp only [Work.bind_apply, hbind] at hget
    cases hget
    exact h.visit i hm hbind

/-- The distinct members are those that an iteration finds, so it is an iteration. -/
theorem Accessed.distinct (h : Accessed c r₀ s₀ r s) {found : List (Handle k)}
    (hdistinct : distinctHandles r s = ((found, r'), s')) : Accessed c r₀ s₀ r' s' := by
  rcases hhandles : handles r s with ⟨⟨all, r₁⟩, s₁⟩
  simp only [distinctHandles, Work.bind_apply, hhandles] at hdistinct
  cases hdistinct
  exact h.iterate hhandles

/-- The field was read in the context, and its members are bound to handles of their ids. -/
structure ReadThere (c : ContextId) (r : R k) : Prop where
  source : ToMany.source r = some c
  named : ∀ m ∈ members r, m.Named

/-- Looking up all members, read off what it leads to. -/
theorem exists_handles (hread : ReadThere c r) (hsound : Sound s) : ∃ s',
    Sound s' ∧ Loads s s' c k (s.rowsNamed c k) ∧
    handles r s = (((members r).filterMap (answer s' (.within c)),
      withMembers r ((members r).map (settled s' (.within c)))), s') := by
  rcases exists_answers_bindAll hsound c (members r) with ⟨s', hanswers⟩
  refine ⟨s', hanswers.sound, hanswers.loads, ?_⟩
  rw [handles, hread.source, Work.bind_apply, hanswers.eq]
  rfl

theorem exists_resolveIn (hsound : Sound s) (scope : Scope) (r : R k) : ∃ s',
    Sound s' ∧ Loads s s' scope.context k (s.rowsNamed scope.context k) ∧
    resolveIn scope r s = (((firsts [] (members r)).filterMap (answer s' scope),
      withMembers r (mapFirsts (settled s' scope) [] (members r))), s') := by
  rcases exists_answers_bindDistinctIn hsound scope [] (members r) with ⟨s', hanswers⟩
  refine ⟨s', hanswers.sound, hanswers.loads, ?_⟩
  rw [resolveIn, Work.bind_apply, hanswers.eq]
  rfl

theorem exists_distinctHandles (hread : ReadThere c r) (hsound : Sound s) : ∃ s',
    Sound s' ∧ Loads s s' c k (s.rowsNamed c k) ∧
    distinctHandles r s = ((Handle.distinct [] ((members r).filterMap (answer s' (.within c))),
      withMembers r ((members r).map (Member.settled s' (.within c)))), s') := by
  rcases exists_handles hread hsound with ⟨s', hsound', hloads, hhandles⟩
  refine ⟨s', hsound', hloads, ?_⟩
  rw [distinctHandles, Work.bind_apply, hhandles]
  rfl

/-! ## Whether both ways agree -/

/-- Asked at once, both enumerations name the same entities in the same order. -/
def AgreesAtOnce (s : Session T) (c : ContextId) (r : R k) : Prop :=
  (distinctHandles r s).1.1.map Handle.id = (resolveIn (.within c) r s).1.1.map Handle.id

/-- Resolved after the distinct members were asked for, the field gives the same handles again. -/
def ResolvesAgain (s : Session T) (c : ContextId) (r : R k) : Prop :=
  (resolveIn (.within c) (distinctHandles r s).1.2 (distinctHandles r s).2).1.1 =
    (distinctHandles r s).1.1

/-- Asked for its distinct members after it was resolved, the field gives the same handles again. -/
def EnumeratesAgain (s : Session T) (c : ContextId) (r : R k) : Prop :=
  (distinctHandles (resolveIn (.within c) r s).1.2 (resolveIn (.within c) r s).2).1.1 =
    (resolveIn (.within c) r s).1.1

theorem agreesAtOnce_iff (hread : ReadThere c r) (hsound : Sound s) :
    AgreesAtOnce s c r ↔ ¬ Overtaken s (.within c) (members r) := by
  rcases exists_distinctHandles hread hsound with ⟨s₁, hsound₁, hloads₁, hdistinct⟩
  rcases exists_resolveIn hsound (.within c) r with ⟨s₂, hsound₂, hloads₂, hresolve⟩
  have hanswer : ∀ m ∈ members r, ∀ h ∈ answer s₁ (.within c) m, h.id = m.id :=
    fun m hm => (hread.named m hm).answer hsound₁
  have hsame : ((firsts [] (members r)).filterMap (answer s₂ (.within c))).map Handle.id =
      ((firsts [] (members r)).filterMap (answer s₁ (.within c))).map Handle.id := by
    rw [List.map_filterMap, List.map_filterMap]
    refine List.filterMap_congr ?_
    intro m hm
    refine (hread.named m (mem_of_mem_firsts hm).1).ids_answer hsound₁ hsound₂ ?_
    rw [hloads₂.resolves_iff hsound hsound₂, hloads₁.resolves_iff hsound hsound₁]
  rw [AgreesAtOnce, hdistinct, hresolve, hsame, ← led_answer_iff_of_loads hloads₁ hsound hsound₁]
  constructor
  · exact led_of_ids hanswer
  · intro hled
    exact congrArg (List.map Handle.id) (distinct_filterMap hanswer hled)

section Lawful

variable [SourcedToMany R]

theorem members_settled (r : R k) (s : Session T) (scope : Scope) :
    members (withMembers r ((members r).map (settled s scope))) =
      (members r).map (settled s scope) := by
  refine LawfulToMany.members_withMembers r _ ?_
  rw [List.map_map]
  rfl

theorem members_mapFirsts (r : R k) (s : Session T) (scope : Scope) :
    members (withMembers r (mapFirsts (settled s scope) [] (members r))) =
      mapFirsts (settled s scope) [] (members r) :=
  LawfulToMany.members_withMembers r _ (ids_mapFirsts (id_settled s scope))

theorem ReadThere.settled (hread : ReadThere c r) (hsound : Sound s) :
    ReadThere c (withMembers r ((members r).map (settled s (.within c)))) where
  source := (SourcedToMany.source_withMembers r _).trans hread.source
  named m hm := by
    rw [members_settled] at hm
    rcases List.mem_map.1 hm with ⟨x, hx, rfl⟩
    exact (hread.named x hx).settled hsound

theorem ReadThere.mapFirsts (hread : ReadThere c r) (hsound : Sound s) :
    ReadThere c (withMembers r (mapFirsts (Member.settled s (.within c)) [] (members r))) where
  source := (SourcedToMany.source_withMembers r _).trans hread.source
  named m hm := by
    rw [members_mapFirsts] at hm
    rcases mem_of_mem_mapFirsts hm with hold | ⟨x, hx, rfl⟩
    · exact hread.named m hold
    · exact (hread.named x (mem_of_mem_firsts hx).1).settled hsound

/-- However it is accessed, the field stays one that was read there. -/
theorem Accessed.readThere (h : Accessed c r₀ s₀ r s) (hread : ReadThere c r₀)
    (hsound : Sound s₀) : ReadThere c r ∧ Sound s := by
  -- every access puts settled members in the place of others, which have the same ids
  induction h with
  | read => exact ⟨hread, hsound⟩
  | @visit r s s' m m' found h i hm hbind ih =>
    rcases ih with ⟨hread, hsound⟩
    rcases List.getElem?_eq_some_iff.1 hm with ⟨hi, rfl⟩
    rcases exists_answers_bind hsound c (members r)[i] with ⟨s₁, hanswers⟩
    rw [hread.source, hanswers.later s₁ hanswers.sound (Loads.refl s₁ _ k _)] at hbind
    obtain ⟨⟨_, rfl⟩, rfl⟩ := Prod.mk.inj hbind |>.imp_left Prod.mk.inj
    have hids : ((members r).set i ((members r)[i].settled s₁ (.within c))).map Member.id =
        (members r).map Member.id := by
      have hlength : i < ((members r).map Member.id).length := by simpa using hi
      rw [List.map_set, id_settled, ← List.getElem_map (h := hlength) Member.id,
        List.set_getElem_self]
    refine ⟨⟨(SourcedToMany.source_withMembers r _).trans hread.source, ?_⟩, hanswers.sound⟩
    rw [LawfulToMany.members_withMembers r _ hids]
    intro x hx
    rcases List.mem_or_eq_of_mem_set hx with hold | rfl
    · exact hread.named x hold
    · exact (hread.named _ (List.getElem_mem hi)).settled hanswers.sound
  | iterate h hhandles ih =>
    rcases ih with ⟨hread, hsound⟩
    rcases exists_handles hread hsound with ⟨s₁, hsound₁, _, hall⟩
    cases hall.symm.trans hhandles
    exact ⟨hread.settled hsound₁, hsound₁⟩
  | @resolve r r' s s' found h hresolve ih =>
    rcases ih with ⟨hread, hsound⟩
    rcases exists_resolveIn hsound (.within c) r with ⟨s₁, hsound₁, _, hfirsts⟩
    cases hfirsts.symm.trans hresolve
    exact ⟨hread.mapFirsts hsound₁, hsound₁⟩
  | proceed h hrun ih => exact ⟨ih.1, hrun.sound ih.2⟩

theorem resolvesAgain_iff (hread : ReadThere c r) (hsound : Sound s) :
    ResolvesAgain s c r ↔ ¬ Overtaken s (.within c) (members r) := by
  rcases exists_distinctHandles hread hsound with ⟨s₁, hsound₁, hloads₁, hdistinct⟩
  rcases exists_resolveIn hsound₁ (.within c)
    (withMembers r ((members r).map (Member.settled s₁ (.within c)))) with
    ⟨s₂, hsound₂, hloads₂, hresolve⟩
  have hanswer : ∀ m ∈ members r, ∀ h ∈ answer s₁ (.within c) m, h.id = m.id :=
    fun m hm => (hread.named m hm).answer hsound₁
  have hresolves : ∀ id, s₂.Resolves (.within c) k id ↔ s₁.Resolves (.within c) k id :=
    fun id => hloads₂.resolves_iff hsound₁ hsound₂
  have hsame : (firsts [] ((members r).map (Member.settled s₁ (.within c)))).filterMap
      (answer s₂ (.within c)) = (firsts [] (members r)).filterMap (answer s₁ (.within c)) := by
    rw [firsts_map (id_settled s₁ (.within c)), List.filterMap_map]
    exact List.filterMap_congr fun m _ => answer_settled (hresolves m.id)
  rw [ResolvesAgain, hdistinct]
  dsimp only
  rw [hresolve, members_settled, hsame, ← led_answer_iff_of_loads hloads₁ hsound hsound₁, eq_comm]
  exact distinct_filterMap_iff hanswer

theorem enumeratesAgain_iff (hread : ReadThere c r) (hsound : Sound s) :
    EnumeratesAgain s c r ↔ ¬ Overtaken s (.within c) (members r) := by
  rcases exists_resolveIn hsound (.within c) r with ⟨s₁, hsound₁, hloads₁, hresolve⟩
  have hread₁ := hread.mapFirsts hsound₁
  rcases exists_distinctHandles hread₁ hsound₁ with ⟨s₂, hsound₂, hloads₂, hdistinct⟩
  have hnamed := hread₁.named
  rw [members_mapFirsts] at hdistinct hnamed
  have hanswer : ∀ m ∈ mapFirsts (Member.settled s₁ (.within c)) [] (members r),
      ∀ h ∈ answer s₂ (.within c) m, h.id = m.id := fun m hm => (hnamed m hm).answer hsound₂
  have hresolves : ∀ id, s₂.Resolves (.within c) k id ↔ s₁.Resolves (.within c) k id :=
    fun id => hloads₂.resolves_iff hsound₁ hsound₂
  have hsame : (firsts [] (mapFirsts (Member.settled s₁ (.within c)) [] (members r))).filterMap
      (answer s₂ (.within c)) = (firsts [] (members r)).filterMap (answer s₁ (.within c)) := by
    rw [firsts_mapFirsts (id_settled s₁ (.within c)), List.filterMap_map]
    exact List.filterMap_congr fun m _ => answer_settled (hresolves m.id)
  rw [EnumeratesAgain, hresolve]
  dsimp only
  -- the lookups before have not brought a member into sight
  rw [hdistinct, ← hsame, ← overtaken_mapFirsts hloads₁ hsound hsound₁,
    ← led_answer_iff_of_loads hloads₂ hsound₁ hsound₂]
  exact distinct_filterMap_iff hanswer

end Lawful

theorem readThere_list {j : Json} {l : MemberList k}
    (hread : MemberList.ofJson? (some c) j = some l) : ReadThere c l := by
  rcases Option.bind_eq_some_iff.1 hread with ⟨ids, _, heq⟩
  cases heq
  refine ⟨rfl, ?_⟩
  intro m hm
  rcases List.mem_map.1 hm with ⟨id, _, rfl⟩
  exact named_unbound id

theorem readThere_set {j : Json} {set : MemberSet k}
    (hread : MemberSet.ofJson? (some c) j = some set) : ReadThere c set := by
  rcases Option.bind_eq_some_iff.1 hread with ⟨ids, _, heq⟩
  cases heq
  refine ⟨rfl, ?_⟩
  intro m hm
  rcases List.mem_map.1 hm with ⟨entry, hentry, rfl⟩
  rcases List.mem_map.1 (Entries.mem_ofList hentry) with ⟨id, _, rfl⟩
  exact named_unbound id

/-- Both ways to enumerate the members of a field that was read in a context agree, at once and one
after the other.  Of sets they always do, of lists unless a member is overtaken. -/
theorem distinct_members_agree (hrun : Run (fun _ => True) .empty s₀) (k : T.Kind)
    (c : ContextId) (j : Json) :
    (∀ (set₀ set : MemberSet k) (s : Session T), MemberSet.ofJson? (some c) j = some set₀ →
      Accessed c set₀ s₀ set s →
      AgreesAtOnce s c set ∧ ResolvesAgain s c set ∧ EnumeratesAgain s c set) ∧
    (∀ (l₀ l : MemberList k) (s : Session T), MemberList.ofJson? (some c) j = some l₀ →
      Accessed c l₀ s₀ l s →
      (AgreesAtOnce s c l ↔ ¬ Overtaken s (.within c) l.members) ∧
      (ResolvesAgain s c l ↔ ¬ Overtaken s (.within c) l.members) ∧
      (EnumeratesAgain s c l ↔ ¬ Overtaken s (.within c) l.members)) := by
  have hsound : Sound s₀ := hrun.sound sound_empty
  constructor
  · intro set₀ set s hset haccessed
    rcases haccessed.readThere (readThere_set hset) hsound with ⟨hread, hsound'⟩
    have hnot : ¬ Overtaken s (.within c) set.members :=
      not_overtaken_of_nodup set.nodup_members
    exact ⟨(agreesAtOnce_iff hread hsound').2 hnot, (resolvesAgain_iff hread hsound').2 hnot,
      (enumeratesAgain_iff hread hsound').2 hnot⟩
  · intro l₀ l s hlist haccessed
    rcases haccessed.readThere (readThere_list hlist) hsound with ⟨hread, hsound'⟩
    exact ⟨agreesAtOnce_iff hread hsound', resolvesAgain_iff hread hsound',
      enumeratesAgain_iff hread hsound'⟩

section Red

open Sample

/-- The tag twice. -/
def redTwice : Json := .array [tagId.toJson, tagId.toJson]

/-- The list as it was read. -/
def redList : MemberList Kind.tag := ⟨[.unbound tagId, .unbound tagId], some ⟨1⟩⟩

/-- The list after one of its positions was read. -/
def readAt (i : Nat) : MemberList Kind.tag := (redList.handleAt i redSaved).1.2

def redDropped : Session model := redSaved.markDeleted redHandle

theorem accessed_readAt (i : Nat) (h : (redList.handleAt i redSaved).2 = redSaved) :
    Accessed ⟨1⟩ redList redSaved (readAt i) redDropped := by
  have hget : redList.handleAt i redSaved =
      (((redList.handleAt i redSaved).1.1, readAt i), redSaved) := Prod.ext rfl h
  exact (Accessed.read.handleAt i hget).proceed ((Step.delete redSaved 0).run trivial)

/-- With the first position bound, both ways give the deleted tag. -/
theorem red_members_agree : Run (fun _ => True) .empty redSaved ∧
    MemberList.ofJson? (some ⟨1⟩) redTwice = some redList ∧
    Accessed ⟨1⟩ redList redSaved (readAt 0) redDropped ∧
    AgreesAtOnce redDropped ⟨1⟩ (readAt 0) ∧
    (distinctHandles (readAt 0) redDropped).1.1 = [redHandle] := by
  have hrun : Run (fun _ => True) .empty redSaved := run_redSaved.mono fun _ _ => trivial
  have hlist : MemberList.ofJson? (some ⟨1⟩) redTwice = some redList := rfl
  have haccessed := accessed_readAt 0 rfl
  refine ⟨hrun, hlist, haccessed, ?_, rfl⟩
  refine ((distinct_members_agree hrun Kind.tag ⟨1⟩ redTwice).2 _ _ _ hlist haccessed).1.2 ?_
  rintro ⟨x, hx, hbound, _⟩
  cases List.mem_singleton.1 hx
  cases hbound

/-- With the second position bound, only one of the ways gives it. -/
theorem red_members_disagree : Run (fun _ => True) .empty redSaved ∧
    MemberList.ofJson? (some ⟨1⟩) redTwice = some redList ∧
    Accessed ⟨1⟩ redList redSaved (readAt 1) redDropped ∧
    (distinctHandles (readAt 1) redDropped).1.1 = [redHandle] ∧
    (resolveIn (.within ⟨1⟩) (readAt 1) redDropped).1.1 = [] :=
  ⟨run_redSaved.mono fun _ _ => trivial, rfl, accessed_readAt 1 rfl, rfl, rfl⟩

end Red

end ToMany

end Reconcile
