import Reconcile.Proofs.Relation.Binding
import Reconcile.Proofs.Session.Custody

/-!
# Members that are bound elsewhere

`resolveIn` looks up in the given context only the members that are not bound.  One that is bound
answers with its handle, of whichever context that is, and a delete refuses handles of other
contexts.  So a cascade takes away those of the members' entities whose first member is not bound or
is bound to what the context has registered (`Member.Own`), and no others: the rest stays behind
when the field is cleared.
-/

namespace Reconcile

open Session

variable {T : Model} {k : T.Kind} {s s' s₁ : Session T} {scope : Scope} {c : ContextId}
  {m : Member k} {ms : List (Member k)} {h : Handle k} {hs : List (Handle k)} {id : EntityId}
  {deed : Deed}

theorem EntityId.ext_of {a b : EntityId} (hentity : a.entity = b.entity) (hkey : a.key = b.key) :
    a = b := by
  cases a
  cases b
  cases hentity
  cases hkey
  rfl

theorem Handle.ext_of {g h : Handle k} (hslot : g.slot = h.slot) (hid : g.id = h.id)
    (hcontext : g.context = h.context) : g = h := by
  cases g
  cases h
  cases hslot
  cases hid
  cases hcontext
  rfl

namespace Session

/-! ## Handles that stand for one entity -/

/-- The object of the handle is in memory, and if a context has registered it, then the context of
the handle under its id. -/
structure Backed (s : Session T) (h : Handle k) : Prop where
  slot : h.slot < s.entities.size
  entry : ∀ d key e, (s.registry d).get? key = some e → e.slot = h.slot →
    d = h.context ∧ e.id = h.id

/-- What a context hands out is backed. -/
theorem Delivers.backed (hdelivers : s.Delivers c h) (hsound : Sound s) : s.Backed h where
  slot := by
    rcases hdelivers.holds with ⟨m, hm, _⟩
    exact lt_size_of_entity? hm
  entry d key e he hslot := by
    rcases hdelivers.enrolled with ⟨pending, hentry⟩
    rcases hsound.slots he hentry hslot with ⟨rfl, rfl⟩
    cases he.symm.trans hentry
    exact ⟨rfl, rfl⟩

/-- Entities that are new to a registry are new to memory, so no step gives the object away. -/
theorem Step.backed (hstep : Step s deed s') (hbacked : s.Backed h) : s'.Backed h := by
  have hrun : Run (fun _ => True) s s' := hstep.run trivial
  have hsize : h.slot < s'.entities.size := Nat.lt_of_lt_of_le hbacked.slot hrun.size_le
  refine ⟨hsize, ?_⟩
  intro d key e he hslot
  have hnew : e.slot ≠ s.entities.size := hslot ▸ Nat.ne_of_lt hbacked.slot
  cases hstep with
  | openContext i hi => exact hbacked.entry d key e (registry_of_openContext he) hslot
  | closeContext c => exact hbacked.entry d key e (registry_of_closeContext he) hslot
  | @insert c store l hstore =>
    rcases entry_of_insertUnder hstore he with ⟨rfl, rfl⟩ | hbefore
    · exact absurd rfl hnew
    · exact hbacked.entry d key e hbefore hslot
  | @load c l row v hrow hname hnone hdecode =>
    rcases storeOf?_of_row? hrow with ⟨store, hstore, _⟩
    rcases isOpen_of_storeOf? hstore with ⟨ctx, hctx, _⟩
    rcases entry_of_enroll hctx he with ⟨rfl, rfl, rfl⟩ | hbefore
    · exact absurd rfl hnew
    · exact hbacked.entry d key e hbefore hslot
  | @save c changes hcollect =>
    rcases entry_of_commit he with ⟨pending, hbefore⟩
    exact hbacked.entry d key { e with pending } hbefore hslot
  | _ => exact hbacked.entry d key e he hslot

theorem Run.backed {allow : Deed → Prop} (hrun : Run allow s s') (hbacked : s.Backed h) :
    s'.Backed h :=
  hrun.induct (fun _ hstep => hstep.backed) hbacked

theorem Loads.backed {rows : List (UInt64 × Row)} (hloads : Loads s s' c k rows)
    (hbacked : s.Backed h) : s'.Backed h where
  slot := Nat.lt_of_lt_of_le hbacked.slot hloads.size
  entry d key e he hslot := by
    rcases hloads.entry d key e he with hold | ⟨_, hle, _⟩
    · exact hbacked.entry d key e hold hslot
    · rw [hslot] at hle
      exact absurd hbacked.slot (Nat.not_lt.2 hle)

/-! ## Deleting handles of any context -/

theorem markAll_journal (s : Session T) (journal : Array Event) (hs : List (Handle k)) :
    markAll { s with journal } hs = { s.markAll hs with journal } := by
  induction hs generalizing s with
  | nil => rfl
  | cons h rest ih => exact ih (s.markDeleted h)

/-- Handles that the context has not registered are only reported. -/
theorem deleteEach_any (scope : Scope) (hs : List (Handle k)) (s : Session T) : ∃ journal,
    (scope.deleteEach hs s).2 =
      { s.markAll (hs.filter fun h => s.isRegistered scope.context h) with journal } := by
  induction hs generalizing s with
  | nil => exact ⟨s.journal, rfl⟩
  | cons h rest ih =>
    cases hregistered : s.isRegistered scope.context h with
    | true =>
      rcases ih (s.markDeleted h) with ⟨journal, hrest⟩
      refine ⟨journal, ?_⟩
      have hfirst : (scope.deleteOrReport h s).2 = s.markDeleted h := by
        rw [Scope.deleteOrReport, Work.bind_apply, delete_of_registered hregistered]
        rfl
      rw [List.filter_cons_of_pos hregistered]
      rw [Scope.deleteEach, Work.bind_apply, hfirst]
      exact hrest
    | false =>
      have hfirst : (scope.deleteOrReport h s).2 =
          s.report (.deleteFailed h.id scope.context (.foreignObject h.id scope.context)) := by
        rw [Scope.deleteOrReport, Work.bind_apply, delete_of_unregistered hregistered]
        rfl
      rcases ih (scope.deleteOrReport h s).2 with ⟨journal, hrest⟩
      refine ⟨journal, ?_⟩
      rw [List.filter_cons_of_neg (by simp [hregistered])]
      rw [Scope.deleteEach, Work.bind_apply]
      refine hrest.trans ?_
      rw [hfirst]
      exact congrArg (fun s : Session T => { s with journal })
        (markAll_journal s _ (rest.filter fun h => s.isRegistered scope.context h))

theorem resolves_journal (hsound : Sound s) (journal : Array Event) :
    Resolves { s with journal } scope k id ↔ s.Resolves scope k id := by
  have hsound' : Sound { s with journal } :=
    hsound.of_entities rfl rfl rfl (fun _ m hm => ⟨m, hm, rfl⟩) fun _ _ => hsound.settled
  exact (Loads.journal s scope.context k _ journal).resolves_iff hsound hsound'

/-- What is deleted is not found any more, and all else is. -/
theorem resolves_markAll_iff (hsound : Sound s) (hresolves : s.Resolves scope k id) :
    (s.markAll hs).Resolves scope k id ↔
      ∀ e, (s.registry scope.context).get? id.key = some e → e.slot ∉ hs.map Handle.slot := by
  rcases (resolves_iff hsound).1 hresolves with ⟨hname, hseen⟩
  rw [resolves_iff (hsound.markAll hs)]
  rcases Option.isSome_iff_exists.1 hseen with ⟨v, hv⟩
  rcases seen?_eq_some hv with ⟨⟨l, x, pending⟩, m, he, rfl, hm, hlive, _⟩ | ⟨hnone, _⟩
  · have he' : ((s.markAll hs).registry scope.context).get? id.key = some ⟨l, x, pending⟩ := by
      rwa [registry_markAll]
    constructor
    · rintro ⟨_, hstill⟩ e hentry hmem
      cases he.symm.trans hentry
      have hkey : x.id.key = id.key := (hsound.lodged he).key
      have hslot : s.entity? x.slot = some m := hm
      have hmem' : x.slot ∈ hs.map Handle.slot := hmem
      have hdeleted : (s.markAll hs).isDeleted x = true := by
        rw [isDeleted, entity?_markAll, if_pos hmem', hslot]
        rfl
      rw [← hkey] at he' hstill
      rw [isSome_seen?_of_entry (hsound.markAll hs) he', hdeleted] at hstill
      cases hstill
    · intro hspared
      have hslot : x.slot ∉ hs.map Handle.slot := hspared _ he
      refine ⟨hname, ?_⟩
      have hentity : (s.markAll hs).entity? x.slot = s.entity? x.slot := by
        rw [entity?_markAll, if_neg hslot]
      rw [seen?_congr he he' hentity]
      exact hseen
  · have hvacuous : ∀ e, (s.registry scope.context).get? id.key = some e →
        e.slot ∉ hs.map Handle.slot := by
      intro e hentry
      cases hnone.symm.trans hentry
    refine iff_of_true ⟨hname, ?_⟩ hvacuous
    have hnone' : ((s.markAll hs).registry scope.context).get? id.key = none := by
      rwa [registry_markAll]
    have hrows : (s.markAll hs).rowsOf scope.context = s.rowsOf scope.context := by
      rw [markAll_eq]
      rfl
    rw [seen?_of_row hnone', hrows, ← seen?_of_row hnone]
    exact hseen

/-- What is registered under an id that can be looked up is the entity of the id. -/
theorem entry_of_resolves (hsound : Sound s) (hresolves : s.Resolves scope k id) {e : Entry T}
    (he : (s.registry scope.context).get? id.key = some e) :
    ∃ h pending, e = ⟨k, h, pending⟩ ∧ h.id = id := by
  rcases (resolves_iff hsound).1 hresolves with ⟨hname, hseen⟩
  rcases Option.isSome_iff_exists.1 hseen with ⟨v, hv⟩
  rcases seen?_eq_some hv with ⟨⟨l, h, pending⟩, _, he', rfl, _⟩ | ⟨hnone, _⟩
  · cases he.symm.trans he'
    have hentity : h.id.entity = id.entity := (hsound.lodged he).name.trans hname.symm
    have hkey : h.id.key = id.key := (hsound.lodged he).key
    exact ⟨h, pending, rfl, EntityId.ext_of hentity hkey⟩
  · cases hnone.symm.trans he

/-! ## Cascading over members that are bound elsewhere -/

/-- An answer is what the member is bound to, or what the context hands out. -/
theorem answer_rooted (hsound' : Sound s') (hloads : Loads s s' scope.context k
      (s.rowsNamed scope.context k)) (hrooted : ∀ h ∈ m.bound, h.id = m.id ∧ s.Backed h)
    (hdelivers : m.bound = none → ∀ h ∈ m.answer s' scope, s'.Delivers scope.context h) :
    ∀ h ∈ m.answer s' scope, h.id = m.id ∧ s'.Backed h := by
  intro h hanswer
  cases hbound : m.bound with
  | some x =>
    rw [Member.answer, hbound, Option.some_or] at hanswer
    cases hanswer
    rcases hrooted h hbound with ⟨hid, hbacked⟩
    exact ⟨hid, hloads.backed hbacked⟩
  | none =>
    have hhere := hdelivers hbound h hanswer
    rw [Member.answer, hbound, Option.none_or] at hanswer
    rcases delivers_of_found? hsound' hanswer with ⟨_, _, _, hid⟩
    exact ⟨hid, hhere.backed hsound'⟩

/-- How members come about.  They are read as ids, or made of handles that contexts hand out or of
objects that no context has registered; they are looked up in any context, and sessions go on in any
way, which includes lookups of other members. -/
inductive Formed : Member k → Session T → Prop where
  | read {s : Session T} (hrun : Run (fun _ => True) .empty s) (id : EntityId) :
      Formed (.unbound id) s
  | made {s : Session T} {c : ContextId} {h : Handle k} (hrun : Run (fun _ => True) .empty s)
      (hdelivers : s.Delivers c h) : Formed (.ofHandle h) s
  | detached {s : Session T} {h : Handle k} (hrun : Run (fun _ => True) .empty s)
      (hslot : h.slot < s.entities.size)
      (hfree : ∀ d key e, (s.registry d).get? key = some e → e.slot ≠ h.slot) :
      Formed (.ofHandle h) s
  | lookedUp {m m' : Member k} {s s' : Session T} {o : Option (Handle k)} {scope : Scope}
      (hformed : Formed m s) (hbind : m.bindIn scope s = ((o, m'), s')) : Formed m' s'
  | proceed {m : Member k} {s s' : Session T} (hformed : Formed m s)
      (hrun : Run (fun _ => True) s s') : Formed m s'

/-- Whatever a member is bound to has its id and is backed. -/
theorem Formed.rooted (hformed : Formed m s) :
    Sound s ∧ ∀ h ∈ m.bound, h.id = m.id ∧ s.Backed h := by
  induction hformed with
  | read hrun id => exact ⟨hrun.sound sound_empty, nofun⟩
  | made hrun hdelivers =>
    have hsound := hrun.sound sound_empty
    refine ⟨hsound, ?_⟩
    rintro x ⟨⟩
    exact ⟨rfl, hdelivers.backed hsound⟩
  | detached hrun hslot hfree =>
    refine ⟨hrun.sound sound_empty, ?_⟩
    rintro x ⟨⟩
    exact ⟨rfl, hslot, fun d key e he hsame => absurd hsame (hfree d key e he)⟩
  | @lookedUp m m' s s' o scope hformed hbind ih =>
    rcases ih with ⟨hsound, hbound⟩
    rcases Member.exists_answers_bindIn hsound scope m with ⟨s₁, hanswers⟩
    have hrefl := Loads.refl s₁ scope.context k (s₁.rowsNamed scope.context k)
    cases (hanswers.later s₁ hanswers.sound hrefl).symm.trans hbind
    refine ⟨hanswers.sound, ?_⟩
    exact answer_rooted hanswers.sound hanswers.loads hbound
      (hanswers.delivers _ hanswers.sound hrefl)
  | proceed hformed hrun ih =>
    exact ⟨hrun.sound ih.1, fun h hh => ⟨(ih.2 h hh).1, hrun.backed (ih.2 h hh).2⟩⟩

section Cascading

variable {R : T.Kind → Type} [ToMany R] {r : R k} {left : Session T → List (Member k)}

/-- The answers belong to the context, if what is bound does. -/
theorem context_resolveIn_iff (hsound : Sound s) (scope : Scope) (r : R k) :
    (∀ h ∈ (ToMany.resolveIn scope r s).1.1, h.context = scope.context) ↔
      ∀ m ∈ Member.firsts [] (ToMany.members r), ∀ h ∈ m.bound, h.context = scope.context := by
  rcases Member.exists_answers_bindDistinctIn hsound scope [] (ToMany.members r) with
    ⟨s₁, hanswers⟩
  have hresolve : (ToMany.resolveIn scope r s).1.1 =
      (Member.firsts [] (ToMany.members r)).filterMap (Member.answer s₁ scope) := by
    rw [ToMany.resolveIn, Work.bind_apply, hanswers.eq]
    rfl
  rw [hresolve]
  constructor
  · intro hall m hm h hbound
    refine hall h (List.mem_filterMap.2 ⟨m, hm, ?_⟩)
    rw [Member.answer, hbound, Option.some_or]
  · intro hbound h hh
    rcases List.mem_filterMap.1 hh with ⟨m, hm, hanswer⟩
    cases hm' : m.bound with
    | some x =>
      rw [Member.answer, hm', Option.some_or] at hanswer
      cases hanswer
      exact hbound m hm h hm'
    | none =>
      exact (hanswers.delivers s₁ hanswers.sound (Loads.refl s₁ _ k _) m hm hm' h hanswer).context

/-- A cascade marks what is registered of the answers of the first members. -/
theorem resolves_deleteCascade_iff (hanswers : Member.AnswersAll s scope
      (Member.firsts [] (ToMany.members r)) (Member.bindDistinctIn scope [] (ToMany.members r))
      left s₁)
    (hresolves : s₁.Resolves scope k id) :
    (scope.deleteCascade (some r) s).2.Resolves scope k id ↔
      ∀ e, (s₁.registry scope.context).get? id.key = some e →
        ∀ m ∈ Member.firsts [] (ToMany.members r), ∀ h ∈ m.answer s₁ scope,
          s₁.isRegistered scope.context h = true → e.slot ≠ h.slot := by
  rcases deleteEach_any scope ((Member.firsts [] (ToMany.members r)).filterMap
    (Member.answer s₁ scope)) s₁ with ⟨journal, heach⟩
  have hcascade : ∃ event, (scope.deleteCascade (some r) s).2 = (scope.deleteEach
      ((Member.firsts [] (ToMany.members r)).filterMap (Member.answer s₁ scope)) s₁).2.report
      event := by
    refine ⟨.cascaded (T.entityName k) scope.context (scope.deleteEach
      ((Member.firsts [] (ToMany.members r)).filterMap (Member.answer s₁ scope)) s₁).1, ?_⟩
    simp only [Scope.deleteCascade, Scope.deleteAll, ToMany.resolveIn, Work.bind_apply,
      hanswers.eq]
    rfl
  rcases hcascade with ⟨event, hcascade⟩
  rw [hcascade, heach]
  refine (resolves_journal (hanswers.sound.markAll _) _).trans
    ((resolves_markAll_iff hanswers.sound hresolves).trans ?_)
  simp only [List.mem_map, List.mem_filter, List.mem_filterMap]
  constructor
  · intro hspared e he m hm h hanswer hregistered hslot
    exact hspared e he ⟨h, ⟨⟨m, hm, hanswer⟩, hregistered⟩, hslot.symm⟩
  · rintro hspared e he ⟨h, ⟨⟨m, hm, hanswer⟩, hregistered⟩, hslot⟩
    exact hspared e he m hm h hanswer hregistered hslot.symm

/-- What is registered under the id of a first member is hit by no other answer than its own. -/
theorem answer_of_hit (hsound₁ : Sound s₁) (hresolves : s₁.Resolves scope k m.id)
    (hm : m ∈ Member.firsts [] ms) {e : Entry T}
    (he : (s₁.registry scope.context).get? m.id.key = some e) {x : Member k}
    (hx : x ∈ Member.firsts [] ms) (hanswer : h ∈ x.answer s₁ scope) (hid : h.id = x.id)
    (hbacked : s₁.Backed h) (hslot : e.slot = h.slot) :
    h ∈ m.answer s₁ scope ∧ ∃ pending, e = ⟨k, h, pending⟩ := by
  rcases hbacked.entry _ _ e he hslot with ⟨hcontext, heid⟩
  rcases entry_of_resolves hsound₁ hresolves he with ⟨g, pending, rfl, hgid⟩
  have hxid : x.id = m.id := by
    calc
      x.id = h.id := hid.symm
      _ = g.id := heid.symm
      _ = m.id := hgid
  cases Member.first_unique hx hm hxid
  obtain rfl : g = h := Handle.ext_of hslot heid ((hsound₁.lodged he).context.trans hcontext)
  exact ⟨hanswer, pending, rfl⟩

/-- The entity of a first member is taken away exactly if the member is the context's own. -/
theorem not_resolves_deleteCascade_iff (hsound : Sound s) (scope : Scope)
    (hformed : ∀ x ∈ ToMany.members r, Formed x s) (hm : m ∈ Member.firsts [] (ToMany.members r))
    (hresolves : s.Resolves scope k m.id) :
    ¬ (scope.deleteCascade (some r) s).2.Resolves scope k m.id ↔ m.Own s scope.context := by
  rcases Member.exists_answers_bindDistinctIn hsound scope [] (ToMany.members r) with
    ⟨s₁, hanswers⟩
  have hsound₁ : Sound s₁ := hanswers.sound
  have hdelivers := hanswers.delivers s₁ hsound₁ (Loads.refl s₁ _ k _)
  have hresolves₁ : s₁.Resolves scope k m.id :=
    (hanswers.loads.resolves_iff hsound hsound₁).2 hresolves
  rw [resolves_deleteCascade_iff hanswers hresolves₁]
  have hanswered : ∀ x ∈ Member.firsts [] (ToMany.members r), ∀ h ∈ x.answer s₁ scope,
      h.id = x.id ∧ s₁.Backed h := by
    intro x hx
    exact answer_rooted hsound₁ hanswers.loads
      (hformed x (Member.mem_of_mem_firsts hx).1).rooted.2 (hdelivers x hx)
  constructor
  · intro htaken h hbound
    rcases (hformed m (Member.mem_of_mem_firsts hm).1).rooted.2 h hbound with ⟨hid, hbacked⟩
    refine ⟨hid, ?_⟩
    simp only [not_forall, not_not] at htaken
    rcases htaken with ⟨e, he, x, hx, y, hy, _, hslot⟩
    rcases hanswered x hx y hy with ⟨hyid, hybacked⟩
    rcases answer_of_hit hsound₁ hresolves₁ hm he hx hy hyid hybacked hslot with
      ⟨hanswer, pending, rfl⟩
    rw [Member.answer, hbound, Option.some_or] at hanswer
    cases hanswer
    -- the member was bound before, so the entity is none of those that the lookups read
    rcases hanswers.loads.entry _ _ _ he with hold | ⟨_, hle, _⟩
    · exact ⟨pending, hold⟩
    · exact absurd hbacked.slot (Nat.not_lt.2 hle)
  · intro hown hspared
    cases hbound : m.bound with
    | some h =>
      rcases hown h hbound with ⟨hid, pending, he⟩
      have he₁ := hanswers.loads.registry _ _ _ he
      have hanswer : h ∈ m.answer s₁ scope := by rw [Member.answer, hbound, Option.some_or]; rfl
      exact hspared _ he₁ m hm h hanswer (isRegistered_of_entry hsound₁ (hid ▸ he₁)) rfl
    | none =>
      rcases Option.isSome_iff_exists.1 (Member.isSome_answer.2 (Or.inr hresolves₁)) with
        ⟨h, hanswer⟩
      have hdelivered := hdelivers m hm hbound h hanswer
      rcases hdelivered.enrolled with ⟨pending, he⟩
      rw [hdelivered.context, (hanswered m hm h hanswer).1] at he
      exact hspared _ he m hm h hanswer
        (isRegistered_of_entry hsound₁ ((hanswered m hm h hanswer).1.symm ▸ he)) rfl

/-- A field resolved in a context answers with handles of the context alone, if no first member is
bound to another one, and a cascade takes away the entities of those first members that are not
bound or are bound to what the context has registered. -/
theorem cascade_takes_own (hrun : Run (fun _ => True) .empty s) (scope : Scope) (r : R k)
    (hformed : ∀ m ∈ ToMany.members r, Formed m s) :
    ((∀ h ∈ (ToMany.resolveIn scope r s).1.1, h.context = scope.context) ↔
      ∀ m ∈ Member.firsts [] (ToMany.members r), ∀ h ∈ m.bound, h.context = scope.context) ∧
    ∀ m ∈ Member.firsts [] (ToMany.members r), s.Resolves scope k m.id →
      (¬ (scope.deleteCascade (some r) s).2.Resolves scope k m.id ↔ m.Own s scope.context) := by
  have hsound : Sound s := hrun.sound sound_empty
  refine ⟨context_resolveIn_iff hsound scope r, ?_⟩
  intro m hm hresolves
  exact not_resolves_deleteCascade_iff hsound scope hformed hm hresolves

end Cascading

section Stray

open Sample

/-- The red tag, as the first context reads it. -/
def readTags : MemberSet Kind.tag := ⟨.ofList [(tagId, none)], some ⟨1⟩⟩

/-- The field after it was iterated. -/
def boundTags : MemberSet Kind.tag := (ToMany.handles readTags redSaved).1.2

theorem formed_boundTags : ∀ m ∈ ToMany.members boundTags, Formed m redSaved := by
  have hrun : Run (fun _ => True) .empty redSaved := run_redSaved.mono fun _ _ => trivial
  intro m hm
  have hbind : (Member.unbound tagId : Member Kind.tag).bindIn (.within ⟨1⟩) redSaved =
      ((some redHandle, m), redSaved) := by
    cases List.mem_singleton.1 hm
    rfl
  exact .lookedUp (.read hrun tagId) hbind

/-- The first context takes the tag away that it has bound. -/
theorem cascade_takes_red : Run (fun _ => True) .empty redSaved ∧
    (∀ m ∈ ToMany.members boundTags, Formed m redSaved) ∧
    redSaved.Resolves (.within ⟨1⟩) Kind.tag tagId ∧
    ¬ ((Scope.within ⟨1⟩).deleteCascade (some boundTags) redSaved).2.Resolves (.within ⟨1⟩)
      Kind.tag tagId := by
  have hrun : Run (fun _ => True) .empty redSaved := run_redSaved.mono fun _ _ => trivial
  have hresolves : redSaved.Resolves (.within ⟨1⟩) Kind.tag tagId := ⟨redHandle, rfl⟩
  refine ⟨hrun, formed_boundTags, hresolves, ?_⟩
  have hown : (Member.ofHandle redHandle).Own redSaved ⟨1⟩ := by
    rintro h ⟨⟩
    exact ⟨rfl, false, rfl⟩
  exact ((cascade_takes_own hrun (.within ⟨1⟩) boundTags formed_boundTags).2
    (.ofHandle redHandle) List.mem_cons_self hresolves).2 hown

/-- The second context is answered with the handle of the first one, and leaves the tag behind. -/
theorem cascade_leaves_red : Run (fun _ => True) .empty redSaved ∧
    MemberSet.ofJson? (some ⟨1⟩) (.array [tagId.toJson]) = some readTags ∧
    ToMany.handles readTags redSaved = (([redHandle], boundTags), redSaved) ∧
    (ToMany.resolveIn (.within ⟨2⟩) boundTags redSaved).1.1 = [redHandle] ∧
    redHandle.context ≠ ⟨2⟩ ∧
    redSaved.Resolves (.within ⟨2⟩) Kind.tag tagId ∧
    ((Scope.within ⟨2⟩).deleteCascade (some boundTags) redSaved).2.Resolves (.within ⟨2⟩)
      Kind.tag tagId :=
  ⟨run_redSaved.mono fun _ _ => trivial, rfl, rfl, rfl, by decide, ⟨⟨1, tagId, ⟨2⟩⟩, rfl⟩,
    ⟨⟨1, tagId, ⟨2⟩⟩, rfl⟩⟩

end Stray

end Session

end Reconcile
