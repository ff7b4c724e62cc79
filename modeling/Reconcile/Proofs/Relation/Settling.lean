import Mathlib.Data.List.ReduceOption
import Reconcile.Proofs.Relation.Enumerating

/-!
# What lookups leave of a field

Lookups bind the members of a field as they go.  They change no id and no member that is bound
already (`Member.Settles`).  Iterating a field where it was read gives the handles of its members in
order: of one that is bound the handle that it is bound to, of any other what is found by its id, if
there is anything (`ToMany.Iterates`).
-/

namespace Reconcile

open Session

variable {T : Model} {k : T.Kind} {s s' : Session T} {scope : Scope} {c : ContextId}

section Correspondence

variable {α β : Type} {R : α → β → Prop} {as : List α} {bs : List β}

theorem exists_mem_right (h : List.Forall₂ R as bs) {a : α} (ha : a ∈ as) : ∃ b ∈ bs, R a b := by
  induction h with
  | nil => cases ha
  | cons hfirst _ ih =>
    rcases List.mem_cons.1 ha with rfl | hrest
    · exact ⟨_, List.mem_cons_self, hfirst⟩
    · rcases ih hrest with ⟨b, hb, hR⟩
      exact ⟨b, List.mem_cons_of_mem _ hb, hR⟩

theorem exists_mem_left (h : List.Forall₂ R as bs) {b : β} (hb : b ∈ bs) : ∃ a ∈ as, R a b :=
  exists_mem_right h.flip hb

end Correspondence

/-! ## Members that are looked up -/

namespace Member

variable {m m' : Member k} {ms ms' : List (Member k)} {seen : List EntityId}

/-- What may become of a member that is looked up. -/
structure Settles (m m' : Member k) : Prop where
  id : m'.id = m.id
  /-- What is bound stays bound to the same handle. -/
  bound : ∀ h, m.bound = some h → m'.bound = some h
  named : m.Named → m'.Named

theorem Settles.refl (m : Member k) : Settles m m := ⟨rfl, fun _ hbound => hbound, fun h => h⟩

theorem settles_settled (hsound : Sound s) (m : Member k) : Settles m (m.settled s scope) where
  id := rfl
  bound h hbound := by
    have hanswer : m.answer s scope = some h := by rw [answer, hbound, Option.some_or]
    exact hanswer
  named hnamed := hnamed.settled hsound

theorem settles_bind (hsound : Sound s) (source : Option ContextId) (m : Member k) :
    Settles m (m.bind source s).1.2 := by
  cases source with
  | none =>
    have hkept : (m.bind none s).1.2 = m := by
      unfold bind
      cases m.bound <;> rfl
    rw [hkept]
    exact .refl m
  | some c =>
    rcases exists_answers_bind hsound c m with ⟨s', hanswers⟩
    rw [hanswers.later s' hanswers.sound (Loads.refl s' _ k _)]
    exact settles_settled hanswers.sound m

theorem forall₂_refl (ms : List (Member k)) : List.Forall₂ Settles ms ms :=
  List.forall₂_same.2 fun m _ => .refl m

theorem bindAll_none (ms : List (Member k)) (s : Session T) : (bindAll none ms s).1.2 = ms := by
  induction ms generalizing s with
  | nil => rfl
  | cons m rest ih =>
    rcases m with ⟨id, _ | h⟩
    · exact congrArg (_ :: ·) (ih _)
    · exact congrArg (_ :: ·) (ih _)

theorem forall₂_bindAll (hsound : Sound s) (source : Option ContextId) (ms : List (Member k)) :
    List.Forall₂ Settles ms (bindAll source ms s).1.2 := by
  cases source with
  | none =>
    rw [bindAll_none]
    exact forall₂_refl ms
  | some c =>
    rcases exists_answers_bindAll hsound c ms with ⟨s', hanswers⟩
    rw [hanswers.eq, List.forall₂_map_right_iff]
    exact List.forall₂_same.2 fun m _ => settles_settled hanswers.sound m

theorem forall₂_mapFirsts {f : Member k → Member k} (hf : ∀ m, Settles m (f m)) :
    List.Forall₂ Settles ms (mapFirsts f seen ms) := by
  induction ms generalizing seen with
  | nil => exact .nil
  | cons m rest ih =>
    rw [mapFirsts]
    split
    · exact .cons (.refl m) ih
    · exact .cons (hf m) ih

theorem forall₂_bindDistinctIn (hsound : Sound s) (scope : Scope) (ms : List (Member k)) :
    List.Forall₂ Settles ms (bindDistinctIn scope [] ms s).1.2 := by
  rcases exists_answers_bindDistinctIn hsound scope [] ms with ⟨s', hanswers⟩
  rw [hanswers.eq]
  exact forall₂_mapFirsts (settles_settled hanswers.sound)

theorem forall₂_set {i : Nat} (hm : ms[i]? = some m) (h : Settles m m') :
    List.Forall₂ Settles ms (ms.set i m') := by
  induction ms generalizing i with
  | nil => exact .nil
  | cons x rest ih =>
    cases i with
    | zero =>
      obtain rfl : x = m := Option.some.inj hm
      exact .cons h (forall₂_refl rest)
    | succ i => exact .cons (.refl x) (ih hm)

theorem ids_of_forall₂ (h : List.Forall₂ Settles ms ms') :
    ms'.map Member.id = ms.map Member.id := by
  induction h with
  | nil => rfl
  | cons hm _ ih => rw [List.map_cons, List.map_cons, hm.id, ih]

end Member

/-! ## Fields that are looked up -/

namespace ToMany

variable {R : T.Kind → Type} [ToMany R] {r : R k}

/-- A way to look up members of a field. -/
inductive Lookup where
  /-- The member at a position, where the field was read. -/
  | visit (position : Nat)
  | all
  /-- The first member of each id, in the context of the scope. -/
  | resolve (scope : Scope)

/-- The field as a lookup leaves it. -/
def Lookup.leave (r : R k) (s : Session T) : Lookup → R k
  | .visit position =>
    match (members r)[position]? with
    | none => r
    | some m => withMembers r ((members r).set position (m.bind (source r) s).1.2)
  | .all => (handles r s).1.2
  | .resolve scope => (resolveIn scope r s).1.2

/-- The members are bound to handles of their ids, if at all. -/
def AllNamed (r : R k) : Prop := ∀ m ∈ members r, m.Named

theorem AllNamed.readThere (hnamed : AllNamed r) (hsource : source r = some c) : ReadThere c r :=
  ⟨hsource, hnamed⟩

section Lawful

variable [LawfulToMany R]

theorem settles_withMembers {ms : List (Member k)}
    (h : List.Forall₂ Member.Settles (members r) ms) :
    List.Forall₂ Member.Settles (members r) (members (withMembers r ms)) := by
  rw [LawfulToMany.members_withMembers r ms (Member.ids_of_forall₂ h)]
  exact h

theorem settles_leave (hsound : Sound s) (lookup : Lookup) (r : R k) :
    List.Forall₂ Member.Settles (members r) (members (lookup.leave r s)) := by
  cases lookup with
  | visit position =>
    cases hm : (members r)[position]? with
    | none =>
      simp only [Lookup.leave, hm]
      exact Member.forall₂_refl _
    | some m =>
      simp only [Lookup.leave, hm]
      exact settles_withMembers (Member.forall₂_set hm (Member.settles_bind hsound _ m))
  | all => exact settles_withMembers (Member.forall₂_bindAll hsound _ _)
  | resolve scope => exact settles_withMembers (Member.forall₂_bindDistinctIn hsound scope _)

theorem AllNamed.leave (hnamed : AllNamed r) (hsound : Sound s) (lookup : Lookup) :
    AllNamed (lookup.leave r s) := by
  intro m hm
  rcases exists_mem_left (settles_leave hsound lookup r) hm with ⟨x, hx, hsettles⟩
  exact hsettles.named (hnamed x hx)

theorem ids_leave (hsound : Sound s) (lookup : Lookup) (r : R k) :
    (members (lookup.leave r s)).map Member.id = (members r).map Member.id :=
  Member.ids_of_forall₂ (settles_leave hsound lookup r)

end Lawful

/-! ## Iterating -/

/-- What an iteration from `s` to `s'` gives for a member of a field that was read in the context:
the handle that it is bound to, or else what is found by its id. -/
inductive Yields (s s' : Session T) (c : ContextId) (m : Member k) : Option (Handle k) → Prop where
  | bound {h : Handle k} (hbound : m.bound = some h) : Yields s s' c m (some h)
  | resolved {h : Handle k} (hbound : m.bound = none) (hresolves : s.Resolves (.within c) k m.id)
      (hfound : s'.found? (.within c) k m.id = some h) (hid : h.id = m.id) :
      Yields s s' c m (some h)
  | unresolved (hbound : m.bound = none) (hnot : ¬ s.Resolves (.within c) k m.id) :
      Yields s s' c m none

theorem yields_answer (hsound : Sound s) (hsound' : Sound s')
    (hloads : Loads s s' c k (s.rowsNamed c k)) (m : Member k) :
    Yields s s' c m (m.answer s' (.within c)) := by
  cases hbound : m.bound with
  | some h =>
    have hanswer : m.answer s' (.within c) = some h := by rw [Member.answer, hbound, Option.some_or]
    rw [hanswer]
    exact .bound hbound
  | none =>
    have hanswer : m.answer s' (.within c) = s'.found? (.within c) k m.id := by
      rw [Member.answer, hbound, Option.none_or]
    have hscope : Loads s s' (Scope.within c).context k (s.rowsNamed (Scope.within c).context k) :=
      hloads
    have hresolves : s'.Resolves (.within c) k m.id ↔ s.Resolves (.within c) k m.id :=
      hscope.resolves_iff hsound hsound'
    rw [hanswer]
    cases hfound : s'.found? (.within c) k m.id with
    | none => exact .unresolved hbound (mt hresolves.2 (found?_eq_none.1 hfound))
    | some h =>
      have hresolves' : s'.Resolves (.within c) k m.id := isSome_found?.1 (by rw [hfound]; rfl)
      rcases delivers_of_found? hsound' hfound with ⟨_, _, _, hid⟩
      exact .resolved hbound (hresolves.1 hresolves') hfound hid

/-- An iteration answers member by member, in order, and keeps what there is to be found. -/
def Iterates (s : Session T) (c : ContextId) (r : R k) : Prop :=
  ∃ found r' s' answers, handles r s = ((found, r'), s') ∧ found = answers.reduceOption ∧
    List.Forall₂ (Yields s s' c) (members r) answers

theorem iterates (hread : ReadThere c r) (hsound : Sound s) : Iterates s c r := by
  rcases exists_handles hread hsound with ⟨s', hsound', hloads, hhandles⟩
  refine ⟨_, _, s', (members r).map (Member.answer s' (.within c)), hhandles, ?_, ?_⟩
  · rw [List.reduceOption, List.filterMap_map]
    rfl
  · rw [List.forall₂_map_right_iff]
    exact List.forall₂_same.2 fun m _ => yields_answer hsound hsound' hloads m

end ToMany

end Reconcile
