import Reconcile.Proofs.Query.Leaves
import Reconcile.Proofs.Session.Fetching
import Reconcile.Proofs.Sample.Brackets

/-!
# What a fetch reads

A fetch of a described type is refused for the first key of its query that names no attribute.  When
it is not, its answer depends on nothing of the payloads but the values that the query names: the
fetches of two sessions whose entities agree there give the same entities in the same order
(`Fetches.found_eq`).
-/

namespace Reconcile

namespace Session

variable {T : Model} {s t : Session T} {c : ContextId} {k : T.Kind} {q : Query} {scope : Scope}
  {d : Description} {keys : List String}

/-! ## Refused queries -/

theorem fetch_of_unknown {key : String} (hentity : q.entity = T.entityName k)
    (hd : (s.schemaOf scope.context).require (T.entityName k) = .ok d)
    (hkey : FirstWith d.NoAttribute q.named key) :
    (scope.fetch k q).outcome s = (.error (.unknownAttribute d.name key), s) := by
  have hkeys : d.checkKeys q.keys = .error (.unknownAttribute d.name key) := by
    rw [Query.keys_eq_named]
    exact Description.checkKeys_eq_error_iff.2 ⟨key, hkey, rfl⟩
  unfold Scope.fetch
  rw [if_neg (not_not.2 hentity)]
  refine (Attempt.outcome_bind_of_ok (Attempt.outcome_get s)).trans ?_
  rw [hd]
  refine (Attempt.outcome_bind_of_ok (Attempt.outcome_ofExcept _ s)).trans ?_
  rw [hkeys]
  exact Attempt.outcome_bind_of_error (Attempt.outcome_ofExcept _ s)

theorem askable_of_known (hentity : q.entity = T.entityName k)
    (hd : (s.schemaOf c).require (T.entityName k) = .ok d)
    (hknown : ∀ key ∈ q.named, ¬ d.NoAttribute key) : s.Askable c k q := by
  refine ⟨hentity, d, hd, ?_⟩
  rw [Query.keys_eq_named]
  exact Description.checkKeys_eq_ok_iff.2 hknown

/-! ## Sessions that agree on what a query names -/

/-- What can be seen of an entity in two sessions: payloads that agree on the keys, or none. -/
inductive SeenAlike (keys : List String) :
    Option (Except Fault Json) → Option (Except Fault Json) → Prop where
  | payload {a b : Json} (h : Json.AgreeOn keys a b) :
      SeenAlike keys (some (.ok a)) (some (.ok b))
  | none {x y : Option (Except Fault Json)} (hx : ∀ a, x ≠ some (.ok a))
      (hy : ∀ b, y ≠ some (.ok b)) : SeenAlike keys x y

/-- The context has the same registry in both sessions, and a fetch that reads no other values than
those under the keys can tell none of its entities apart. -/
structure AlikeOn (c : ContextId) (keys : List String) (s t : Session T) : Prop where
  registry : t.registry c = s.registry c
  pending : t.takesPending c = s.takesPending c
  deleted : ∀ e ∈ (s.registry c).values, t.entryDeleted e = s.entryDeleted e
  seen : ∀ e ∈ (s.registry c).values, SeenAlike keys (s.visibleOf e) (t.visibleOf e)

/-- The same entity, with payloads that agree on the keys. -/
def MatchAlike (keys : List String) (m m' : Handle k × Json) : Prop :=
  m.1 = m'.1 ∧ Json.AgreeOn keys m.2 m'.2

theorem AlikeOn.matchOf? (h : AlikeOn c q.named s t) {e : Entry T}
    (he : e ∈ (s.registry c).values) (pending : Bool) :
    Option.Rel (MatchAlike q.named) (s.matchOf? k q pending e) (t.matchOf? k q pending e) := by
  have heligible : t.Eligible k pending e ↔ s.Eligible k pending e := by
    rw [eligible_iff, eligible_iff, h.deleted e he]
  unfold Session.matchOf?
  by_cases hs : s.Eligible k pending e
  case neg =>
    rw [if_neg hs, if_neg (mt heligible.1 hs)]
    exact .none
  rw [if_pos hs, if_pos (heligible.2 hs)]
  -- what is seen of the entity is all that the two matches depend on
  have hseen := h.seen e he
  generalize s.visibleOf e = x at hseen
  generalize t.visibleOf e = y at hseen
  cases hseen with
  | payload hagree =>
    simp only [Query.accepts_of_sameOn hagree.sameOn]
    split
    · cases e.handle? k with
      | none => exact .none
      | some handle => exact .some ⟨rfl, hagree⟩
    · exact .none
  | none hx hy =>
    split
    · next a => exact absurd rfl (hx a)
    · exact .none

theorem AlikeOn.matchesOf (h : AlikeOn c q.named s t) (k : T.Kind) :
    List.Forall₂ (MatchAlike q.named) (s.matchesOf c k q) (t.matchesOf c k q) := by
  unfold Session.matchesOf
  rw [h.registry, h.pending]
  refine List.rel_filterMap (R := fun e e' => e ∈ (s.registry c).values ∧ e = e') ?_ ?_
  · rintro e _ ⟨he, rfl⟩
    exact h.matchOf? he _
  · exact List.forall₂_same.2 fun e he => ⟨he, rfl⟩

/-- Arranging compares no more of the payloads than the query names. -/
theorem arrange_alike {found found' : List (Handle k × Json)}
    (h : List.Forall₂ (MatchAlike q.named) found found') :
    List.Forall₂ (MatchAlike q.named) (Query.arrange q found) (Query.arrange q found') := by
  unfold Query.arrange
  split
  · exact h
  · exact forall₂_sortStable (fun _ _ _ _ ha hb => Query.compareBy_of_agreeOn ha.2 hb.2) h

theorem Fetches.found_eq {s₀ t₀ : Session T} {found found' : List (Handle k)}
    (h : s₀.Fetches c k q found s) (h' : t₀.Fetches c k q found' t)
    (halike : AlikeOn c q.named s t) : found = found' := by
  have harranged := arrange_alike (halike.matchesOf k)
  rw [h.found, h'.found, ← List.forall₂_eq_eq_eq, List.forall₂_map_left_iff,
    List.forall₂_map_right_iff]
  exact harranged.imp fun _ _ hm => hm.1

/-! ## Queries see what they name -/

/-- A query of a described type that names anything but attributes is refused for the first such
name, and nothing changes.  Any other query tells payloads apart by the values that it names alone:
it accepts those on which all its leaves hold, and arranges them by the values under its sort keys,
so whatever else the entities of two sessions hold, it gets the same answer.  For accepting it is
enough that the values are the same up to the sign of zeros. -/
theorem fetch_sees_named (hs : Run (fun _ => True) .empty s) (scope : Scope)
    (hentity : q.entity = T.entityName k)
    (hd : (s.schemaOf scope.context).require (T.entityName k) = .ok d) :
    ((∃ key ∈ q.named, d.NoAttribute key) → ∃ key, FirstWith d.NoAttribute q.named key ∧
      (scope.fetch k q).outcome s = (.error (.unknownAttribute d.name key), s)) ∧
    ((∀ key ∈ q.named, ¬ d.NoAttribute key) → s.Askable scope.context k q) ∧
    (∀ a b, Json.AgreeOn q.named a b → q.accepts a = q.accepts b ∧
      ∀ c, SortTerm.compareBy q.order a c = SortTerm.compareBy q.order b c ∧
        SortTerm.compareBy q.order c a = SortTerm.compareBy q.order c b) ∧
    (∀ a b, Json.SameOn q.named a b → q.accepts a = q.accepts b) ∧
    (∀ a, q.accepts a = true ↔ ∀ leaf ∈ q.leaves, Filter.LeafHolds a leaf) ∧
    (∀ q' : Query, (∀ leaf, leaf ∈ q'.leaves ↔ leaf ∈ q.leaves) →
      ∀ a, q'.accepts a = q.accepts a) ∧
    ∀ t, Run (fun _ => True) .empty t → ∀ found s', (scope.fetch k q).outcome s = (.ok found, s') →
      ∀ found' t', (scope.fetch k q).outcome t = (.ok found', t') →
        AlikeOn scope.context q.named s' t' → found = found' := by
  refine ⟨?_, ?_, ?_, ?_, ?_, ?_, ?_⟩
  · intro hunknown
    rcases exists_firstWith hunknown with ⟨key, hkey⟩
    exact ⟨key, hkey, fetch_of_unknown hentity hd hkey⟩
  · exact askable_of_known hentity hd
  · intro a b hagree
    refine ⟨Query.accepts_of_sameOn hagree.sameOn, fun c => ⟨?_, ?_⟩⟩
    · exact Query.compareBy_of_agreeOn hagree (.refl _ c)
    · exact Query.compareBy_of_agreeOn (.refl _ c) hagree
  · exact fun a b => Query.accepts_of_sameOn
  · exact fun a => Query.accepts_iff
  · intro q' hleaves a
    rw [Bool.eq_iff_iff, Query.accepts_iff, Query.accepts_iff]
    exact forall_congr' fun leaf => imp_congr (hleaves leaf) Iff.rfl
  · intro t ht found s' hfound found' t' hfound' halike
    have hfetches := (fetch_spec (hs.sound sound_empty) scope k q).2 found s' hfound
    have hfetches' := (fetch_spec (ht.sound sound_empty) scope k q).2 found' t' hfound'
    exact hfetches.found_eq hfetches' halike

section Posts

open Sample

/-- Asks for the posts under a title that have no author, by their tags. -/
def authorless : Query :=
  ⟨"Post", some (.all [.equals "title" (.string "red"), .all [.equals "author" .null]]),
    [⟨"tags", true⟩]⟩

/-- The author of a post is a relationship, so no query can name it. -/
theorem fetch_sees_named_posts :
    FirstWith postDescription.NoAttribute authorless.named "author" ∧
      ((Scope.within ⟨1⟩).fetch (T := model) Kind.post authorless).outcome nodesOpen =
        (.error (.unknownAttribute "Post" "author"), nodesOpen) := by
  have hnone : postDescription.NoAttribute "author" := by
    unfold Description.NoAttribute
    decide
  have htitle : ¬ postDescription.NoAttribute "title" := by
    unfold Description.NoAttribute
    decide
  have hfirst : FirstWith postDescription.NoAttribute authorless.named "author" :=
    ⟨["title"], ["tags"], rfl, hnone, fun _ hkey => List.mem_singleton.1 hkey ▸ htitle⟩
  have hnamed : "author" ∈ authorless.named := by
    simp [Query.named, Query.leaves, Filter.leaves, Filter.leavesOfAll, authorless]
  have hsees := fetch_sees_named (k := Kind.post) (q := authorless) run_nodesOpen (.within ⟨1⟩)
    rfl rfl
  rcases hsees.1 ⟨"author", hnamed, hnone⟩ with ⟨key, hkey, hfetch⟩
  rw [hkey.unique hfirst] at hfetch
  exact ⟨hfirst, hfetch⟩

end Posts

end Session

end Reconcile
