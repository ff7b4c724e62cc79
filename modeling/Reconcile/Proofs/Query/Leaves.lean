import Mathlib.Data.List.Forall2
import Reconcile.Proofs.Data.Outcome
import Reconcile.Proofs.Json.Same
import Reconcile.Proofs.Schema.Checking

/-!
# What a query reads

However a filter is nested, it is a list of equalities, its *leaves*, and holds where they all do.
The keys that a query checks are those of its leaves and then of its sort terms, and these are all
that it reads of a payload: payloads with the same values there are accepted alike, compare alike,
and are sorted alike.

A filter does not tell zeros of different signs apart, so it accepts payloads alike that are the
same under the keys (`Json.SameOn`).  Sorting does where they stand inside of a list or an object,
as these compare by their texts, so there the values have to be identical (`Json.AgreeOn`).
-/

namespace Reconcile

/-- The payloads have identical values under the keys; a missing value counts as `null`.  This is
finer than `Json.same`, for which the two zeros are one. -/
def Json.AgreeOn (keys : List String) (a b : Json) : Prop :=
  ∀ key ∈ keys, a.valueAt key = b.valueAt key

/-- The payloads have values under the keys that are the same. -/
def Json.SameOn (keys : List String) (a b : Json) : Prop :=
  ∀ key ∈ keys, (a.valueAt key).same (b.valueAt key) = true

namespace Json.AgreeOn

variable {keys keys' : List String} {a b : Json}

theorem refl (keys : List String) (a : Json) : AgreeOn keys a a := fun _ _ => rfl

theorem mono (h : AgreeOn keys a b) (hsub : keys' ⊆ keys) : AgreeOn keys' a b :=
  fun key hkey => h key (hsub hkey)

theorem sameOn (h : AgreeOn keys a b) : SameOn keys a b := by
  intro key hkey
  rw [h key hkey]
  exact same_refl _

end Json.AgreeOn

/-! ## Filters -/

namespace Filter

variable {payload a b : Json}

mutual

/-- The equalities that a filter is made of, from left to right. -/
def leaves : Filter → List (String × Json)
  | .equals key value => [(key, value)]
  | .all filters => leavesOfAll filters

def leavesOfAll : List Filter → List (String × Json)
  | [] => []
  | f :: rest => leaves f ++ leavesOfAll rest

end

mutual

/-- No leaf is left out when the keys are collected. -/
theorem keys_eq_leaves : ∀ f : Filter, f.keys = f.leaves.map (·.1)
  | .equals key value => rfl
  | .all filters => by simpa only [keys, leaves] using keysOfAll_eq_leaves filters

theorem keysOfAll_eq_leaves : ∀ filters : List Filter,
    keysOfAll filters = (leavesOfAll filters).map (·.1)
  | [] => rfl
  | f :: rest => by
    simp only [keysOfAll, leavesOfAll, List.map_append, keys_eq_leaves f, keysOfAll_eq_leaves rest]

end

/-- The equality holds of the payload. -/
def LeafHolds (payload : Json) (leaf : String × Json) : Prop :=
  (payload.valueAt leaf.1).same leaf.2 = true

mutual

theorem holds_iff : ∀ f : Filter, f.holds payload = true ↔ ∀ leaf ∈ f.leaves, LeafHolds payload leaf
  | .equals key value => by simp [holds, leaves, LeafHolds]
  | .all filters => by simpa only [holds, leaves] using holdsAll_iff filters

theorem holdsAll_iff : ∀ filters : List Filter,
    holdsAll payload filters = true ↔ ∀ leaf ∈ leavesOfAll filters, LeafHolds payload leaf
  | [] => by simp [holdsAll, leavesOfAll]
  | f :: rest => by
    simp only [holdsAll, leavesOfAll, Bool.and_eq_true, List.forall_mem_append, holds_iff f,
      holdsAll_iff rest]

end

theorem LeafHolds.congr {leaf : String × Json}
    (h : (a.valueAt leaf.1).same (b.valueAt leaf.1) = true) :
    LeafHolds a leaf ↔ LeafHolds b leaf :=
  ⟨Json.same_trans (Json.same_symm h), Json.same_trans h⟩

theorem holds_of_sameOn {f : Filter} (h : Json.SameOn f.keys a b) : f.holds a = f.holds b := by
  rw [Bool.eq_iff_iff, holds_iff, holds_iff]
  refine forall₂_congr ?_
  intro leaf hleaf
  have hkey : leaf.1 ∈ f.keys := by
    rw [keys_eq_leaves]
    exact List.mem_map_of_mem hleaf
  exact LeafHolds.congr (h leaf.1 hkey)

end Filter

/-! ## Sort terms -/

namespace SortTerm

variable {a a' b b' : Json}

theorem comparePayloads_of_agreeOn {term : SortTerm} (ha : Json.AgreeOn [term.key] a a')
    (hb : Json.AgreeOn [term.key] b b') :
    term.comparePayloads a b = term.comparePayloads a' b' := by
  unfold comparePayloads
  rw [ha term.key List.mem_cons_self, hb term.key List.mem_cons_self]

/-- Either payload can be put in place of one that agrees with it. -/
theorem compareBy_of_agreeOn : ∀ {terms : List SortTerm},
    Json.AgreeOn (terms.map key) a a' → Json.AgreeOn (terms.map key) b b' →
      compareBy terms a b = compareBy terms a' b'
  | [], _, _ => rfl
  | term :: rest, ha, hb => by
    have hfirst : [term.key] ⊆ (term :: rest).map key := by simp
    have hrest : rest.map key ⊆ (term :: rest).map key := by simp
    have hterm := comparePayloads_of_agreeOn (ha.mono hfirst) (hb.mono hfirst)
    rw [compareBy, compareBy, hterm, compareBy_of_agreeOn (ha.mono hrest) (hb.mono hrest)]

end SortTerm

/-! ## Queries -/

namespace Query

variable {q : Query} {a b c : Json}

/-- The equalities that a query asks for, from left to right. -/
def leaves (q : Query) : List (String × Json) :=
  match q.filter with
  | some f => f.leaves
  | none => []

/-- The attributes that a query names: those of its leaves, then those of its sort terms. -/
def named (q : Query) : List String := q.leaves.map (·.1) ++ q.order.map SortTerm.key

theorem keys_eq_named (q : Query) : q.keys = q.named := by
  unfold keys named leaves
  cases q.filter with
  | none => rfl
  | some f => simp only [Filter.keys_eq_leaves]

theorem accepts_iff : q.accepts a = true ↔ ∀ leaf ∈ q.leaves, Filter.LeafHolds a leaf := by
  unfold accepts leaves
  cases q.filter with
  | none => simp
  | some f => exact Filter.holds_iff f

theorem accepts_of_sameOn (h : Json.SameOn q.named a b) : q.accepts a = q.accepts b := by
  rw [← keys_eq_named] at h
  unfold accepts
  cases hfilter : q.filter with
  | none => rfl
  | some f =>
    have hkeys : f.keys ⊆ q.keys := by simp [keys, hfilter]
    exact Filter.holds_of_sameOn fun key hkey => h key (hkeys hkey)

theorem compareBy_of_agreeOn {a' b' : Json} (ha : Json.AgreeOn q.named a a')
    (hb : Json.AgreeOn q.named b b') :
    SortTerm.compareBy q.order a b = SortTerm.compareBy q.order a' b' := by
  have horder : q.order.map SortTerm.key ⊆ q.named := List.subset_append_right _ _
  exact SortTerm.compareBy_of_agreeOn (ha.mono horder) (hb.mono horder)

end Query

/-! ## Checking keys -/

section FirstWith

variable {α : Type} {p : α → Prop} {as : List α} {a b : α}

theorem exists_firstWith (h : ∃ a ∈ as, p a) : ∃ a, FirstWith p as a := by
  classical
  rcases h with ⟨a, ha, hp⟩
  have hsome : (as.find? fun a => decide (p a)).isSome :=
    List.find?_isSome.2 ⟨a, ha, decide_eq_true hp⟩
  rcases Option.isSome_iff_exists.1 hsome with ⟨b, hb⟩
  exact ⟨b, (find?_eq_some_iff_firstWith fun _ => decide_eq_true_iff).1 hb⟩

theorem FirstWith.unique (ha : FirstWith p as a) (hb : FirstWith p as b) : a = b := by
  classical
  have hfind := (find?_eq_some_iff_firstWith (p := fun a => decide (p a))
    fun _ => decide_eq_true_iff).2 ha
  have hfind' := (find?_eq_some_iff_firstWith (p := fun a => decide (p a))
    fun _ => decide_eq_true_iff).2 hb
  exact Option.some.inj (hfind.symm.trans hfind')

end FirstWith

namespace Description

variable {d : Description} {keys : List String} {key : String} {fault : Fault}

theorem checkKeys_eq_forM (d : Description) (keys : List String) :
    d.checkKeys keys = forM keys fun key => discard (d.queryable key) := by
  induction keys with
  | nil => rfl
  | cons key rest ih =>
    rw [checkKeys, ih, List.forM_cons]
    cases d.queryable key <;> rfl

theorem queryable_eq_error_iff : discard (d.queryable key) = .error fault ↔
    d.NoAttribute key ∧ fault = .unknownAttribute d.name key := by
  rw [← attribute?_eq_none_iff, queryable]
  cases d.attribute? key with
  | none =>
    constructor
    · intro h
      cases h
      exact ⟨rfl, rfl⟩
    · rintro ⟨_, rfl⟩
      rfl
  | some a =>
    constructor
    · intro h
      cases h
    · rintro ⟨h, _⟩
      cases h

theorem queryable_eq_ok_iff : discard (d.queryable key) = .ok () ↔ ¬ d.NoAttribute key := by
  rw [← attribute?_eq_none_iff, queryable]
  cases d.attribute? key with
  | none =>
    constructor
    · intro h
      cases h
    · intro h
      exact absurd rfl h
  | some a => exact iff_of_true rfl nofun

theorem checkKeys_eq_ok_iff : d.checkKeys keys = .ok () ↔ ∀ key ∈ keys, ¬ d.NoAttribute key := by
  rw [checkKeys_eq_forM, Outcome.forM_eq_ok]
  exact forall₂_congr fun _ _ => queryable_eq_ok_iff

/-- The fault is that of the first key that names no attribute. -/
theorem checkKeys_eq_error_iff : d.checkKeys keys = .error fault ↔
    ∃ key, FirstWith d.NoAttribute keys key ∧ fault = .unknownAttribute d.name key := by
  rw [checkKeys_eq_forM, Outcome.forM_eq_error]
  simp only [queryable_eq_error_iff, queryable_eq_ok_iff, FirstWith]
  constructor
  · rintro ⟨before, key, after, hsplit, ⟨hkey, hfault⟩, hbefore⟩
    exact ⟨key, ⟨before, after, hsplit, hkey, hbefore⟩, hfault⟩
  · rintro ⟨key, ⟨before, after, hsplit, hkey, hbefore⟩, hfault⟩
    exact ⟨before, key, after, hsplit, ⟨hkey, hfault⟩, hbefore⟩

end Description

/-! ## Sorting lists that correspond -/

section Sorting

variable {α β : Type} {R : α → β → Prop} {cmp : α → α → Ordering} {cmp' : β → β → Ordering}

theorem forall₂_insertDescending (hcmp : ∀ a a' b b', R a a' → R b b' → cmp a b = cmp' a' b')
    {a : α} {a' : β} (ha : R a a') {as : List α} {bs : List β} (h : List.Forall₂ R as bs) :
    List.Forall₂ R (insertDescending cmp a as) (insertDescending cmp' a' bs) := by
  induction h with
  | nil => exact .cons ha .nil
  | cons hb hrest ih =>
    unfold insertDescending
    rw [hcmp _ _ _ _ ha hb]
    split
    · exact .cons hb ih
    · exact .cons ha (.cons hb hrest)

/-- Where corresponding elements compare alike, sorting keeps the correspondence. -/
theorem forall₂_sortStable (hcmp : ∀ a a' b b', R a a' → R b b' → cmp a b = cmp' a' b')
    {as : List α} {bs : List β} (h : List.Forall₂ R as bs) :
    List.Forall₂ R (sortStable cmp as) (sortStable cmp' bs) := by
  have hfold : ∀ {sorted : List α} {sorted' : List β}, List.Forall₂ R sorted sorted' →
      List.Forall₂ R (as.foldl (fun sorted a => insertDescending cmp a sorted) sorted)
        (bs.foldl (fun sorted a => insertDescending cmp' a sorted) sorted') := by
    -- the sorted parts correspond at every step
    induction h with
    | nil => exact fun hsorted => hsorted
    | cons ha _ ih => exact fun hsorted => ih (forall₂_insertDescending hcmp ha hsorted)
  unfold sortStable
  exact List.rel_reverse (hfold .nil)

end Sorting

end Reconcile
