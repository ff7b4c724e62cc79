import Reconcile.Proofs.Query.Order

/-!
# What sorting by attributes does

`compareValues` is an order on *scalars*: `null`, truth values, strings and integers of a signed
word.  It is none on all values, since a large integer can be told from another one only when both
are compared exactly.  On payloads whose sort keys hold scalars `compareBy` is a preorder then
(`Arranges`), and sorting a list puts it into this order and leaves what is level as it was
(`pairwise_sortStable`).
-/

namespace Reconcile

variable {α : Type} {cmp cmp' : α → α → Ordering} {P : α → Prop}

/-- The comparison is a total preorder where `P` holds. -/
structure Arranges (P : α → Prop) (cmp : α → α → Ordering) : Prop where
  swap : ∀ {a b}, P a → P b → cmp b a = (cmp a b).swap
  trans : ∀ {a b c}, P a → P b → P c → (cmp a b).isLE = true → (cmp b c).isLE = true →
    (cmp a c).isLE = true

namespace Arranges

/-- If the ends of a chain are level, all of it is. -/
theorem eq_of_eq (h : Arranges P cmp) {a b c : α} (ha : P a) (hb : P b) (hc : P c)
    (hab : (cmp a b).isLE = true) (hbc : (cmp b c).isLE = true) (hac : cmp a c = .eq) :
    cmp a b = .eq ∧ cmp b c = .eq := by
  have hca : (cmp c a).isLE = true := by simp [h.swap ha hc, hac]
  have hcb : (cmp c b).isLE = true := h.trans hc ha hb hca hab
  have hba : (cmp b a).isLE = true := h.trans hb hc ha hbc hca
  rw [h.swap hb hc] at hcb
  rw [h.swap ha hb] at hba
  constructor
  · cases hcmp : cmp a b <;> simp_all
  · cases hcmp : cmp b c <;> simp_all

/-- Where the first comparison is level, a second one decides. -/
theorem thenBy (h : Arranges P cmp) (h' : Arranges P cmp') :
    Arranges P fun a b => (cmp a b).then (cmp' a b) := by
  constructor
  case swap =>
    intro a b ha hb
    simp only [h.swap ha hb, h'.swap ha hb, Ordering.swap_then]
  case trans =>
    intro a b c ha hb hc hab hbc
    rw [Ordering.isLE_then_iff_and] at hab hbc ⊢
    refine ⟨h.trans ha hb hc hab.1 hbc.1, ?_⟩
    rcases hlt : cmp a c with _ | _ | _
    case lt => exact Or.inl rfl
    case eq =>
      -- then the first comparison is level on the whole chain
      rcases h.eq_of_eq ha hb hc hab.1 hbc.1 hlt with ⟨heq, heq'⟩
      have hle : (cmp' a b).isLE = true := by simpa [heq] using hab.2
      have hle' : (cmp' b c).isLE = true := by simpa [heq'] using hbc.2
      exact Or.inr (h'.trans ha hb hc hle hle')
    case gt =>
      have hle := h.trans ha hb hc hab.1 hbc.1
      simp [hlt] at hle

/-- The other way round. -/
theorem opposite (h : Arranges P cmp) : Arranges P fun a b => (cmp a b).swap := by
  constructor
  case swap =>
    intro a b ha hb
    simp [h.swap ha hb]
  case trans =>
    intro a b c ha hb hc hab hbc
    rw [← h.swap ha hb] at hab
    rw [← h.swap hb hc] at hbc
    rw [← h.swap ha hc]
    exact h.trans hc hb ha hbc hab

theorem on {β : Type} (h : Arranges P cmp) (f : β → α) :
    Arranges (fun b => P (f b)) fun a b => cmp (f a) (f b) :=
  ⟨fun ha hb => h.swap ha hb, fun ha hb hc => h.trans ha hb hc⟩

theorem mono {Q : α → Prop} (h : Arranges P cmp) (hsub : ∀ a, Q a → P a) : Arranges Q cmp :=
  ⟨fun ha hb => h.swap (hsub _ ha) (hsub _ hb),
    fun ha hb hc => h.trans (hsub _ ha) (hsub _ hb) (hsub _ hc)⟩

end Arranges

/-! ## Sorting -/

section Sorting

variable {r : α → α → Prop}

/-- Before in a sorted list: below, or level and before in the list that was sorted. -/
def Before (cmp : α → α → Ordering) (r : α → α → Prop) (a b : α) : Prop :=
  cmp a b = .lt ∨ (cmp a b = .eq ∧ r a b)

theorem mem_insertDescending {a b : α} {as : List α} :
    b ∈ insertDescending cmp a as ↔ b = a ∨ b ∈ as := by
  rw [(perm_insertDescending a as).mem_iff, List.mem_cons]

/-- The sorted part decreases, and what comes next comes after all of it. -/
theorem pairwise_insertDescending (h : Arranges P cmp) {a : α} {as : List α} (ha : P a)
    (has : ∀ b ∈ as, P b) (hr : ∀ b ∈ as, r b a)
    (hsorted : as.Pairwise fun x y => Before cmp r y x) :
    (insertDescending cmp a as).Pairwise fun x y => Before cmp r y x := by
  induction as with
  | nil => simp [insertDescending]
  | cons b rest ih =>
    rcases List.pairwise_cons.1 hsorted with ⟨hfirst, hrest⟩
    have hb : P b := has b List.mem_cons_self
    unfold insertDescending
    split
    case isTrue hlt =>
      refine List.pairwise_cons.2 ⟨?_, ?_⟩
      · intro x hx
        rcases mem_insertDescending.1 hx with rfl | hx
        · exact Or.inl hlt
        · exact hfirst x hx
      · exact ih (fun x hx => has x (List.mem_cons_of_mem _ hx))
          (fun x hx => hr x (List.mem_cons_of_mem _ hx)) hrest
    case isFalse hle =>
      refine List.pairwise_cons.2 ⟨?_, hsorted⟩
      have hba : (cmp b a).isLE = true := by
        rw [h.swap ha hb]
        cases hcmp : cmp a b <;> simp_all
      intro x hx
      -- what stands behind `b` is below `b`, and `b` is not above `a`
      have hxb : (cmp x b).isLE = true := by
        rcases List.mem_cons.1 hx with rfl | hx
        · have hself : cmp x x = (cmp x x).swap := h.swap hb hb
          cases hcmp : cmp x x <;> simp_all
        · rcases hfirst x hx with hlt | ⟨heq, _⟩
          · simp [hlt]
          · simp [heq]
      have hxa : (cmp x a).isLE = true := h.trans (has x hx) hb ha hxb hba
      rcases hcmp : cmp x a with _ | _ | _
      · exact Or.inl hcmp
      · exact Or.inr ⟨hcmp, hr x hx⟩
      · simp [hcmp] at hxa

/-- Sorting a list puts it into the order, and keeps the order of what is level. -/
theorem pairwise_sortStable (h : Arranges P cmp) {as : List α} (has : ∀ a ∈ as, P a)
    (hr : as.Pairwise r) : (sortStable cmp as).Pairwise (Before cmp r) := by
  -- the sorted part comes before the rest in the list that is sorted
  have hfold : ∀ (rest sorted : List α), (∀ a ∈ rest, P a) → (∀ a ∈ sorted, P a) →
      (∀ a ∈ sorted, ∀ b ∈ rest, r a b) → rest.Pairwise r →
      (sorted.Pairwise fun x y => Before cmp r y x) →
      (rest.foldl (fun sorted a => insertDescending cmp a sorted) sorted).Pairwise
        fun x y => Before cmp r y x := by
    intro rest
    induction rest with
    | nil => exact fun sorted _ _ _ _ hsorted => hsorted
    | cons a rest ih =>
      intro sorted hrest hsorted hcross hr hdescending
      rcases List.pairwise_cons.1 hr with ⟨hfirst, hr⟩
      have ha : P a := hrest a List.mem_cons_self
      refine ih _ (fun b hb => hrest b (List.mem_cons_of_mem _ hb)) ?_ ?_ hr ?_
      · intro b hb
        rcases mem_insertDescending.1 hb with rfl | hb
        · exact ha
        · exact hsorted b hb
      · intro b hb x hx
        rcases mem_insertDescending.1 hb with rfl | hb
        · exact hfirst x hx
        · exact hcross b hb x (List.mem_cons_of_mem _ hx)
      · exact pairwise_insertDescending h ha hsorted
          (fun b hb => hcross b hb a List.mem_cons_self) hdescending
  unfold sortStable
  rw [List.pairwise_reverse]
  exact hfold as [] has (by simp) (by simp) hr List.Pairwise.nil

/-- If only equal elements are level, the order of the list that is sorted does not matter. -/
theorem sortStable_perm (h : Arranges P cmp)
    (heq : ∀ {a b}, P a → P b → cmp a b = .eq → a = b) {as bs : List α} (has : ∀ a ∈ as, P a)
    (hperm : as.Perm bs) : sortStable cmp as = sortStable cmp bs := by
  have hsorted : ∀ {cs : List α}, (∀ c ∈ cs, P c) →
      (sortStable cmp cs).Pairwise fun a b => (cmp a b).isLE = true := by
    intro cs hcs
    refine (pairwise_sortStable (r := fun _ _ => True) h hcs (List.pairwise_of_forall ?_)).imp ?_
    · exact fun _ _ => trivial
    · rintro a b (hlt | ⟨hlevel, _⟩)
      · simp [hlt]
      · simp [hlevel]
  have hbs : ∀ b ∈ bs, P b := fun b hb => has b (hperm.mem_iff.2 hb)
  have hboth : (sortStable cmp as).Perm (sortStable cmp bs) :=
    (perm_sortStable as).trans (hperm.trans (perm_sortStable bs).symm)
  refine hboth.eq_of_pairwise ?_ (hsorted has) (hsorted hbs)
  intro a b ha hb hab hba
  have hPa : P a := has a ((perm_sortStable as).mem_iff.1 ha)
  have hPb : P b := hbs b ((perm_sortStable bs).mem_iff.1 hb)
  rw [h.swap hPa hPb] at hba
  refine heq hPa hPb ?_
  cases hcmp : cmp a b <;> simp_all

end Sorting

section Mapped

variable {α β : Type} {cmp : α → α → Ordering} {cmp' : β → β → Ordering} {f : α → β}
  (hf : ∀ a b, cmp' (f a) (f b) = cmp a b)
include hf

theorem insertDescending_map (a : α) (as : List α) :
    insertDescending cmp' (f a) (as.map f) = (insertDescending cmp a as).map f := by
  induction as with
  | nil => rfl
  | cons b rest ih =>
    rw [List.map_cons, insertDescending, insertDescending, hf]
    split
    · rw [ih, List.map_cons]
    · rfl

/-- Sorting does not look at what the order does not look at. -/
theorem sortStable_map (as : List α) : sortStable cmp' (as.map f) = (sortStable cmp as).map f := by
  have hfold : ∀ sorted : List α,
      (as.map f).foldl (fun sorted a => insertDescending cmp' a sorted) (sorted.map f) =
        (as.foldl (fun sorted a => insertDescending cmp a sorted) sorted).map f := by
    induction as with
    | nil => exact fun sorted => rfl
    | cons a rest ih =>
      intro sorted
      rw [List.map_cons, List.foldl_cons, List.foldl_cons, insertDescending_map hf]
      exact ih _
  unfold sortStable
  rw [List.map_reverse]
  exact congrArg List.reverse (hfold [])

end Mapped

/-! ## Scalars -/

namespace Json

/-- The values that the order of attribute values is an order on. -/
def IsScalar : Json → Prop
  | .null | .bool _ | .string _ => True
  | .number (.int n) => n.IsSigned
  | _ => False

/-- The integer that a scalar compares by among those of its kind, and the text. -/
def scalarKey : Json → Int × String
  | .bool b => (b.toNat, "")
  | .number (.int n) => (n.val, "")
  | .string s => (0, s)
  | _ => (0, "")

/-- Scalars compare by kind, and then by what they hold. -/
def compareScalars : Json → Json → Ordering :=
  compareLex (compareOn kindRank)
    (compareLex (compareOn fun j => j.scalarKey.1) (compareOn fun j => j.scalarKey.2))

theorem compareValues_of_scalar {a b : Json} (ha : a.IsScalar) (hb : b.IsScalar) :
    compareValues a b = compareScalars a b := by
  cases a with
  | null => cases b <;> rfl
  | bool x =>
    cases b with
    | bool y => cases x <;> cases y <;> rfl
    | _ => rfl
  | string x =>
    cases b with
    | string y =>
      have hself : compareScalars (.string x) (.string y) = compare x y := rfl
      rw [hself]
      rfl
    | _ => rfl
  | number m =>
    cases b with
    | number n =>
      cases m with
      | double x => cases ha
      | int x =>
        cases n with
        | double y => cases hb
        | int y =>
          have hsigned : x.IsSigned ∧ y.IsSigned := ⟨ha, hb⟩
          have hkeys : compareScalars (.number (.int x)) (.number (.int y)) =
              (compare x.val y.val).then .eq := rfl
          rw [hkeys, compareValues, Number.compare, if_pos hsigned]
          cases compare x.val y.val <;> rfl
    | _ => rfl
  | array items => cases ha
  | object fields => cases ha

theorem eq_of_compareScalars {a b : Json} (ha : a.IsScalar) (hb : b.IsScalar)
    (h : compareScalars a b = .eq) : a = b := by
  have hparts : a.kindRank = b.kindRank ∧ a.scalarKey = b.scalarKey := by
    simpa [compareScalars, compareLex, compareOn, Prod.ext_iff] using h
  rcases hparts with ⟨hkind, hkey⟩
  -- values of one kind are told apart by their keys
  cases a with
  | null => cases b <;> simp [kindRank] at hkind ⊢
  | bool x =>
    cases b with
    | bool y => cases x <;> cases y <;> simp [scalarKey] at hkey ⊢
    | _ => simp [kindRank] at hkind
  | string x =>
    cases b with
    | string y => simpa [scalarKey] using hkey
    | _ => simp [kindRank] at hkind
  | number m =>
    cases b with
    | number n =>
      cases m with
      | double x => cases ha
      | int x =>
        cases n with
        | double y => cases hb
        | int y =>
          have hval : x.val = y.val := by simpa [scalarKey] using hkey
          rw [WordInt.ext hval]
    | _ => simp [kindRank] at hkind
  | array items => cases ha
  | object fields => cases ha

theorem arranges_scalars : Arranges IsScalar compareValues := by
  have htotal : Std.TransCmp compareScalars := by
    unfold compareScalars
    infer_instance
  constructor
  case swap =>
    intro a b ha hb
    rw [compareValues_of_scalar ha hb, compareValues_of_scalar hb ha]
    exact Std.OrientedCmp.eq_swap
  case trans =>
    intro a b c ha hb hc hab hbc
    rw [compareValues_of_scalar ha hb] at hab
    rw [compareValues_of_scalar hb hc] at hbc
    rw [compareValues_of_scalar ha hc]
    exact Std.TransCmp.isLE_trans hab hbc

end Json

/-! ## Sort terms -/

namespace SortTerm

variable {terms : List SortTerm} {a b : Json}

/-- The payload holds a scalar, or nothing, under the key of each term. -/
def Scalars (terms : List SortTerm) (payload : Json) : Prop :=
  ∀ term ∈ terms, (payload.valueAt term.key).IsScalar

/-- No term tells the payloads apart. -/
def Level (terms : List SortTerm) (a b : Json) : Prop :=
  ∀ term ∈ terms, a.valueAt term.key = b.valueAt term.key

/-- The first term that tells the payloads apart puts `a` before `b`: as the smaller value if it
ascends, as the greater one if it descends. -/
inductive Ahead (a b : Json) : List SortTerm → Prop where
  | first {term : SortTerm} {rest : List SortTerm}
      (h : (a.valueAt term.key).compareValues (b.valueAt term.key) =
        if term.ascending then .lt else .gt) : Ahead a b (term :: rest)
  | later {term : SortTerm} {rest : List SortTerm}
      (heq : a.valueAt term.key = b.valueAt term.key) (h : Ahead a b rest) :
      Ahead a b (term :: rest)

theorem arranges_term (term : SortTerm) :
    Arranges (fun payload => (payload.valueAt term.key).IsScalar) term.comparePayloads := by
  have hvalues := Json.arranges_scalars.on (Json.valueAt term.key)
  rcases term with ⟨key, ascending⟩
  cases ascending with
  | true => exact hvalues
  | false => exact hvalues.opposite

theorem arranges_compareBy (terms : List SortTerm) :
    Arranges (Scalars terms) (compareBy terms) := by
  induction terms with
  | nil => exact ⟨fun _ _ => rfl, fun _ _ _ _ _ => rfl⟩
  | cons term rest ih =>
    have hfirst := (arranges_term term).mono fun payload
      (hscalars : Scalars (term :: rest) payload) => hscalars term List.mem_cons_self
    have hrest := ih.mono fun payload (hscalars : Scalars (term :: rest) payload) =>
      fun other hother => hscalars other (List.mem_cons_of_mem _ hother)
    exact hfirst.thenBy hrest

theorem comparePayloads_eq_lt {term : SortTerm} (h : term.comparePayloads a b = .lt) :
    (a.valueAt term.key).compareValues (b.valueAt term.key) =
      if term.ascending then .lt else .gt := by
  cases hascending : term.ascending <;> simpa [comparePayloads, hascending] using h

theorem valueAt_eq_of_comparePayloads {term : SortTerm} (ha : (a.valueAt term.key).IsScalar)
    (hb : (b.valueAt term.key).IsScalar) (h : term.comparePayloads a b = .eq) :
    a.valueAt term.key = b.valueAt term.key := by
  have heq : (a.valueAt term.key).compareValues (b.valueAt term.key) = .eq := by
    cases hascending : term.ascending <;> simpa [comparePayloads, hascending] using h
  exact Json.eq_of_compareScalars ha hb ((Json.compareValues_of_scalar ha hb).symm.trans heq)

/-- Of several terms, the first one that tells two payloads apart decides. -/
theorem compareBy_cases (ha : Scalars terms a) (hb : Scalars terms b) :
    (compareBy terms a b = .lt → Ahead a b terms) ∧
      (compareBy terms a b = .eq → Level terms a b) := by
  induction terms with
  | nil => simp [compareBy, Level]
  | cons term rest ih =>
    rcases List.forall_mem_cons.1 ha with ⟨hafirst, harest⟩
    rcases List.forall_mem_cons.1 hb with ⟨hbfirst, hbrest⟩
    rcases ih harest hbrest with ⟨hahead, hlevel⟩
    constructor
    · intro hlt
      rcases Ordering.then_eq_lt.1 hlt with hfirst | ⟨hfirst, hrest⟩
      · exact .first (comparePayloads_eq_lt hfirst)
      · exact .later (valueAt_eq_of_comparePayloads hafirst hbfirst hfirst) (hahead hrest)
    · intro heq
      rcases Ordering.then_eq_eq.1 heq with ⟨hfirst, hrest⟩
      exact List.forall_mem_cons.2
        ⟨valueAt_eq_of_comparePayloads hafirst hbfirst hfirst, hlevel hrest⟩

end SortTerm

end Reconcile
