import Reconcile.Proofs.Number.Rounding
import Reconcile.Proofs.Query.Sorting

/-!
# Where comparing is a preorder

`compareValues` is two comparisons in one.  The *rough* one goes by kind, then by the nearest
double of a number, the text of a string or the compact text of a composite value, and is a total
preorder on all values.  The *fine* one tells integers of a signed word apart that have one nearest
double.  Rounding keeps the order of integers, so the fine one only decides where the rough one is
level.

Together they are no preorder: a number that is compared as a double is level with all signed
integers around it, while these are told apart (`Blurs`).  This is the only way in which
transitivity fails, so comparing is a preorder exactly on the sets of payloads without such a
triple.
-/

namespace Reconcile

namespace Json

variable {a b c : Json}

/-! ## The two comparisons -/

/-- The number that a value compares by among those of its kind. -/
def roughInt : Json → Int
  | .bool b => b.toNat
  | .number n => n.toDouble.rank
  | _ => 0

/-- The text that a value compares by among those of its kind. -/
def roughText : Json → String
  | .string s => s
  | .array items => (Json.array items).compact
  | .object fields => (Json.object fields).compact
  | _ => ""

def compareRough : Json → Json → Ordering :=
  compareLex (compareOn kindRank) (compareLex (compareOn roughInt) (compareOn roughText))

instance : Std.TransCmp compareRough := by
  unfold compareRough
  infer_instance

/-- The integer of a signed word. -/
def signed? : Json → Option Int
  | .number (.int n) => if n.IsSigned then some n.val else none
  | _ => none

/-- Tells apart what can be compared exactly. -/
def compareFine (a b : Json) : Ordering :=
  match a.signed?, b.signed? with
  | some x, some y => compare x y
  | _, _ => .eq

theorem signed?_eq_some {x : Int} (h : a.signed? = some x) :
    ∃ n : WordInt, a = .number (.int n) ∧ n.IsSigned ∧ n.val = x := by
  unfold signed? at h
  split at h
  case h_1 n =>
    split at h
    case isTrue hn => exact ⟨n, rfl, hn, Option.some.inj h⟩
    case isFalse => cases h
  case h_2 => cases h

theorem signed?_of_isSigned {n : WordInt} (h : n.IsSigned) :
    (Json.number (.int n)).signed? = some n.val := if_pos h

theorem compareFine_signed {x y : WordInt} (hx : x.IsSigned) (hy : y.IsSigned) :
    compareFine (.number (.int x)) (.number (.int y)) = compare x.val y.val := by
  simp [compareFine, signed?_of_isSigned hx, signed?_of_isSigned hy]

theorem compareRough_eq_eq : compareRough a b = .eq ↔
    a.kindRank = b.kindRank ∧ a.roughInt = b.roughInt ∧ a.roughText = b.roughText := by
  simp [compareRough, compareLex, compareOn]

theorem compareRough_numbers (m n : Number) : compareRough (.number m) (.number n) =
    compare m.toDouble.rank n.toDouble.rank := by
  have hparts : compareRough (.number m) (.number n) =
      (compare m.toDouble.rank n.toDouble.rank).then .eq := rfl
  rw [hparts]
  cases compare m.toDouble.rank n.toDouble.rank <;> rfl

/-- A comparison that keeps an order comes first without changing it. -/
theorem compare_eq_then {x y r r' : Int} (hle : x ≤ y → r ≤ r') (hge : y ≤ x → r' ≤ r) :
    compare x y = (compare r r').then (compare x y) := by
  rcases Int.lt_trichotomy x y with hlt | rfl | hgt
  · rw [Int.compare_eq_lt.2 hlt]
    rcases Int.lt_or_eq_of_le (hle (Int.le_of_lt hlt)) with h | h
    · simp [Int.compare_eq_lt.2 h]
    · simp [h]
  · simp [Int.le_antisymm (hle (Int.le_refl _)) (hge (Int.le_refl _))]
  · rw [Int.compare_eq_gt.2 hgt]
    rcases Int.lt_or_eq_of_le (hge (Int.le_of_lt hgt)) with h | h
    · simp [Int.compare_eq_gt.2 h]
    · simp [h]

/-- Of two numbers the nearest doubles decide, and if these are level, the integers. -/
theorem compare_numbers (m n : Number) : m.compare n =
    (compareRough (.number m) (.number n)).then (compareFine (.number m) (.number n)) := by
  rw [compareRough_numbers]
  cases m with
  | double x => simp [Number.compare, compareFine, signed?]
  | int x =>
    cases n with
    | double y => simp [Number.compare, compareFine, signed?]
    | int y =>
      -- two signed words compare exactly, and rounding never turns their order around
      by_cases hsigned : x.IsSigned ∧ y.IsSigned
      case neg =>
        have hfine : compareFine (.number (.int x)) (.number (.int y)) = .eq := by
          rcases not_and_or.1 hsigned with hx | hy
          · simp [compareFine, signed?, hx]
          · simp [compareFine, signed?, hy]
        simp [Number.compare, hsigned, hfine]
      case pos =>
        have hexact : Number.compare (.int x) (.int y) = compare x.val y.val := if_pos hsigned
        rw [hexact, compareFine_signed hsigned.1 hsigned.2]
        exact compare_eq_then Double.rank_ofWordInt_mono Double.rank_ofWordInt_mono

theorem compareFine_of_kindRank_ne (h : a.kindRank ≠ 2) : compareFine a b = .eq := by
  cases a <;> simp [kindRank] at h <;> rfl

/-- The rough comparison decides, and where it is level, the fine one. -/
theorem compareValues_eq (a b : Json) :
    compareValues a b = (compareRough a b).then (compareFine a b) := by
  -- the fine comparison tells nothing but numbers apart
  have hothers : ∀ {a b : Json}, a.kindRank ≠ 2 →
      compareValues a b = compareRough a b →
      compareValues a b = (compareRough a b).then (compareFine a b) := by
    intro a b hkind hrough
    rw [compareFine_of_kindRank_ne hkind, Ordering.then_eq, hrough]
  cases a with
  | number m =>
    cases b with
    | number n => exact compare_numbers m n
    | _ => rfl
  | null => cases b <;> exact hothers (by simp [kindRank]) rfl
  | bool x =>
    cases b with
    | bool y => cases x <;> cases y <;> rfl
    | _ => exact hothers (by simp [kindRank]) rfl
  | string s =>
    cases b with
    | string t => exact hothers (by simp [kindRank]) rfl
    | _ => exact hothers (by simp [kindRank]) rfl
  | array items => cases b <;> exact hothers (by simp [kindRank]) rfl
  | object fields => cases b <;> exact hothers (by simp [kindRank]) rfl

theorem compareFine_swap (a b : Json) : compareFine b a = (compareFine a b).swap := by
  unfold compareFine
  cases a.signed? <;> cases b.signed? <;> simp [Int.compare_swap]

theorem compareValues_self (a : Json) : compareValues a a = .eq := by
  have hrough : compareRough a a = .eq := Std.ReflCmp.compare_self
  rw [compareValues_eq, hrough, Ordering.eq_then]
  unfold compareFine
  cases a.signed? <;> simp

theorem compareValues_swap (a b : Json) : compareValues b a = (compareValues a b).swap := by
  have hrough : compareRough b a = (compareRough a b).swap := Std.OrientedCmp.eq_swap
  rw [compareValues_eq b a, compareValues_eq a b, Ordering.swap_then, compareFine_swap a b, hrough]

/-! ## Where transitivity fails -/

/-- The outer values are integers of a signed word, the first one the greater, and between them
stands a number that is compared with them as a double and is level with both. -/
inductive Blurs : Json → Json → Json → Prop where
  | between {x y : WordInt} {m : Number} (hx : x.IsSigned) (hy : y.IsSigned)
      (hlt : y.val < x.val) (hm : ∀ z, m = .int z → ¬ z.IsSigned)
      (hfirst : (Number.int x).toDouble.rank = m.toDouble.rank)
      (hlast : m.toDouble.rank = (Number.int y).toDouble.rank) :
      Blurs (.number (.int x)) (.number m) (.number (.int y))

theorem arranges_rough : Arranges (fun _ => True) compareRough :=
  ⟨fun _ _ => Std.OrientedCmp.eq_swap, fun _ _ _ => Std.TransCmp.isLE_trans⟩

theorem compareFine_eq_gt (h : compareFine a b = .gt) : ∃ x y : WordInt,
    a = .number (.int x) ∧ b = .number (.int y) ∧ x.IsSigned ∧ y.IsSigned ∧ y.val < x.val := by
  unfold compareFine at h
  split at h
  case h_1 hx hy =>
    rcases signed?_eq_some hx with ⟨x, rfl, hx', rfl⟩
    rcases signed?_eq_some hy with ⟨y, rfl, hy', rfl⟩
    exact ⟨x, y, rfl, rfl, hx', hy', Int.compare_eq_gt.1 h⟩
  case h_2 => cases h

theorem Blurs.broken (h : Blurs a b c) : compareValues a b = .eq ∧ compareValues b c = .eq ∧
    compareValues a c = .gt := by
  cases h with
  | @between x y m hx hy hlt hm hfirst hlast =>
    have hunsigned : (Json.number m).signed? = none := by
      cases m with
      | double _ => rfl
      | int z => exact if_neg (hm z rfl)
    refine ⟨?_, ?_, ?_⟩
    · simp [compareValues_eq, compareRough_numbers, compareFine, hunsigned, hfirst]
    · simp [compareValues_eq, compareRough_numbers, compareFine, hunsigned, hlast]
    · simp [compareValues_eq, compareRough_numbers, compareFine_signed hx hy, hfirst.trans hlast,
        Int.compare_eq_gt.2 hlt]

/-- Comparing is transitive but for blurred triples. -/
theorem isLE_trans_or_blurs (hab : (compareValues a b).isLE = true)
    (hbc : (compareValues b c).isLE = true) :
    (compareValues a c).isLE = true ∨ Blurs a b c := by
  rw [compareValues_eq, Ordering.isLE_then_iff_and] at hab hbc
  have hrough : (compareRough a c).isLE = true := Std.TransCmp.isLE_trans hab.1 hbc.1
  rcases hac : compareValues a c with _ | _ | _
  case lt => exact Or.inl rfl
  case eq => exact Or.inl rfl
  case gt =>
    rw [compareValues_eq, Ordering.then_eq_gt] at hac
    rcases hac with hgt | ⟨hends, hgt⟩
    · simp [hgt] at hrough
    · -- the ends are level as doubles, so what stands between them is
      rcases arranges_rough.eq_of_eq trivial trivial trivial hab.1 hbc.1 hends with
        ⟨hfirst, hlast⟩
      rcases compareFine_eq_gt hgt with ⟨x, y, rfl, rfl, hx, hy, hlt⟩
      have hkind : 2 = b.kindRank := (compareRough_eq_eq.1 hfirst).1
      cases b with
      | number m =>
        refine Or.inr (.between hx hy hlt ?_ (compareRough_eq_eq.1 hfirst).2.1
          (compareRough_eq_eq.1 hlast).2.1)
        -- a signed integer between them would be compared exactly
        rintro z rfl hz
        have hxz : x.val ≤ z.val := by
          simpa [hfirst, compareFine_signed hx hz, Int.isLE_compare] using hab.2
        have hzy : z.val ≤ y.val := by
          simpa [hlast, compareFine_signed hz hy, Int.isLE_compare] using hbc.2
        omega
      | _ => simp [kindRank] at hkind

end Json

/-! ## Integers -/

/-- The integers are compared exactly, or they are one, or rounding keeps them apart. -/
def WordInt.ToldApart (m n : WordInt) : Prop :=
  (m.IsSigned ∧ n.IsSigned) ∨ m = n ∨
    (Number.int m).toDouble.rank ≠ (Number.int n).toDouble.rank

/-- Integers compare as they should exactly if they are told apart. -/
theorem Json.compareValues_int_iff (m n : WordInt) :
    (Json.int m).compareValues (.int n) = compare m.val n.val ↔ m.ToldApart n := by
  have hvalues : (Json.int m).compareValues (.int n) = Number.compare (.int m) (.int n) := rfl
  rw [hvalues]
  by_cases hsigned : m.IsSigned ∧ n.IsSigned
  · exact iff_of_true (if_pos hsigned) (Or.inl hsigned)
  · have hrounded : Number.compare (.int m) (.int n) =
        compare (Number.int m).toDouble.rank (Number.int n).toDouble.rank := if_neg hsigned
    have hthen : compare m.val n.val =
        (compare (Number.int m).toDouble.rank (Number.int n).toDouble.rank).then
          (compare m.val n.val) :=
      Json.compare_eq_then Double.rank_ofWordInt_mono Double.rank_ofWordInt_mono
    rw [hrounded]
    constructor
    · intro heq
      by_cases hranks : (Number.int m).toDouble.rank = (Number.int n).toDouble.rank
      · rw [hranks, compare_eq_iff_eq.2 rfl] at heq
        exact Or.inr (Or.inl (WordInt.ext (compare_eq_iff_eq.1 heq.symm)))
      · exact Or.inr (Or.inr hranks)
    · rintro (hboth | rfl | hranks)
      · exact absurd hboth hsigned
      · simp
      · rw [hthen]
        cases hcmp : compare (Number.int m).toDouble.rank (Number.int n).toDouble.rank with
        | eq => exact absurd (compare_eq_iff_eq.1 hcmp) hranks
        | _ => rfl

/-! ## Payloads -/

theorem Arranges.eq_trans {α : Type} {P : α → Prop} {cmp : α → α → Ordering} (h : Arranges P cmp)
    {a b c : α} (ha : P a) (hb : P b) (hc : P c) (hab : cmp a b = .eq) (hbc : cmp b c = .eq) :
    cmp a c = .eq := by
  have hac : (cmp a c).isLE = true := h.trans ha hb hc (by simp [hab]) (by simp [hbc])
  have hca : (cmp c a).isLE = true :=
    h.trans hc hb ha (by simp [h.swap hb hc, hbc]) (by simp [h.swap ha hb, hab])
  rw [h.swap ha hc] at hca
  cases hcmp : cmp a c <;> simp_all

namespace SortTerm

variable {terms : List SortTerm} {P : Json → Prop}

/-- No three payloads of the set have values under the key that blur. -/
def Clear (key : String) (P : Json → Prop) : Prop :=
  ∀ a b c, P a → P b → P c → ¬ Json.Blurs (a.valueAt key) (b.valueAt key) (c.valueAt key)

theorem arranges_valueAt_iff (key : String) :
    Arranges P (fun a b => (a.valueAt key).compareValues (b.valueAt key)) ↔ Clear key P := by
  constructor
  · intro harranges a b c ha hb hc hblurs
    rcases hblurs.broken with ⟨hab, hbc, hac⟩
    have hle := harranges.trans ha hb hc (by simp [hab]) (by simp [hbc])
    simp [hac] at hle
  · intro hclear
    constructor
    case swap => exact fun _ _ => Json.compareValues_swap _ _
    case trans =>
      intro a b c ha hb hc hab hbc
      exact (Json.isLE_trans_or_blurs hab hbc).resolve_right (hclear a b c ha hb hc)

theorem arranges_term_iff (term : SortTerm) :
    Arranges P term.comparePayloads ↔ Clear term.key P := by
  rw [← arranges_valueAt_iff]
  rcases term with ⟨key, ascending⟩
  cases ascending with
  | true => exact Iff.rfl
  | false =>
    constructor
    · intro harranges
      simpa [comparePayloads] using harranges.opposite
    · exact Arranges.opposite

theorem compareBy_self (terms : List SortTerm) (a : Json) : compareBy terms a a = .eq := by
  induction terms with
  | nil => rfl
  | cons term rest ih => simp [compareBy, comparePayloads, Json.compareValues_self, ih]

theorem compareBy_swap (terms : List SortTerm) (a b : Json) :
    compareBy terms b a = (compareBy terms a b).swap := by
  induction terms with
  | nil => rfl
  | cons term rest ih =>
    have hterm : term.comparePayloads b a = (term.comparePayloads a b).swap := by
      have hvalues := Json.compareValues_swap (a.valueAt term.key) (b.valueAt term.key)
      cases hascending : term.ascending <;> simp [comparePayloads, hascending, hvalues]
    rw [compareBy, compareBy, Ordering.swap_then, hterm, ih]

theorem arranges_compareBy_of_clear (hclear : ∀ term ∈ terms, Clear term.key P) :
    Arranges P (compareBy terms) := by
  induction terms with
  | nil => exact ⟨fun _ _ => rfl, fun _ _ _ _ _ => rfl⟩
  | cons term rest ih =>
    rcases List.forall_mem_cons.1 hclear with ⟨hfirst, hrest⟩
    exact ((arranges_term_iff term).2 hfirst).thenBy (ih hrest)

/-- Payloads that hold integers under the key, no two of which rounding makes one. -/
structure IntegersApart (key : String) (P : Json → Prop) : Prop where
  integer : ∀ a, P a → ∃ n, a.valueAt key = .int n
  apart : ∀ a b m n, P a → P b → a.valueAt key = .int m → b.valueAt key = .int n → m.ToldApart n

theorem IntegersApart.clear {key : String} (h : IntegersApart key P) : Clear key P := by
  intro a b c ha hb hc hblurs
  rcases hblurs.broken with ⟨hab, _, hac⟩
  rcases h.integer a ha with ⟨x, hx⟩
  rcases h.integer b hb with ⟨m, hm⟩
  rcases h.integer c hc with ⟨y, hy⟩
  -- the first two would be one integer, and it compares with the last one as it should
  rw [hx, hm, (Json.compareValues_int_iff x m).2 (h.apart a b x m ha hb hx hm)] at hab
  obtain rfl : x = m := WordInt.ext (compare_eq_iff_eq.1 hab)
  rcases hblurs.broken with ⟨_, hbc, _⟩
  rw [hm, hy] at hbc
  rw [hx, hy, hbc] at hac
  cases hac

/-- The order that a term asks for among integers. -/
def InOrder (ascending : Bool) (m n : WordInt) : Prop :=
  if ascending then m.val ≤ n.val else n.val ≤ m.val

/-- A term compares integers as it should exactly if they are told apart. -/
theorem comparePayloads_int_iff {a b : Json} {key : String} {m n : WordInt} (ascending : Bool)
    (ha : a.valueAt key = .int m) (hb : b.valueAt key = .int n) :
    comparePayloads ⟨key, ascending⟩ a b =
      (if ascending then compare m.val n.val else compare n.val m.val) ↔ m.ToldApart n := by
  rw [← Json.compareValues_int_iff, comparePayloads, ha, hb]
  cases ascending with
  | true => exact Iff.rfl
  | false =>
    have hswap : compare n.val m.val = (compare m.val n.val).swap := (Int.compare_swap m.val n.val).symm
    simp [hswap, Ordering.swap_inj]

theorem IntegersApart.inOrder {key : String} {ascending : Bool} {a b : Json}
    (h : IntegersApart key P) (ha : P a) (hb : P b)
    (hle : (compareBy [⟨key, ascending⟩] a b).isLE = true) :
    ∃ m n, a.valueAt key = .int m ∧ b.valueAt key = .int n ∧ InOrder ascending m n := by
  rcases h.integer a ha with ⟨m, hm⟩
  rcases h.integer b hb with ⟨n, hn⟩
  have hterm := (comparePayloads_int_iff ascending hm hn).2 (h.apart a b m n ha hb hm hn)
  refine ⟨m, n, hm, hn, ?_⟩
  rw [compareBy, compareBy, Ordering.then_eq, hterm] at hle
  unfold InOrder
  cases ascending <;> simpa [Int.isLE_compare] using hle

/-- Comparing payloads is reflexive and gives the opposite answer the other way round.  It is a
total preorder, and being level transitive, on every set of payloads of which no three blur under a
key; and a single term is one on no other set. -/
theorem compareBy_preorder (terms : List SortTerm) :
    (∀ a, compareBy terms a a = .eq) ∧
    (∀ a b, compareBy terms b a = (compareBy terms a b).swap) ∧
    (∀ P : Json → Prop, (∀ term ∈ terms, Clear term.key P) →
      (∀ a b c, P a → P b → P c → (compareBy terms a b).isLE = true →
        (compareBy terms b c).isLE = true → (compareBy terms a c).isLE = true) ∧
      ∀ a b c, P a → P b → P c → compareBy terms a b = .eq → compareBy terms b c = .eq →
        compareBy terms a c = .eq) ∧
    ∀ term ∈ terms, ∀ P, Arranges P term.comparePayloads ↔ Clear term.key P := by
  refine ⟨compareBy_self terms, compareBy_swap terms, ?_, fun term _ P => arranges_term_iff term⟩
  intro P hclear
  have harranges := arranges_compareBy_of_clear hclear
  exact ⟨fun a b c => harranges.trans, fun a b c => harranges.eq_trans⟩

section Counted

/-- A payload that counts something. -/
def counted (n : UInt64) : Json := .ofFields [("n", .ofUInt64 n)]

/-- A count that no signed word holds is told from the small ones. -/
theorem compareBy_preorder_counted :
    Clear "n" (fun payload => payload = counted 1 ∨ payload = counted 9223372036854775808) ∧
    ∀ a b c, a = counted 1 ∨ a = counted 9223372036854775808 →
      b = counted 1 ∨ b = counted 9223372036854775808 →
      c = counted 1 ∨ c = counted 9223372036854775808 →
      (compareBy [⟨"n", true⟩] a b).isLE = true → (compareBy [⟨"n", true⟩] b c).isLE = true →
      (compareBy [⟨"n", true⟩] a c).isLE = true := by
  have hclear : Clear "n"
      (fun payload => payload = counted 1 ∨ payload = counted 9223372036854775808) := by
    rintro a b c (rfl | rfl) (rfl | rfl) (rfl | rfl) hblurs <;>
      exact absurd hblurs.broken (by decide +kernel)
  refine ⟨hclear, ?_⟩
  exact ((compareBy_preorder [⟨"n", true⟩]).2.2.1 _ (by simpa using hclear)).1

/-- The least count that no signed word holds is level with the two before it, which are not level:
comparing is not transitive, and no more is being level. -/
theorem compareBy_not_transitive :
    ¬ (∀ (terms : List SortTerm) (a b c : Json), (compareBy terms a b).isLE = true →
      (compareBy terms b c).isLE = true → (compareBy terms a c).isLE = true) ∧
    ¬ ∀ (terms : List SortTerm) (a b c : Json), compareBy terms a b = .eq →
      compareBy terms b c = .eq → compareBy terms a c = .eq := by
  have hfirst : compareBy [⟨"n", true⟩] (counted 9223372036854775807)
      (counted 9223372036854775808) = .eq := by decide +kernel
  have hlast : compareBy [⟨"n", true⟩] (counted 9223372036854775808)
      (counted 9223372036854775806) = .eq := by decide +kernel
  have hends : compareBy [⟨"n", true⟩] (counted 9223372036854775807)
      (counted 9223372036854775806) = .gt := by decide +kernel
  constructor
  · intro htransitive
    have hle := htransitive _ _ _ _ (by rw [hfirst]; rfl) (by rw [hlast]; rfl)
    rw [hends] at hle
    cases hle
  · intro htransitive
    cases hends.symm.trans (htransitive _ _ _ _ hfirst hlast)

end Counted

end SortTerm

end Reconcile
