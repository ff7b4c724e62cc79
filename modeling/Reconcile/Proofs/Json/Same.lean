import Mathlib.Tactic.SplitIfs
import Reconcile.Proofs.Data.SortedMap
import Reconcile.Query.Basic

/-!
# Sameness of payloads

`Json.same` compares up to the sign of a zero.  Values are the same exactly when they have one
`Json.content`, the value with every zero positive, so sameness is an equivalence, and a filter that
accepts a payload accepts every payload that is the same.
-/

namespace Reconcile

namespace Double

/-- The double with a positive zero in place of a negative one. -/
def content (x : Double) : Double := if x.code = 0 then { x with negative := false } else x

theorem same_iff {x y : Double} : x.same y = true ↔ x.content = y.content := by
  rcases x with ⟨a, m, hm⟩
  rcases y with ⟨b, n, hn⟩
  unfold same content rank
  dsimp only
  cases a <;> cases b <;> split_ifs <;> simp_all <;> omega

end Double

namespace Number

def content : Number → Number
  | .int n => .int n
  | .double x => .double x.content

theorem same_iff {m n : Number} : m.same n = true ↔ m.content = n.content := by
  cases m <;> cases n <;> simp [same, content, Double.same_iff]

end Number

namespace Json

mutual

/-- The value with a positive zero in place of every negative one. -/
def content : Json → Json
  | .number n => .number n.content
  | .array items => .array (contentOfItems items)
  | .object fields => .object (contentOfFields fields)
  | j => j

def contentOfItems : List Json → List Json
  | [] => []
  | j :: rest => content j :: contentOfItems rest

def contentOfFields : List (String × Json) → List (String × Json)
  | [] => []
  | (key, j) :: rest => (key, content j) :: contentOfFields rest

end

mutual

theorem same_iff : ∀ {a b : Json}, a.same b = true ↔ a.content = b.content
  | .null, b => by cases b <;> simp [same, content]
  | .bool x, b => by cases b <;> simp [same, content]
  | .number m, b => by cases b <;> simp [same, content, Number.same_iff]
  | .string x, b => by cases b <;> simp [same, content]
  | .array items, b => by
    cases b with
    | array others => simpa [same, content] using sameItems_iff
    | _ => simp [same, content]
  | .object fields, b => by
    cases b with
    | object others => simpa [same, content] using sameFields_iff
    | _ => simp [same, content]

theorem sameItems_iff : ∀ {as bs : List Json},
    sameItems as bs = true ↔ contentOfItems as = contentOfItems bs
  | [], bs => by cases bs <;> simp [sameItems, contentOfItems]
  | a :: as, bs => by
    cases bs with
    | nil => simp [sameItems, contentOfItems]
    | cons b bs => simp [sameItems, contentOfItems, same_iff, sameItems_iff]

theorem sameFields_iff : ∀ {as bs : List (String × Json)},
    sameFields as bs = true ↔ contentOfFields as = contentOfFields bs
  | [], bs => by cases bs <;> simp [sameFields, contentOfFields]
  | (k, a) :: as, bs => by
    cases bs with
    | nil => simp [sameFields, contentOfFields]
    | cons b bs =>
      rcases b with ⟨l, b⟩
      simp [sameFields, contentOfFields, same_iff, sameFields_iff]

end

theorem same_refl (a : Json) : a.same a = true := same_iff.2 rfl

theorem same_symm {a b : Json} (h : a.same b = true) : b.same a = true :=
  same_iff.2 (same_iff.1 h).symm

theorem same_trans {a b c : Json} (hab : a.same b = true) (hbc : b.same c = true) :
    a.same c = true :=
  same_iff.2 ((same_iff.1 hab).trans (same_iff.1 hbc))

/-! ## Reading members -/

theorem find?_contentOfFields (key : String) (fields : List (String × Json)) :
    Entries.find? key (contentOfFields fields) = (Entries.find? key fields).map content := by
  induction fields with
  | nil => rfl
  | cons field rest ih =>
    rcases field with ⟨k, j⟩
    simp only [contentOfFields, Entries.find?]
    split
    · rfl
    · exact ih

theorem valueAt_content (key : String) (payload : Json) :
    (payload.content).valueAt key = (payload.valueAt key).content := by
  cases payload with
  | object fields =>
    simp only [content, valueAt, field?, find?_contentOfFields]
    cases Entries.find? key fields <;> rfl
  | _ => rfl

end Json

namespace Filter

mutual

theorem holds_congr {a b : Json} (h : a.same b = true) : ∀ f : Filter, f.holds a = f.holds b
  | .equals key value => by
    have hvalue : ((a.valueAt key).same value = true) ↔ ((b.valueAt key).same value = true) := by
      rw [Json.same_iff, Json.same_iff, ← Json.valueAt_content, ← Json.valueAt_content,
        Json.same_iff.1 h]
    rw [holds, holds]
    exact Bool.eq_iff_iff.2 hvalue
  | .all filters => by simpa only [holds] using holdsAll_congr h filters

theorem holdsAll_congr {a b : Json} (h : a.same b = true) :
    ∀ filters : List Filter, holdsAll a filters = holdsAll b filters
  | [] => rfl
  | f :: rest => by rw [holdsAll, holdsAll, holds_congr h f, holdsAll_congr h rest]

end

end Filter

theorem Query.accepts_congr {a b : Json} (h : a.same b = true) (q : Query) :
    q.accepts a = q.accepts b := by
  unfold accepts
  split
  · exact Filter.holds_congr h _
  · rfl

end Reconcile
