import Reconcile.Json.Printer
import Reconcile.Json.Decode
import Reconcile.Text.Blank

/-!
# Sorting by attributes

A sort term names an attribute and a direction; of several terms the first one that tells two
payloads apart decides.  Values of different kinds compare by kind, `null` first, then booleans,
numbers, strings, and last arrays and objects, which compare by their compact text.

`SortTerm.ofText` reads terms from a comma-separated list of attribute names, and `sortStable`
arranges a list and keeps equal elements in their order.
-/

namespace Reconcile

namespace Json

/-- The place of a value's kind in the order of kinds. -/
def kindRank : Json → Nat
  | .null => 0
  | .bool _ => 1
  | .number _ => 2
  | .string _ => 3
  | .array _ => 4
  | .object _ => 4

end Json

/-- Two integers of a signed word compare exactly, all other pairs as doubles. -/
def Number.compare (m n : Number) : Ordering :=
  match m, n with
  | .int a, .int b =>
    if a.IsSigned ∧ b.IsSigned then Ord.compare a.val b.val
    else Ord.compare m.toDouble.rank n.toDouble.rank
  | _, _ => Ord.compare m.toDouble.rank n.toDouble.rank

namespace Json

/-- The order of attribute values. -/
def compareValues : Json → Json → Ordering
  | .bool a, .bool b => compare a b
  | .number m, .number n => m.compare n
  | .string s, .string t => compare s t
  | a, b =>
    if a.kindRank = b.kindRank ∧ 4 ≤ a.kindRank then compare a.compact b.compact
    else compare a.kindRank b.kindRank

end Json

structure SortTerm where
  key : String
  ascending : Bool
  deriving DecidableEq

namespace SortTerm

/-- Compares two payloads on the attribute of the term. -/
def comparePayloads (term : SortTerm) (a b : Json) : Ordering :=
  let o := (a.valueAt term.key).compareValues (b.valueAt term.key)
  if term.ascending then o else o.swap

/-- The first term that tells the payloads apart decides. -/
def compareBy (terms : List SortTerm) (a b : Json) : Ordering :=
  match terms with
  | [] => .eq
  | term :: rest => (term.comparePayloads a b).then (compareBy rest a b)

/-- Terms of one direction from a comma-separated list of names; blanks around a name do not
count, and empty names are left out. -/
def ofText (text : String) (ascending : Bool) : List SortTerm :=
  let names := (Text.segments ',' text.toList).map Text.trimBlanks
  (names.filter (!·.isEmpty)).map fun name => ⟨String.ofList name, ascending⟩

def toJson (term : SortTerm) : Json :=
  .ofFields [("key", .string term.key), ("ascending", .bool term.ascending)]

def ofJson? (j : Json) : Option SortTerm := do
  let [some key, some ascending] ← j.members? ["key", "ascending"] | none
  return ⟨← key.string?, ← ascending.bool?⟩

end SortTerm

/-! ## Stable sorting -/

/-- Puts an element into a list that decreases, before the first element that it is not below. -/
def insertDescending {α : Type} (cmp : α → α → Ordering) (a : α) : List α → List α
  | [] => [a]
  | b :: rest => if cmp a b = .lt then b :: insertDescending cmp a rest else a :: b :: rest

/-- Sorts by `cmp` and keeps the order of elements that compare equal: each element in turn goes
as far to the front of the sorted part as it is below the elements there. -/
def sortStable {α : Type} (cmp : α → α → Ordering) (as : List α) : List α :=
  (as.foldl (fun sorted a => insertDescending cmp a sorted) []).reverse

end Reconcile
