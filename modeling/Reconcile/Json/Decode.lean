import Reconcile.Json.Basic

/-!
# Reading typed values from JSON

Small readers that answer `none` when a value does not have the expected shape.  A structure is
read from an object, whose further members are ignored, or from an array of its fields in
declaration order (`Json.members?`, `Json.leadingMembers?`).
-/

namespace Reconcile.Json

def string? : Json → Option String
  | .string s => some s
  | _ => none

def bool? : Json → Option Bool
  | .bool b => some b
  | _ => none

def wordInt? : Json → Option WordInt
  | .number (.int n) => some n
  | _ => none

def uint64? (j : Json) : Option UInt64 := j.wordInt?.bind WordInt.toUInt64?

def uint32? (j : Json) : Option UInt32 := j.wordInt?.bind WordInt.toUInt32?

def int64? (j : Json) : Option Int64 := j.wordInt?.bind WordInt.toInt64?

def items? : Json → Option (List Json)
  | .array items => some items
  | _ => none

/-- The values of the named fields of a structure, with `none` for one that is missing.  An array
may leave out as many fields at its end as are `spare`. -/
def leadingMembers? (spare : Nat) (names : List String) : Json → Option (List (Option Json))
  | .object fields => some (names.map fun name => Entries.find? name fields)
  | .array items =>
    let left := names.length - items.length
    if items.length ≤ names.length ∧ left ≤ spare then
      some (items.map some ++ List.replicate left none)
    else none
  | _ => none

/-- The values of the named fields of a structure, with `none` for one that is missing.  In an
array every field is there. -/
def members? (names : List String) (j : Json) : Option (List (Option Json)) :=
  j.leadingMembers? 0 names

/-- What a structure holds is smaller than the structure. -/
theorem sizeOf_of_mem_leadingMembers? {spare : Nat} {names : List String} {j v : Json}
    {values : List (Option Json)} (h : j.leadingMembers? spare names = some values)
    (hv : some v ∈ values) : sizeOf v < sizeOf j := by
  cases j with
  | object fields =>
    simp only [leadingMembers?, Option.some.injEq] at h
    subst h
    obtain ⟨name, -, hname⟩ := List.mem_map.1 hv
    have := Entries.sizeOf_find? hname
    simp only [object.sizeOf_spec]
    omega
  | array items =>
    simp only [leadingMembers?] at h
    split at h
    · simp only [Option.some.injEq] at h
      subst h
      have hmem : v ∈ items := by simpa [List.mem_replicate] using hv
      have := List.sizeOf_lt_of_mem hmem
      simp only [array.sizeOf_spec]
      omega
    · simp at h
  | _ => simp [leadingMembers?] at h

/-- A list, each item read by `read`. -/
def listOf? {α : Type} (read : Json → Option α) (j : Json) : Option (List α) := do
  let items ← j.items?
  items.mapM read

/-- A field that may be absent: a missing member and `null` both mean `none`. -/
def optional? {α : Type} (read : Json → Option α) : Option Json → Option (Option α)
  | none => some none
  | some .null => some none
  | some j => (read j).map some

end Reconcile.Json
