import Reconcile.Json.Decode

/-!
# Filters

Conditions on attribute payloads: one attribute equals a value, or several conditions hold at
once.  A missing attribute counts as `null`.
-/

namespace Reconcile

inductive Filter where
  /-- The attribute has this value. -/
  | equals (key : String) (value : Json)
  /-- All the conditions hold; the empty conjunction holds everywhere. -/
  | all (filters : List Filter)

namespace Filter

instance : Inhabited Filter := ⟨.all []⟩

mutual

/-- The attributes that the filter reads, from left to right. -/
def keys : Filter → List String
  | .equals key _ => [key]
  | .all filters => keysOfAll filters

def keysOfAll : List Filter → List String
  | [] => []
  | f :: rest => keys f ++ keysOfAll rest

end

mutual

def holds (payload : Json) : Filter → Bool
  | .equals key value => (payload.valueAt key).same value
  | .all filters => holdsAll payload filters

def holdsAll (payload : Json) : List Filter → Bool
  | [] => true
  | f :: rest => holds payload f && holdsAll payload rest

end

/-! ## JSON form -/

mutual

/-- Tagged by the member `type`. -/
def toJson : Filter → Json
  | .equals key value =>
    .ofFields [("type", .string "equals"), ("key", .string key), ("value", value)]
  | .all filters => .ofFields [("type", .string "and"), ("predicates", .array (toJsonAll filters))]

def toJsonAll : List Filter → List Json
  | [] => []
  | f :: rest => toJson f :: toJsonAll rest

end

inductive Tag where
  | equals
  | all

/-- A tag is a name; a filter inside a conjunction may also give its position. -/
def Tag.ofJson? (nested : Bool) : Json → Option Tag
  | .string "equals" => some .equals
  | .string "and" => some .all
  | .number (.int n) =>
    if nested ∧ n.val = 0 then some .equals
    else if nested ∧ n.val = 1 then some .all
    else none
  | _ => none

mutual

/-- Reads a filter from an object with a member `type`, or from an array of the tag and the
fields. -/
def ofJson? (nested : Bool) : Json → Option Filter
  | .object fields => do
    match ← Tag.ofJson? nested (← Entries.find? "type" fields) with
    | .equals =>
      let key ← Entries.find? "key" fields
      return .equals (← key.string?) (← Entries.find? "value" fields)
    | .all => return .all (← conjunctsOfField? fields)
  | .array (tag :: rest) => do
    match ← Tag.ofJson? nested tag, rest with
    | .equals, [key, value] => return .equals (← key.string?) value
    | .all, [filters] => return .all (← conjuncts? filters)
    | _, _ => none
  | _ => none

/-- The conjuncts in the first member `predicates`. -/
def conjunctsOfField? : List (String × Json) → Option (List Filter)
  | [] => none
  | (key, value) :: rest => if key = "predicates" then conjuncts? value else conjunctsOfField? rest

def conjuncts? : Json → Option (List Filter)
  | .array items => listOfJson? items
  | _ => none

def listOfJson? : List Json → Option (List Filter)
  | [] => some []
  | item :: rest => do
    let f ← ofJson? true item
    let rest ← listOfJson? rest
    return f :: rest

end

end Filter

end Reconcile
