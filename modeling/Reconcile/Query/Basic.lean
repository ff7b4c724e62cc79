import Reconcile.Query.Filter
import Reconcile.Query.Order

/-!
# Queries

A query asks for the entities of one type that pass a filter, in creation order or sorted.
-/

namespace Reconcile

structure Query where
  entity : String
  filter : Option Filter
  order : List SortTerm

namespace Query

/-- Every entity of a type, in creation order. -/
def all (entity : String) : Query := ⟨entity, none, []⟩

/-- The entities of a type that pass a filter, in creation order. -/
def matching (entity : String) (filter : Filter) : Query := ⟨entity, some filter, []⟩

/-- Every attribute that the query reads: those of the filter, then those of the order. -/
def keys (q : Query) : List String :=
  (match q.filter with
    | some f => f.keys
    | none => []) ++ q.order.map SortTerm.key

def accepts (q : Query) (payload : Json) : Bool :=
  match q.filter with
  | some f => f.holds payload
  | none => true

def toJson (q : Query) : Json :=
  .ofFields [("entity", .string q.entity), ("predicate", .ofOption Filter.toJson q.filter),
    ("sort", .array (q.order.map SortTerm.toJson))]

def ofJson? (j : Json) : Option Query := do
  let [some entity, filter, some order] ← j.members? ["entity", "predicate", "sort"] | none
  let filter ← Json.optional? (Filter.ofJson? false) filter
  return ⟨← entity.string?, filter, ← order.listOf? SortTerm.ofJson?⟩

end Query

/-- The attribute and the value that identify an entity. -/
structure NaturalKey where
  key : String
  value : Json

/-- The filter for the entities with this key. -/
def NaturalKey.filter (k : NaturalKey) : Filter := .equals k.key k.value

end Reconcile
