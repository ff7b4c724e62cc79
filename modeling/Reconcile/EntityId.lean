import Reconcile.Json.Decode

/-!
# Identity of entities

An entity is named by the entity type's name in the schema and a key that is unique in its store.
Keys are handed out in increasing order, so key order is creation order.
-/

namespace Reconcile

structure EntityId where
  entity : String
  key : UInt64
  deriving DecidableEq

namespace EntityId

/-- By entity name, then by key. -/
instance : Ord EntityId := ⟨compareLex (compareOn entity) (compareOn key)⟩

instance : Std.TransOrd EntityId :=
  inferInstanceAs (Std.TransCmp (compareLex (compareOn entity) (compareOn key)))

instance : Std.LawfulEqOrd EntityId where
  compare_self := Std.ReflCmp.compare_self
  eq_of_compare {a b} h := by
    have hlex : (compare a.entity b.entity).then (compare a.key b.key) = .eq := h
    have hparts := Ordering.then_eq_eq.1 hlex
    cases a
    cases b
    simp_all

instance : Inhabited EntityId := ⟨⟨"", 0⟩⟩

/-- The name and the key with a number sign between, such as `Tag#12`. -/
def text (id : EntityId) : String := id.entity ++ "#" ++ toString id.key.toNat

def toJson (id : EntityId) : Json :=
  .ofFields [("entity", .string id.entity), ("key", .ofUInt64 id.key)]

def ofJson? (j : Json) : Option EntityId := do
  let [some entity, some key] ← j.members? ["entity", "key"] | none
  return ⟨← entity.string?, ← key.uint64?⟩

end EntityId

/-- The number of a context, counted from one in the order of opening. -/
structure ContextId where
  number : Nat
  deriving DecidableEq

namespace ContextId

instance : Ord ContextId := ⟨compareOn number⟩

instance : Std.TransOrd ContextId := inferInstanceAs (Std.TransCmp (compareOn number))

instance : Std.LawfulEqOrd ContextId where
  compare_self := Std.ReflCmp.compare_self
  eq_of_compare {a b} h := by
    have hnumber : a.number = b.number := Std.LawfulEqOrd.eq_of_compare h
    cases a
    cases b
    simp_all

instance : Inhabited ContextId := ⟨⟨0⟩⟩

def text (c : ContextId) : String := "ctx-" ++ toString c.number

end ContextId

end Reconcile
