import Reconcile.Model

/-!
# Relationship fields

`ToOne` is a reference to one entity, `MemberSet` and `MemberList` refer to many.  All three are
written as ids.  A member made from a handle is *bound* to it.  A member read from a payload has
only its id, and is bound when it is first looked up; the field remembers for this the context it
was read in (`source`).

A set keeps its members in id order, one per id.  A list keeps every position.
-/

namespace Reconcile

/-- A member of a relationship, with the handle it is bound to. -/
structure Member {K : Type} (kind : K) where
  id : EntityId
  bound : Option (Handle kind)
  deriving DecidableEq

namespace Member

variable {K : Type} {k : K}

def ofHandle (h : Handle k) : Member k := ⟨h.id, some h⟩

def unbound (id : EntityId) : Member k := ⟨id, none⟩

end Member

/-- A relationship to one entity. -/
structure ToOne {K : Type} (kind : K) where
  member : Member kind
  source : Option ContextId
  deriving DecidableEq

namespace ToOne

variable {K : Type} {k : K}

def ofHandle (h : Handle k) : ToOne k := ⟨.ofHandle h, none⟩

def id (r : ToOne k) : EntityId := r.member.id

/-- The reference after an entity was looked for: it points at the one found, and stays as it is
if none was. -/
def pointTo (field : Option (ToOne k)) (found : Option (Handle k)) : Option (ToOne k) :=
  match found with
  | some h => some (.ofHandle h)
  | none => field

def toJson (r : ToOne k) : Json := r.id.toJson

def ofJson? (source : Option ContextId) (j : Json) : Option (ToOne k) := do
  return ⟨.unbound (← EntityId.ofJson? j), source⟩

end ToOne

/-- A relationship to many entities, each of them once. -/
structure MemberSet {K : Type} (kind : K) where
  /-- The ids of the members and what each is bound to. -/
  bindings : SortedMap EntityId (Option (Handle kind))
  source : Option ContextId

namespace MemberSet

variable {K : Type} {k : K}

def empty : MemberSet k := ⟨.empty, none⟩

instance : Inhabited (MemberSet k) := ⟨empty⟩

/-- In id order. -/
def members (s : MemberSet k) : List (Member k) := s.bindings.toList.map fun e => ⟨e.1, e.2⟩

/-- In increasing order. -/
def ids (s : MemberSet k) : List EntityId := s.bindings.keys

def size (s : MemberSet k) : Nat := s.bindings.size

def isEmpty (s : MemberSet k) : Bool := s.bindings.isEmpty

def contains (s : MemberSet k) (h : Handle k) : Bool := s.bindings.contains h.id

/-- Adds a member and says whether it is new.  A member of the same id stays as it is. -/
def insert (s : MemberSet k) (h : Handle k) : Bool × MemberSet k :=
  if s.contains h then (false, s)
  else (true, { s with bindings := s.bindings.insert h.id (some h) })

/-- Takes a member out and says whether it was there. -/
def erase (s : MemberSet k) (h : Handle k) : Bool × MemberSet k :=
  (s.contains h, { s with bindings := s.bindings.erase h.id })

/-- Of two handles with one id the first one stays. -/
def ofHandles (hs : List (Handle k)) : MemberSet k :=
  hs.foldl (fun s h => (s.insert h).2) empty

def toJson (s : MemberSet k) : Json := .array (s.ids.map EntityId.toJson)

def ofJson? (source : Option ContextId) (j : Json) : Option (MemberSet k) := do
  let ids ← j.listOf? EntityId.ofJson?
  return ⟨.ofList (ids.map fun id => (id, none)), source⟩

end MemberSet

/-- A relationship to many entities in an order, with repetitions. -/
structure MemberList {K : Type} (kind : K) where
  members : List (Member kind)
  source : Option ContextId

namespace MemberList

variable {K : Type} {k : K}

def empty : MemberList k := ⟨[], none⟩

instance : Inhabited (MemberList k) := ⟨empty⟩

def ids (l : MemberList k) : List EntityId := l.members.map Member.id

/-- The number of positions. -/
def length (l : MemberList k) : Nat := l.members.length

def isEmpty (l : MemberList k) : Bool := l.members.isEmpty

def contains (l : MemberList k) (h : Handle k) : Bool := l.members.any fun m => m.id = h.id

/-- Adds a member at the end. -/
def push (l : MemberList k) (h : Handle k) : MemberList k :=
  { l with members := l.members ++ [.ofHandle h] }

def ofHandles (hs : List (Handle k)) : MemberList k := ⟨hs.map .ofHandle, none⟩

def toJson (l : MemberList k) : Json := .array (l.ids.map EntityId.toJson)

def ofJson? (source : Option ContextId) (j : Json) : Option (MemberList k) := do
  let ids ← j.listOf? EntityId.ofJson?
  return ⟨ids.map .unbound, source⟩

end MemberList

/-! ## What sets and lists have in common -/

/-- A relationship to many entities, seen as its members in order. -/
class ToMany {K : Type} (R : K → Type) where
  members {k : K} : R k → List (Member k)
  /-- The context the field was read in. -/
  source {k : K} : R k → Option ContextId
  /-- The field with members of the same ids in the same order, bound in another way. -/
  withMembers {k : K} : R k → List (Member k) → R k

instance {K : Type} : ToMany (K := K) MemberSet where
  members := MemberSet.members
  source := MemberSet.source
  -- the ids are the same, so none of the later entries displaces another
  withMembers s ms := { s with bindings := .ofList (ms.map fun m => (m.id, m.bound)) }

instance {K : Type} : ToMany (K := K) MemberList where
  members := MemberList.members
  source := MemberList.source
  withMembers l ms := { l with members := ms }

end Reconcile
