import Reconcile.Relation.Basic
import Reconcile.Session.Fetch

/-!
# Binding the members of relationships

Looking up a member that is not bound yet finds its entity by id, in the context the field was
read in (`bind`) or in a given one (`bindIn`), and binds the member to it.  A member that is bound
stays bound to the same entity.  One whose entity cannot be found is reported and passed over.

Every function here returns its answer with the field as the lookup left it.
-/

namespace Reconcile

variable {T : Model} {k : T.Kind}

namespace Member

def bindIn (scope : Scope) (m : Member k) : Work T (Option (Handle k) × Member k) := do
  match m.bound with
  | some h => return (some h, m)
  | none =>
    match ← (scope.locate k m.id).outcome with
    | .ok h => return (some h, { m with bound := some h })
    | .error fault =>
      modify (·.report (.bindFailed m.id fault))
      return (none, m)

def bind (source : Option ContextId) (m : Member k) : Work T (Option (Handle k) × Member k) := do
  match m.bound with
  | some h => return (some h, m)
  | none =>
    -- a context that was closed cannot find members any more
    match source.filter (← get).isOpen with
    | some c => m.bindIn (.within c)
    | none =>
      modify (·.report (.memberAdrift m.id))
      return (none, m)

/-- Binds the members in order. -/
def bindAll (source : Option ContextId) :
    List (Member k) → Work T (List (Handle k) × List (Member k))
  | [] => return ([], [])
  | m :: rest => do
    let (found, m) ← m.bind source
    let (others, rest) ← bindAll source rest
    return (found.toList ++ others, m :: rest)

/-- Binds the first member of each id, in order; ids in `seen` are passed over. -/
def bindDistinctIn (scope : Scope) (seen : List EntityId) :
    List (Member k) → Work T (List (Handle k) × List (Member k))
  | [] => return ([], [])
  | m :: rest => do
    -- the first member of an id decides, even if it cannot be bound
    if m.id ∈ seen then
      let (others, rest) ← bindDistinctIn scope seen rest
      return (others, m :: rest)
    else
      let (found, m') ← m.bindIn scope
      let (others, rest) ← bindDistinctIn scope (m.id :: seen) rest
      return (found.toList ++ others, m' :: rest)

end Member

namespace Handle

/-- The first handle of each id; ids in `seen` are left out. -/
def distinct (seen : List EntityId) : List (Handle k) → List (Handle k)
  | [] => []
  | h :: rest => if h.id ∈ seen then distinct seen rest else h :: distinct (h.id :: seen) rest

end Handle

namespace ToOne

/-- The entity referred to, found in the context the field was read in. -/
def target (r : ToOne k) : Work T (Option (Handle k) × ToOne k) := do
  let (found, m) ← r.member.bind r.source
  return (found, { r with member := m })

/-- The entity referred to, found in the given context. -/
def resolveIn (scope : Scope) (r : ToOne k) : Work T (Option (Handle k) × ToOne k) := do
  let (found, m) ← r.member.bindIn scope
  return (found, { r with member := m })

end ToOne

namespace ToMany

variable {R : T.Kind → Type} [ToMany R]

/-- The members in order, found in the context the field was read in. -/
def handles (r : R k) : Work T (List (Handle k) × R k) := do
  let (found, ms) ← Member.bindAll (source r) (members r)
  return (found, withMembers r ms)

/-- The members in order, each entity once. -/
def distinctHandles (r : R k) : Work T (List (Handle k) × R k) := do
  let (found, r) ← handles r
  return (Handle.distinct [] found, r)

/-- The members in order, each id once, found in the given context. -/
def resolveIn (scope : Scope) (r : R k) : Work T (List (Handle k) × R k) := do
  let (found, ms) ← Member.bindDistinctIn scope [] (members r)
  return (found, withMembers r ms)

end ToMany

/-- The member at a position of a list, found in the context the field was read in. -/
def MemberList.handleAt (l : MemberList k) (i : Nat) :
    Work T (Option (Handle k) × MemberList k) := do
  match l.members[i]? with
  | none => return (none, l)
  | some m =>
    let (found, m) ← m.bind l.source
    return (found, { l with members := l.members.set i m })

end Reconcile
