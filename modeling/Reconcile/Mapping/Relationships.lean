import Reconcile.Mapping.Basic

/-!
# Filling relationships from plain values

A relationship is *synchronized* with plain values by reconciling each of them and taking the
entities found as members.  An *owned* relationship is *replaced*: the entities it has so far are
deleted first.

The building functions take the way to reconcile a value as an argument, because inside a fill
only lighter values may be reconciled.  The functions of a mapping (`Mapping.syncSet` and so on)
reconcile any value.
-/

namespace Reconcile

variable {T : Model}

/-- Runs a step for every value in order and keeps what the steps find. -/
def resolveEach {α β : Type} :
    (ps : List α) → ((p : α) → p ∈ ps → Work T (Option β)) → Work T (List β)
  | [], _ => return []
  | p :: rest, step => do
    let found ← step p List.mem_cons_self
    let others ← resolveEach rest fun q hq => step q (List.mem_cons_of_mem _ hq)
    return found.toList ++ others

section Building

variable {k : T.Kind} {α : Type}

/-- The set of the entities that the steps find. -/
def MemberSet.build (ps : List α) (step : (p : α) → p ∈ ps → Work T (Option (Handle k))) :
    Work T (MemberSet k) := do
  let members := MemberSet.ofHandles (← resolveEach ps step)
  modify (·.report (.reconciled .set (T.entityName k) ps.length members.size))
  return members

/-- The list of the entities that the steps find. -/
def MemberList.build (ps : List α) (step : (p : α) → p ∈ ps → Work T (Option (Handle k))) :
    Work T (MemberList k) := do
  let members := MemberList.ofHandles (← resolveEach ps step)
  modify (·.report (.reconciled .list (T.entityName k) ps.length members.length))
  return members

end Building

namespace Scope

variable {k : T.Kind}

/-- Deletes the members of an owned relationship and builds it anew; it is absent if there is
nothing to build it from. -/
def replaceAll {R : T.Kind → Type} [ToMany R] (scope : Scope) (field : Option (R k))
    (rebuild : Option (Work T (R k))) : Work T (Option (R k)) := do
  scope.deleteCascade field
  match rebuild with
  | some build => return some (← build)
  | none => return none

/-- Deletes the entity of an owned reference and looks for the one that takes its place; the
reference is absent if there is none. -/
def replaceOne (scope : Scope) (field : Option (ToOne k))
    (rebuild : Option (Work T (Option (Handle k)))) :
    Work T (Option (Handle k) × Option (ToOne k)) := do
  if let some r := field then
    if let some previous := (← r.resolveIn scope).1 then
      let _ ← scope.deleteOrReport previous
  match rebuild with
  | some build =>
    let found ← build
    return (found, ToOne.pointTo none found)
  | none => return (none, none)

end Scope

namespace Mapping

variable (M : Mapping T) {k : T.Kind}

/-! ## Synchronizing -/

/-- The set of the entities of the plain values. -/
def syncSet (scope : Scope) (ps : List (M.Plain k)) (hook : Hook T k) : Work T (MemberSet k) :=
  MemberSet.build ps fun p _ => M.reconcile scope p hook

/-- The list of the entities of the plain values, one position for each value. -/
def syncList (scope : Scope) (ps : List (M.Plain k)) (hook : Hook T k) : Work T (MemberList k) :=
  MemberList.build ps fun p _ => M.reconcile scope p hook

/-- Points a reference at the entity of a plain value, if there is one. -/
def syncOne (scope : Scope) (field : Option (ToOne k)) (p : Option (M.Plain k)) :
    Work T (Option (Handle k) × Option (ToOne k)) := do
  match p with
  | some p =>
    let found ← M.reconcile scope p pure
    return (found, ToOne.pointTo field found)
  | none => return (none, field)

/-! ## Replacing -/

def replaceSet (scope : Scope) (field : Option (MemberSet k)) (ps : Option (List (M.Plain k)))
    (hook : Hook T k) : Work T (Option (MemberSet k)) :=
  scope.replaceAll field (ps.map fun ps => M.syncSet scope ps hook)

def replaceList (scope : Scope) (field : Option (MemberList k)) (ps : Option (List (M.Plain k)))
    (hook : Hook T k) : Work T (Option (MemberList k)) :=
  scope.replaceAll field (ps.map fun ps => M.syncList scope ps hook)

def replaceOne (scope : Scope) (field : Option (ToOne k)) (p : Option (M.Plain k)) :
    Work T (Option (Handle k) × Option (ToOne k)) :=
  scope.replaceOne field (p.map fun p => M.reconcile scope p pure)

/-! ## Reading plain values -/

/-- The plain value of an entity. -/
def plainOf (h : Handle k) : Work T (M.Plain k) := do
  let (p, v) ← M.toPlain ((← get).value h)
  modify (·.rebind h v)
  return p

/-- The plain values of members in order, each found in the context the field was read in. -/
def plainsOfMembers (source : Option ContextId) :
    List (Member k) → Work T (List (M.Plain k) × List (Member k))
  | [] => return ([], [])
  | m :: rest => do
    let (found, m) ← m.bind source
    let plain ← match found with
      | some h => pure [← M.plainOf h]
      | none => pure []
    let (others, rest) ← plainsOfMembers source rest
    return (plain ++ others, m :: rest)

/-- The plain values of the members of a relationship. -/
def plainsOf {R : T.Kind → Type} [ToMany R] (r : R k) : Work T (List (M.Plain k) × R k) := do
  let (plains, ms) ← M.plainsOfMembers (ToMany.source r) (ToMany.members r)
  return (plains, ToMany.withMembers r ms)

end Mapping

end Reconcile
