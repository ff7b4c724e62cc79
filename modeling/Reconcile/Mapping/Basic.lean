import Reconcile.Session.Lookup

/-!
# Mappings

A mapping relates the entities of a model to *plain values*, which the application owns and which
know nothing of sessions.  It says which plain values belong to each type of entity, which
attribute identifies the entity of a plain value, how an entity is filled from a plain value, and
how one is read off an entity.

Filling may reconcile further plain values.  Each of them has to be lighter than the one that is
being filled, so that a fill comes to an end.
-/

namespace Reconcile

/-- A change of a value before it is filled. -/
abbrev Hook (T : Model) (k : T.Kind) := T.Value k → Work T (T.Value k)

/-- A way to find and fill the entities of plain values that are lighter than `bound`. -/
abbrev Reconciler (T : Model) (Plain : T.Kind → Type) (weight : {k : T.Kind} → Plain k → Nat)
    (bound : Nat) :=
  (k : T.Kind) → (p : Plain k) → weight p < bound → Hook T k → Work T (Option (Handle k))

structure Mapping (T : Model) where
  /-- The plain values of a type of entity. -/
  Plain : T.Kind → Type
  weight : {k : T.Kind} → Plain k → Nat
  /-- What identifies the entity of a plain value.  Without it every value has its own. -/
  naturalKey : {k : T.Kind} → Plain k → Option NaturalKey
  /-- What an entity of the given id holds after it was filled. -/
  fill : {k : T.Kind} → (p : Plain k) → Reconciler T Plain weight (weight p) → Scope → EntityId →
    T.Value k → Work T (T.Value k)
  /-- The plain value of what an entity holds, which comes back with its relationships bound. -/
  toPlain : {k : T.Kind} → T.Value k → Work T (Plain k × T.Value k)

namespace Scope

variable {T : Model} {k : T.Kind}

/-- What others see of a value while it is filled: the value with its natural key set ahead of
the fill, and the payload of that. -/
def preview (scope : Scope) (v : T.Value k) (key : Option NaturalKey) :
    Except Fault (T.Value k × Json) := do
  let payload ← Model.payload v
  let payload := match key with
    | some key => payload.withField key.key key.value
    | none => payload
  let standIn ← Model.ofPayload k scope.source payload
  return (standIn, payload)

/-- Puts the preview of a value in place of an entity that fills, or reports that there is
none. -/
def showPreview (scope : Scope) (h : Handle k) (v : T.Value k) (key : Option NaturalKey) :
    Work T Unit :=
  match scope.preview v key with
  | .ok (standIn, payload) => modify (·.standIn h standIn payload)
  | .error fault => modify (·.report (.previewFailed h.id fault))

end Scope

namespace Mapping

variable {T : Model} (M : Mapping T) {k : T.Kind}

/-! ## Finding by natural key -/

/-- The last entity with the natural key of a plain value, or the fault of the fetch. -/
def tryFindUnique (scope : Scope) (p : M.Plain k) : Attempt T (Option (Handle k)) :=
  scope.tryFindByKey k (M.naturalKey p)

/-- The last entity with the natural key of a plain value. -/
def findUnique (scope : Scope) (p : M.Plain k) : Work T (Option (Handle k)) :=
  scope.findByKey k (M.naturalKey p)

/-- The entity with the natural key of a plain value, or a new one. -/
def findOrInsertUnique (scope : Scope) (p : M.Plain k) : Work T (Option (Handle k)) := do
  match ← M.findUnique scope p with
  | some handle => return some handle
  | none => scope.insertOrReport k

/-! ## Filling -/

/-- Finds or creates the entity of a plain value that is lighter than the bound, and fills it.  An
entity that is being filled already is left alone. -/
def reconcileBelow (scope : Scope) : (bound : Nat) → Reconciler T M.Plain M.weight bound
  | 0, _, _, h, _ => absurd h (Nat.not_lt_zero _)
  | bound + 1, _, p, h, hook => do
    match ← M.findOrInsertUnique scope p with
    | none => return none
    | some item =>
      match (← get).checkOut? item with
      | none =>
        modify (·.report (.alreadyFilling item.id))
        return some item
      | some (v, s) =>
        set s
        -- the value is in nobody's sight now, so the hook and the fill may look up anything
        let v ← hook v
        scope.showPreview item v (M.naturalKey p)
        -- what the fill reconciles is lighter than `p`, so it is below the smaller bound
        let nested : Reconciler T M.Plain M.weight (M.weight p) := fun l q hq =>
          reconcileBelow scope bound l q (Nat.lt_of_lt_of_le hq (Nat.le_of_lt_succ h))
        let v ← M.fill p nested scope item.id v
        modify (·.checkIn item v)
        return some item

/-- Finds or creates the entity of a plain value and fills it. -/
def reconcile (scope : Scope) (p : M.Plain k) (hook : Hook T k) : Work T (Option (Handle k)) :=
  M.reconcileBelow scope (M.weight p + 1) k p (Nat.lt_succ_self _) hook

/-- Fills an entity from a plain value without looking it up, and holds it meanwhile. -/
def fillHeld (scope : Scope) (h : Handle k) (p : M.Plain k) (this : EntityId) : Work T Unit :=
  h.update (M.fill p (fun _ q _ => M.reconcile scope q) scope this)

end Mapping

end Reconcile
