import Reconcile.Sample.Mapping
import Reconcile.Inspect

/-!
# Fields and hooks of the sample model

The relationship fields of the sample model by name, and hooks that are made from data.
-/

namespace Reconcile.Sample

/-! ## Fields -/

/-- A relationship field of any shape, with the type of the entities that it refers to. -/
inductive Related where
  | one (k : Kind) (field : Option (ToOne k))
  | set (k : Kind) (field : Option (MemberSet k))
  | list (k : Kind) (field : Option (MemberList k))

namespace Related

/-- The ids that the field is written as; `null` if it is absent. -/
def toJson : Related → Json
  | one _ field => .ofOption ToOne.toJson field
  | set _ field => .ofOption MemberSet.toJson field
  | list _ field => .ofOption MemberList.toJson field

/-- The field written out for people to read. -/
def inspect? : Related → Option String
  | one _ field => field.map Inspect.toOne
  | set _ field => field.map Inspect.memberSet
  | list _ field => field.map Inspect.memberList

end Related

/-- The relationship field of a value with this name. -/
def related? : {k : Kind} → Value k → String → Option Related
  | .post, v, "author" => some (.one .author (v : Post).author)
  | .post, v, "tags" => some (.set .tag (v : Post).tags)
  | .post, v, "comments" => some (.list .comment (v : Post).comments)
  | .comment, v, "post" => some (.one .post (v : Comment).post)
  | .node, v, "parent" => some (.one .node (v : Node).parent)
  | .node, v, "children" => some (.list .node (v : Node).children)
  | .node, v, "notes" => some (.set .note (v : Node).notes)
  | .node, v, "owned" => some (.one .note (v : Node).owned)
  | .folder, v, "parent" => some (.one .folder (v : Folder).parent)
  | _, _, _ => none

/-- The value with the to-many field of this name absent. -/
def withoutRelated : {k : Kind} → Value k → String → Value k
  | .post, v, "tags" => { (v : Post) with tags := none }
  | .post, v, "comments" => { (v : Post) with comments := none }
  | .node, v, "children" => { (v : Node) with children := none }
  | .node, v, "notes" => { (v : Node) with notes := none }
  | _, v, _ => v

/-- Deletes the members of the to-many field of this name with the field. -/
def cascadeField {k : Kind} (scope : Scope) (name : String) (v : Value k) :
    Work model (Value k) := do
  match related? v name with
  | some (.set _ field) => scope.deleteCascade field
  | some (.list _ field) => scope.deleteCascade field
  | _ => return v
  return withoutRelated v name

/-! ## Hooks -/

/-- Notes the payload of the value, and writes members over it if there are any.  A value that
cannot be written or read back stays as it is. -/
def overlayHook (k : Kind) (scope : Scope) (changes : Json) : Hook model k := fun v => do
  modify (·.note (.hooked (Model.published v)))
  match changes with
  | .object [] => return v
  | _ =>
    match Model.patch scope.source changes v with
    | .ok v => return v
    | .error _ => return v

end Reconcile.Sample
