import Reconcile.Schema.Basic

/-!
# JSON form of schemas
-/

namespace Reconcile

namespace Scalar

def toJson : Scalar → Json
  | .text => .string "string"
  | .integer => .string "int"

def ofName? (name : String) : Option Scalar :=
  if name = "string" then some .text
  else if name = "int" then some .integer
  else none

/-- The name of a kind, or an object whose only member has that name and the value `null`. -/
def ofJson? : Json → Option Scalar
  | .string name => ofName? name
  | .object [(name, .null)] => ofName? name
  | _ => none

end Scalar

namespace Attribute

def toJson (a : Attribute) : Json :=
  .ofFields [("name", .string a.name), ("attributeType", a.scalar.toJson),
    ("required", .bool a.required)]

def ofJson? (j : Json) : Option Attribute := do
  let [some name, some scalar, some required] ← j.members? ["name", "attributeType", "required"]
    | none
  return ⟨← name.string?, ← Scalar.ofJson? scalar, ← required.bool?⟩

end Attribute

namespace Relationship

def toJson (r : Relationship) : Json :=
  .ofFields [("name", .string r.name), ("target", .string r.target), ("toMany", .bool r.many)]

def ofJson? (j : Json) : Option Relationship := do
  let [some name, some target, some many] ← j.members? ["name", "target", "toMany"] | none
  return ⟨← name.string?, ← target.string?, ← many.bool?⟩

end Relationship

namespace Description

def toJson (d : Description) : Json :=
  .ofFields [("name", .string d.name), ("attributes", .array (d.attributes.map Attribute.toJson)),
    ("relationships", .array (d.relationships.map Relationship.toJson))]

/-- The list of relationships may be missing, also from an array. -/
def ofJson? (j : Json) : Option Description := do
  let [some name, some attributes, relationships] ←
    j.leadingMembers? 1 ["name", "attributes", "relationships"] | none
  let relationships ← match relationships with
    | some r => r.listOf? Relationship.ofJson?
    | none => some []
  return ⟨← name.string?, ← attributes.listOf? Attribute.ofJson?, relationships⟩

end Description

namespace Schema

def toJson (s : Schema) : Json :=
  .ofFields [("version", .ofUInt32 s.version),
    ("entities", .object ((s.entities.map Description.toJson).toList))]

def ofJson? (j : Json) : Option Schema := do
  let [some version, some entities] ← j.members? ["version", "entities"] | none
  let .object fields := entities | none
  let descriptions ← fields.mapM fun (name, d) => (Description.ofJson? d).map (name, ·)
  return ⟨← version.uint32?, .ofList descriptions⟩

end Schema

end Reconcile
