import Reconcile.Fault

/-!
# Schemas

A schema describes entity types by name.  A description lists attributes, which hold scalar
values and are what filters and sort terms address, and relationships, which hold the ids of
other entities.
-/

namespace Reconcile

/-- The kinds of scalar that an attribute can hold. -/
inductive Scalar where
  | text
  | integer
  deriving DecidableEq

structure Attribute where
  name : String
  scalar : Scalar
  /-- A committed entity has a value other than `null`. -/
  required : Bool
  deriving DecidableEq

structure Relationship where
  name : String
  /-- The entity that the ids belong to. -/
  target : String
  many : Bool
  deriving DecidableEq

structure Description where
  name : String
  attributes : List Attribute
  relationships : List Relationship
  deriving DecidableEq

namespace Description

/-- The first attribute of a name. -/
def attribute? (d : Description) (name : String) : Option Attribute :=
  d.attributes.find? fun a => a.name == name

/-- The first relationship of a name. -/
def relationship? (d : Description) (name : String) : Option Relationship :=
  d.relationships.find? fun r => r.name == name

/-- The attribute that a filter or a sort term names.  A relationship is not one. -/
def queryable (d : Description) (key : String) : Except Fault Attribute :=
  match d.attribute? key with
  | some a => .ok a
  | none => .error (.unknownAttribute d.name key)

/-- All the keys name attributes; otherwise the fault of the first that does not. -/
def checkKeys (d : Description) : List String → Except Fault Unit
  | [] => .ok ()
  | key :: rest => do
    let _ ← d.queryable key
    d.checkKeys rest

end Description

/-- The entity types of a store. -/
structure Schema where
  version : UInt32
  entities : SortedMap String Description
  deriving DecidableEq

namespace Schema

instance : Inhabited Schema := ⟨⟨0, .empty⟩⟩

def description? (s : Schema) (entity : String) : Option Description := s.entities.get? entity

/-- The description of a type that has to have one. -/
def require (s : Schema) (entity : String) : Except Fault Description :=
  match s.description? entity with
  | some d => .ok d
  | none => .error (.entityNotFound entity)

/-- Adds a description under its name, in place of an earlier one. -/
def insert (s : Schema) (d : Description) : Schema :=
  { s with entities := s.entities.insert d.name d }

/-- The schema with these descriptions; a repeated name counts for the last one. -/
def ofList (version : UInt32) (descriptions : List Description) : Schema :=
  descriptions.foldl insert ⟨version, .empty⟩

end Schema

end Reconcile
