import Reconcile.Session.Basic
import Reconcile.Relation.Basic
import Reconcile.Text.Escaped

/-!
# Inspection

Ids, relationships, contexts and entities written out for people to read: a name and the fields in
braces.
-/

namespace Reconcile.Inspect

/-- A name and fields in braces. -/
def record (name : String) (fields : List (String × String)) : String :=
  name ++ " \x7b " ++ ", ".intercalate (fields.map fun f => f.1 ++ ": " ++ f.2) ++ " \x7d"

def bool (b : Bool) : String := if b then "true" else "false"

def entityId (id : EntityId) : String :=
  record "ObjectId" [("entity", Text.escaped id.entity), ("key", toString id.key.toNat)]

def contextId (c : ContextId) : String := "ContextId(" ++ toString c.number ++ ")"

section Relationships

variable {K : Type} {k : K}

def toOne (r : ToOne k) : String := "EntityRef(" ++ entityId r.id ++ ")"

def memberSet (s : MemberSet k) : String :=
  "\x7b" ++ ", ".intercalate (s.ids.map entityId) ++ "\x7d"

def memberList (l : MemberList k) : String :=
  "[" ++ ", ".intercalate (l.ids.map entityId) ++ "]"

end Relationships

variable {T : Model}

def context (s : Session T) (c : ContextId) : String :=
  record "MemoryContext" [("id", contextId c), ("registered", toString (s.registeredCount c))]

def entity (s : Session T) {k : T.Kind} (h : Handle k) : String :=
  record "Managed" [("id", entityId h.id), ("context", contextId h.context),
    ("temporary", bool (s.isTemporary h)), ("deleted", bool (s.isDeleted h))]

end Reconcile.Inspect
