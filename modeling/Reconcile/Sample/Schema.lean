import Reconcile.Schema.Basic

/-!
# Schemas of the sample model

A small blog (posts with an author, shared tags and owned comments), notes, an outline of nodes
with notes of their own, free-form and brittle values, and folders that nest in one another.
-/

namespace Reconcile.Sample

def text (name : String) : Attribute := ⟨name, .text, false⟩

def requiredText (name : String) : Attribute := ⟨name, .text, true⟩

def integer (name : String) : Attribute := ⟨name, .integer, false⟩

def requiredInteger (name : String) : Attribute := ⟨name, .integer, true⟩

def toOne (name target : String) : Relationship := ⟨name, target, false⟩

def toMany (name target : String) : Relationship := ⟨name, target, true⟩

def postDescription : Description :=
  ⟨"Post", [requiredText "title", text "body"],
    [toOne "author" "Author", toMany "tags" "Tag", toMany "comments" "Comment"]⟩

def commentDescription : Description :=
  ⟨"Comment", [requiredText "author", text "text", text "anchor"], [toOne "post" "Post"]⟩

def authorDescription : Description := ⟨"Author", [requiredText "handle", text "name"], []⟩

def tagDescription : Description := ⟨"Tag", [requiredText "name", text "colour"], []⟩

def noteDescription : Description := ⟨"Note", [text "text", text "by"], []⟩

def nodeDescription : Description :=
  ⟨"Node", [integer "code", text "label"],
    [toOne "parent" "Node", toMany "children" "Node", toMany "notes" "Note", toOne "owned" "Note"]⟩

def looseDescription : Description := ⟨"Loose", [text "key", integer "rank", text "extra"], []⟩

def brittleDescription : Description := ⟨"Brittle", [text "text"], []⟩

def folderDescription : Description :=
  ⟨"Folder", [requiredInteger "code"], [toOne "parent" "Folder"]⟩

/-- The blog alone. -/
def blogSchema : Schema :=
  .ofList 1 [postDescription, commentDescription, authorDescription, tagDescription]

/-- The blog together with folders. -/
def folderSchema : Schema := blogSchema.insert folderDescription

/-- Every entity of the model that has a description, folders apart. -/
def standardSchema : Schema :=
  .ofList 1 [postDescription, commentDescription, authorDescription, tagDescription,
    noteDescription, nodeDescription, looseDescription, brittleDescription]

end Reconcile.Sample
