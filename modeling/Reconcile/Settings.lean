import Reconcile.Text.Blank

/-!
# Settings of a store

Two switches, both on by default, and how they are read from named variables.
-/

namespace Reconcile

structure Settings where
  /-- A save checks every payload against the schema first. -/
  validateOnSave : Bool
  /-- A fetch finds entities that were inserted and not yet saved. -/
  includePending : Bool
  deriving DecidableEq

/-- A variable whose value is no flag. -/
structure InvalidFlag where
  variableName : String
  value : String
  deriving DecidableEq

def InvalidFlag.message (f : InvalidFlag) : String :=
  "invalid value '" ++ f.value ++ "' for " ++ f.variableName ++ ": expected true or false"

namespace Settings

def default : Settings := ⟨true, true⟩

instance : Inhabited Settings := ⟨default⟩

def validateOnSaveVariable : String := "PLAINSYNC_VALIDATE_ON_SAVE"

def includePendingVariable : String := "PLAINSYNC_INCLUDE_PENDING"

/-- A flag in one of four spellings of each value, in any case, with blanks around it. -/
def flag? (text : String) : Option Bool :=
  let word := String.ofList ((Text.trimBlanks text.toList).map Char.toLower)
  if word ∈ ["1", "true", "yes", "on"] then some true
  else if word ∈ ["0", "false", "no", "off"] then some false
  else none

/-- The value of one switch: the default when the variable is not set. -/
def readFlag (lookup : String → Option String) (variableName : String) (default : Bool) :
    Except InvalidFlag Bool :=
  match lookup variableName with
  | none => .ok default
  | some value =>
    match flag? value with
    | some b => .ok b
    | none => .error ⟨variableName, value⟩

/-- Settings from a table of variables.  The validation switch is read first. -/
def ofLookup (lookup : String → Option String) : Except InvalidFlag Settings := do
  let validateOnSave ← readFlag lookup validateOnSaveVariable default.validateOnSave
  let includePending ← readFlag lookup includePendingVariable default.includePending
  return { validateOnSave, includePending }

end Settings

end Reconcile
