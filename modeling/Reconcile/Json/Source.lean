import Reconcile.Json.Basic

/-!
# JSON as it is written

A `Source` is a piece of JSON text with nothing decided that the grammar leaves open: members of
an object keep their order and may repeat, numbers keep their notation, and strings keep which
characters were escapes.  A reader of a fixed shape looks at a `Source` to tell a repeated member
from a single one, and may skip parts of it without judging their numbers or strings.

`Source.toJson?` decides: escapes of surrogate halves have to pair up, numbers have to be in
range, of two members with one key the later one counts, and containers may nest only as deep as
the given budget says.
-/

namespace Reconcile

/-- A number as written: its sign, the digits of the whole part and of the fraction, and the
exponent.  Without a point the fraction has no digits. -/
structure Numeral where
  negative : Bool
  whole : List Nat
  fraction : List Nat
  exponent : Option Int
  deriving DecidableEq

namespace Numeral

/-- Appends digits to a significand while it fits a 64-bit word, and counts the digits that are
left over. -/
def gather (significand : Nat) : List Nat → Nat × Nat
  | [] => (significand, 0)
  | digit :: rest =>
    let next := significand * 10 + digit
    if next < 18446744073709551616 then gather next rest else (significand, rest.length + 1)

/-- The number that is meant, or `none` when it is out of range.  Without point and exponent, a
numeral in the range of a word is an integer, but minus zero is not.  A double is read off the
digits that fit a significand: further ones of the whole part only scale it, and further ones of
the fraction count for nothing. -/
def toNumber? (n : Numeral) : Option Number :=
  let (whole, scale) := gather 0 n.whole
  let (significand, unread) := gather whole n.fraction
  let exponent := n.exponent.getD 0 + scale - (n.fraction.length - unread : Nat)
  let asDouble := (Double.ofScaled? n.negative significand exponent).map Number.double
  if n.fraction.isEmpty && n.exponent.isNone && scale == 0 && !(n.negative && whole == 0) then
    match WordInt.ofInt? (if n.negative then -whole else whole) with
    | some i => some (.int i)
    | none => asDouble
  else asDouble

end Numeral

/-- A character of a string, or an escape that names a UTF-16 unit. -/
inductive TextUnit where
  | plain (c : Char)
  | escape (unit : Nat)
  deriving DecidableEq

namespace TextUnit

/-- The characters that a sequence of units spells.  A high surrogate needs a low one right after
it, and a low one may stand only there. -/
def decode : List TextUnit → Option (List Char)
  | [] => some []
  | .plain c :: rest => (decode rest).map (c :: ·)
  | .escape u :: rest =>
    if 0xD800 ≤ u ∧ u < 0xDC00 then
      match rest with
      | .escape l :: rest =>
        if 0xDC00 ≤ l ∧ l < 0xE000 then
          (decode rest).map (Char.ofNat (0x10000 + (u - 0xD800) * 0x400 + (l - 0xDC00)) :: ·)
        else none
      | _ => none
    else if 0xDC00 ≤ u ∧ u < 0xE000 then none
    else (decode rest).map (Char.ofNat u :: ·)

def decodeString (units : List TextUnit) : Option String := (decode units).map String.ofList

end TextUnit

inductive Source where
  | null
  | bool (b : Bool)
  | number (n : Numeral)
  | string (units : List TextUnit)
  | array (items : List Source)
  | object (fields : List (List TextUnit × Source))

namespace Source

instance : Inhabited Source := ⟨.null⟩

mutual

/-- The value that is meant, with containers nested at most `budget` deep. -/
def toJson? (budget : Nat) : Source → Option Json
  | .null => some .null
  | .bool b => some (.bool b)
  | .number n => n.toNumber?.map .number
  | .string units => (TextUnit.decodeString units).map .string
  | .array items =>
    if budget = 0 then none else (toItems? (budget - 1) items).map .array
  | .object fields =>
    if budget = 0 then none else (toFields? (budget - 1) fields).map .ofFields

def toItems? (budget : Nat) : List Source → Option (List Json)
  | [] => some []
  | item :: rest => do
    let item ← toJson? budget item
    let rest ← toItems? budget rest
    return item :: rest

def toFields? (budget : Nat) : List (List TextUnit × Source) → Option (List (String × Json))
  | [] => some []
  | (key, value) :: rest => do
    let key ← TextUnit.decodeString key
    let value ← toJson? budget value
    let rest ← toFields? budget rest
    return (key, value) :: rest

end

end Source

end Reconcile
