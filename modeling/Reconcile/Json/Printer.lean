import Reconcile.Json.Basic
import Reconcile.Number.Shortest

/-!
# Compact JSON text

The text of a value without spaces.  Members come in key order, so a value has one text.  A
string escapes the quote, the backslash and the characters below `U+0020`; all other characters
stand for themselves.  A double is written with the fewest digits that round to it, positionally
while its leading digit is between `10^-5` and `10^15`.
-/

namespace Reconcile

/-! ## Numbers -/

/-- Where positional notation ends.  A decimal whose point stands `p` places right of its first
digit is positional for `low < p ≤ high`. -/
structure PointRange where
  low : Int
  high : Int

/-- Magnitudes from `10^-5` up to but not including `10^16` are positional. -/
def PointRange.json : PointRange := ⟨-5, 16⟩

namespace Decimal

def digitChars (n : Nat) : List Char := Nat.toDigits 10 n

/-- The decimal in positional notation, with at least one digit on both sides of the point, or
with one digit before the point and an exponent. -/
def chars (range : PointRange) (d : Decimal) : List Char :=
  let digits := digitChars d.digits
  let count : Int := digits.length
  let point := d.exponent + count
  if 0 ≤ d.exponent ∧ point ≤ range.high then
    digits ++ List.replicate d.exponent.toNat '0' ++ ['.', '0']
  else if 0 < point ∧ point ≤ range.high then
    digits.take point.toNat ++ '.' :: digits.drop point.toNat
  else if range.low < point ∧ point ≤ 0 then
    '0' :: '.' :: List.replicate (-point).toNat '0' ++ digits
  else
    let lead := digits.take 1
    let tail := digits.drop 1
    let mantissa := if tail.isEmpty then lead else lead ++ '.' :: tail
    let exponent := point - 1
    let sign := if exponent < 0 then '-' else '+'
    mantissa ++ 'e' :: sign :: digitChars exponent.natAbs

end Decimal

namespace Number

def intChars (n : Int) : List Char :=
  if n < 0 then '-' :: Decimal.digitChars n.natAbs else Decimal.digitChars n.natAbs

def doubleChars (x : Double) : List Char :=
  let magnitude :=
    if x.code = 0 then ['0', '.', '0'] else (Decimal.shortest x.code).chars .json
  if x.negative then '-' :: magnitude else magnitude

def chars : Number → List Char
  | .int n => intChars n.val
  | .double x => doubleChars x

end Number

/-! ## Strings -/

namespace Json

/-- The digit of a value below sixteen, in lower case. -/
def hexDigit (n : Nat) : Char :=
  if n < 10 then Char.ofNat (48 + n) else Char.ofNat (87 + n)

/-- A character as it stands between the quotes of a string. -/
def escapeChar (c : Char) : List Char :=
  if c = '"' then ['\\', '"']
  else if c = '\\' then ['\\', '\\']
  else if c = '\x08' then ['\\', 'b']
  else if c = '\x0c' then ['\\', 'f']
  else if c = '\n' then ['\\', 'n']
  else if c = '\x0d' then ['\\', 'r']
  else if c = '\t' then ['\\', 't']
  else if c.toNat < 32 then ['\\', 'u', '0', '0', hexDigit (c.toNat / 16), hexDigit (c.toNat % 16)]
  else [c]

def quoted (s : String) : List Char := '"' :: (s.toList.flatMap escapeChar ++ ['"'])

/-! ## Values -/

mutual

def chars : Json → List Char
  | .null => ['n', 'u', 'l', 'l']
  | .bool true => ['t', 'r', 'u', 'e']
  | .bool false => ['f', 'a', 'l', 's', 'e']
  | .number n => n.chars
  | .string s => quoted s
  | .array items => '[' :: (itemChars items ++ [']'])
  | .object fields => '{' :: (fieldChars fields ++ ['}'])

def itemChars : List Json → List Char
  | [] => []
  | [item] => chars item
  | item :: rest => chars item ++ ',' :: itemChars rest

def fieldChars : List (String × Json) → List Char
  | [] => []
  | [(key, value)] => quoted key ++ ':' :: chars value
  | (key, value) :: rest => quoted key ++ ':' :: (chars value ++ ',' :: fieldChars rest)

end

/-- The compact text of a value. -/
def compact (j : Json) : String := String.ofList j.chars

end Json

end Reconcile
