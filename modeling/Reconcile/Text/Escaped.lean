import Reconcile.Text.Unseen

/-!
# Escaped text

Text between quotation marks, for people to read.  Quotation marks, backslashes and characters
that do not show by themselves are escaped: the common control characters by a letter, all others
by their number.
-/

namespace Reconcile.Text

/-- The number of a character in lower-case hexadecimal digits. -/
def hexDigits (c : Char) : List Char := Nat.toDigits 16 c.toNat

def escapeChar (c : Char) : List Char :=
  if c = '"' ∨ c = '\\' then ['\\', c]
  else if c = '\n' then ['\\', 'n']
  else if c = '\r' then ['\\', 'r']
  else if c = '\t' then ['\\', 't']
  else if c.toNat = 0 then ['\\', '0']
  else if isUnseen c then '\\' :: 'u' :: '{' :: hexDigits c ++ ['}']
  else [c]

/-- The text escaped and between quotation marks. -/
def escaped (s : String) : String := String.ofList ('"' :: s.toList.flatMap escapeChar ++ ['"'])

end Reconcile.Text
