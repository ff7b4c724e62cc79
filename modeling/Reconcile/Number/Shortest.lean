import Reconcile.Number.Double

/-!
# Shortest decimals

The decimal of fewest digits that a given double is the nearest one to, the nearer of two, and of
two equally near ones the one whose last digit is even.  A decimal `digits · 10^exponent` has the
fewest digits when its exponent is the largest possible, so `shortest` walks the exponents
downwards and stops at the first one with a multiple that rounds to the double.  Reading rounds
more than once (`Double.ofScaled?`), so a long decimal can read as a neighbour of its double.
-/

namespace Reconcile

/-- The number `digits · 10^exponent`. -/
structure Decimal where
  digits : Nat
  exponent : Int
  deriving DecidableEq

namespace Decimal

/-- The number is the quotient of these two naturals. -/
def ratio (d : Decimal) : Nat × Nat :=
  if 0 ≤ d.exponent then (d.digits * Nat.pow 10 d.exponent.toNat, 1)
  else (d.digits, Nat.pow 10 (-d.exponent).toNat)

/-- Rounding the decimal gives the magnitude with this code. -/
def RoundsTo (d : Decimal) (code : Nat) : Prop :=
  nearestCode (d.ratio.1 <<< 1074) d.ratio.2 = code

instance (d : Decimal) (code : Nat) : Decidable (d.RoundsTo code) :=
  inferInstanceAs (Decidable (_ = _))

/-- The multiples of `10^exponent` around `units · 2^-1074` as digits, and whether the upper one
is the better choice: it is nearer, or as near and even. -/
def around (units : Nat) (exponent : Int) : Nat × Nat × Bool :=
  let num := if 0 ≤ exponent then units else units * Nat.pow 10 (-exponent).toNat
  let den := if 0 ≤ exponent then Nat.pow 10 exponent.toNat <<< 1074 else 1 <<< 1074
  let low := num / den
  let twice := 2 * (num % den)
  (low, low + 1, den < twice || (twice = den && low % 2 = 1))

/-- The best multiple of `10^exponent` that rounds to the magnitude. -/
def onGrid? (code : Nat) (exponent : Int) : Option Decimal :=
  let (low, high, upper) := around (unitsOfCode code) exponent
  let first := if upper then high else low
  let second := if upper then low else high
  if RoundsTo ⟨first, exponent⟩ code then some ⟨first, exponent⟩
  else if RoundsTo ⟨second, exponent⟩ code then some ⟨second, exponent⟩
  else none

/-- The first exponent, going down from `exponent` for `steps` steps, with a multiple that rounds
to the magnitude. -/
def search (code : Nat) : Nat → Int → Option Decimal
  | 0, _ => none
  | steps + 1, exponent =>
    match onGrid? code exponent with
    | some d => some d
    | none => search code steps (exponent - 1)

/-- The shortest decimal of a magnitude.  The walk starts above the magnitude's leading digit,
and seventeen digits tell any two doubles apart, so it ends within its steps. -/
def shortest (code : Nat) : Decimal :=
  let start := (((unitsOfCode code).log2 : Int) - 1074) * 30103 / 100000 + 2
  (search code 30 start).getD ⟨0, 0⟩

end Decimal

end Reconcile
