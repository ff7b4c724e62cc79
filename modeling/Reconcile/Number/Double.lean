import Reconcile.Number.Word

/-!
# Finite double-precision numbers

A `Double` is a sign and a *code*, the position of its magnitude among the non-negative finite
binary64 numbers.  Codes and magnitudes increase together, so the order of doubles is an order of
integers (`Double.rank`), and the two zeros have one rank.

Magnitudes are measured in units of `2^-1074`, the smallest positive one (`unitsOfCode`), which
makes every magnitude a natural number.  Rounding a quotient to the nearest double, ties to the
even code, is exact arithmetic on naturals (`nearestCode`), and products and quotients of doubles
round so.  `Double.ofScaled?` reads a decimal with two such roundings.
-/

namespace Reconcile

/-- The number of codes between two powers of two, `2^52`. -/
abbrev binade : Nat := 4503599627370496

/-- The number of finite non-negative codes. -/
def codeLimit : Nat := 2047 * binade

/-- A finite binary64 number. -/
structure Double where
  negative : Bool
  code : Nat
  finite : code < codeLimit
  deriving DecidableEq

/-! ## Magnitudes -/

/-- The magnitude with this code, in units of `2^-1074`. -/
def unitsOfCode (code : Nat) : Nat :=
  if code < binade then code else (binade + code % binade) <<< (code / binade - 1)

/-- The nearest natural number to `num / den`; a half goes to the even neighbour. -/
def roundHalfEven (num den : Nat) : Nat :=
  let low := num / den
  let twice := 2 * (num % den)
  if twice < den ∨ (twice = den ∧ low % 2 = 0) then low else low + 1

/-- The code nearest to `num / den` units, ties to the even code.  The binade of the quotient
fixes how many low bits are rounded away; a round up to the next power of two carries into the
next binade. -/
def nearestCode (num den : Nat) : Nat :=
  let shift := (num / den).log2 - 52
  shift * binade + roundHalfEven num (den <<< shift)

theorem roundHalfEven_le (num den : Nat) : roundHalfEven num den ≤ num / den + 1 := by
  unfold roundHalfEven
  simp only
  split <;> omega

theorem nearestCode_le (num : Nat) :
    nearestCode num 1 ≤ (num.log2 - 52) * binade + 2 * binade := by
  have hdiv : num / (1 <<< (num.log2 - 52)) < 2 * binade := by
    rw [Nat.one_shiftLeft, Nat.div_lt_iff_lt_mul (Nat.two_pow_pos _),
      show 2 * binade = 2 ^ 53 from rfl, ← Nat.pow_add]
    exact Nat.lt_of_lt_of_le Nat.lt_log2_self (Nat.pow_le_pow_right (by omega) (by omega))
  have hround := roundHalfEven_le num (1 <<< (num.log2 - 52))
  simp only [nearestCode, Nat.div_one]
  omega

theorem log2_shiftLeft_le {n a b : Nat} (h : n < 1 <<< a) : (n <<< b).log2 ≤ a + b := by
  rw [Nat.shiftLeft_eq]
  rw [Nat.one_shiftLeft] at h
  rcases Nat.eq_zero_or_pos (n * 2 ^ b) with h0 | h0
  · simp [h0]
  · refine Nat.le_of_lt ((Nat.log2_lt (by omega)).2 ?_)
    rw [Nat.pow_add]
    exact Nat.mul_lt_mul_of_pos_right h (Nat.two_pow_pos _)

/-! ## Products and quotients of magnitudes -/

def productCode (a b : Nat) : Nat := nearestCode (unitsOfCode a * unitsOfCode b) (1 <<< 1074)

def quotientCode (a b : Nat) : Nat := nearestCode (unitsOfCode a <<< 1074) (unitsOfCode b)

/-- The code nearest to `10^n`, for `n ≤ 308`. -/
def tenPowerCode (n : Nat) : Nat := nearestCode (Nat.pow 10 n <<< 1074) 1

/-- A magnitude times a power of ten.  Powers above `10^308` take a positive magnitude out of
range; below `10^-308` the magnitude is divided twice, and two times `10^308` leave nothing of the
nearest double of a word. -/
def scaledCode (code : Nat) (exponent : Int) : Nat :=
  let n := exponent.natAbs
  if code = 0 then 0
  else if 308 < exponent then codeLimit
  else if 0 ≤ exponent then productCode code (tenPowerCode n)
  else if n ≤ 308 then quotientCode code (tenPowerCode n)
  else quotientCode (quotientCode code (tenPowerCode 308)) (tenPowerCode (min (n - 308) 308))

namespace Double

/-! ## Order -/

/-- Doubles in increasing order have increasing ranks; both zeros have rank `0`. -/
def rank (x : Double) : Int := if x.negative then -(x.code : Int) else x.code

/-- The same number; the two zeros are one number. -/
def same (x y : Double) : Bool := x.rank == y.rank

/-! ## Reading -/

/-- The double of `significand · 10^exponent`, read in steps that round one after the other: the
double nearest to the significand is multiplied or divided by the double nearest to the power of
ten.  The result can lie beside the double that is nearest to the number itself.  `none` when the
number is out of range. -/
def ofScaled? (negative : Bool) (significand : Nat) (exponent : Int) : Option Double :=
  let code := scaledCode (nearestCode (significand <<< 1074) 1) exponent
  if h : code < codeLimit then some ⟨negative, code, h⟩ else none

/-- The double nearest to an integer of a word. -/
def ofWordInt (n : WordInt) : Double where
  negative := n.val < 0
  code := nearestCode (n.val.natAbs <<< 1074) 1
  finite := by
    have hlow := n.min_le
    have hhigh := n.lt_max
    have hword : n.val.natAbs < 1 <<< 64 := by
      rw [show 1 <<< 64 = 18446744073709551616 from rfl]
      omega
    have hlog := log2_shiftLeft_le (b := 1074) hword
    have hcode := nearestCode_le (n.val.natAbs <<< 1074)
    generalize n.val.natAbs <<< 1074 = units at hlog hcode ⊢
    simp only [codeLimit, binade] at hcode ⊢
    omega

end Double

end Reconcile
