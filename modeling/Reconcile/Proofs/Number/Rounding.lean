import Mathlib.Tactic.Ring
import Mathlib.Tactic.GCongr
import Reconcile.Number.Double

/-!
# Rounding keeps the order

Rounding to the nearest double never swaps two numbers, though it can make them one.  Within a
binade that is so because rounding a quotient is monotone; between binades the code of the lower
one stops where that of the upper one begins.
-/

namespace Reconcile

variable {m n den : Nat}

theorem div_le_roundHalfEven (num den : Nat) : num / den ≤ roundHalfEven num den := by
  unfold roundHalfEven
  simp only
  split <;> omega

theorem roundHalfEven_mono (h : m ≤ n) : roundHalfEven m den ≤ roundHalfEven n den := by
  have hquotient : m / den ≤ n / den := Nat.div_le_div_right h
  rcases Nat.lt_or_eq_of_le hquotient with hlt | heq
  · calc roundHalfEven m den ≤ m / den + 1 := roundHalfEven_le m den
      _ ≤ n / den := hlt
      _ ≤ roundHalfEven n den := div_le_roundHalfEven n den
  · -- the remainders are in order, so the upper number is not the only one that is rounded down
    have hm := Nat.div_add_mod m den
    have hn := Nat.div_add_mod n den
    have hrest : m % den ≤ n % den := by
      rw [heq] at hm
      omega
    unfold roundHalfEven
    simp only [heq]
    split <;> split <;> omega

/-! ## Whole units -/

/-- A number that loses low bits has a code of a binade of its own. -/
theorem le_nearestCode (h : n.log2 - 52 ≠ 0) :
    (n.log2 - 52) * binade + binade ≤ nearestCode n 1 := by
  have hpos : n ≠ 0 := by
    rintro rfl
    simp at h
  have hlog : 52 + (n.log2 - 52) = n.log2 := by omega
  have hdiv : binade ≤ n / (1 <<< (n.log2 - 52)) := by
    rw [Nat.one_shiftLeft, Nat.le_div_iff_mul_le (Nat.two_pow_pos _),
      show binade = 2 ^ 52 from rfl, ← Nat.pow_add, hlog]
    exact Nat.log2_self_le hpos
  have hround := div_le_roundHalfEven n (1 <<< (n.log2 - 52))
  simp only [nearestCode, Nat.div_one]
  omega

theorem nearestCode_mono (h : m ≤ n) : nearestCode m 1 ≤ nearestCode n 1 := by
  have hlog : m.log2 ≤ n.log2 := by
    rcases Nat.eq_zero_or_pos m with rfl | hpos
    · simp
    · exact (Nat.le_log2 (by omega)).2 (Nat.le_trans (Nat.log2_self_le (by omega)) h)
  have hshift : m.log2 - 52 ≤ n.log2 - 52 := by omega
  rcases Nat.lt_or_eq_of_le hshift with hlt | heq
  · calc nearestCode m 1 ≤ (m.log2 - 52) * binade + 2 * binade := nearestCode_le m
      _ = (m.log2 - 52 + 1) * binade + binade := by ring
      _ ≤ (n.log2 - 52) * binade + binade := by gcongr; exact hlt
      _ ≤ nearestCode n 1 := le_nearestCode (by omega)
  · have hround : roundHalfEven m (1 <<< (n.log2 - 52)) ≤ roundHalfEven n (1 <<< (n.log2 - 52)) :=
      roundHalfEven_mono h
    simp only [nearestCode, Nat.div_one, heq]
    omega

/-! ## Integers of a word -/

namespace Double

theorem rank_ofWordInt (n : WordInt) : (ofWordInt n).rank =
    if n.val < 0 then -(nearestCode (n.val.natAbs <<< 1074) 1 : Int)
    else nearestCode (n.val.natAbs <<< 1074) 1 := by
  simp [rank, ofWordInt]

/-- The double nearest to the greater of two integers is not the smaller one. -/
theorem rank_ofWordInt_mono {m n : WordInt} (h : m.val ≤ n.val) :
    (ofWordInt m).rank ≤ (ofWordInt n).rank := by
  have hcodes : ∀ {a b : Nat}, a ≤ b →
      nearestCode (a <<< 1074) 1 ≤ nearestCode (b <<< 1074) 1 := by
    intro a b hab
    refine nearestCode_mono ?_
    rw [Nat.shiftLeft_eq, Nat.shiftLeft_eq]
    exact Nat.mul_le_mul_right _ hab
  rw [rank_ofWordInt, rank_ofWordInt]
  split
  case isTrue hm =>
    split
    case isTrue hn =>
      -- below zero the greater number has the smaller magnitude
      have hcode := hcodes (show n.val.natAbs ≤ m.val.natAbs by omega)
      omega
    case isFalse hn => omega
  case isFalse hm =>
    have hcode := hcodes (show m.val.natAbs ≤ n.val.natAbs by omega)
    rw [if_neg (by omega)]
    exact Int.ofNat_le.2 hcode

end Double

end Reconcile
