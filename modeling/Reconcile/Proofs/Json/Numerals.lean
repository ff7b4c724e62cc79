import Reconcile.Json.Printer
import Reconcile.Json.Reader

/-!
# Decimal numerals are read back

The digits that are written of a number are the digits that are read, up to what ends them, and they
mean the number.  Integers of a word keep their sign; no zero is written in front of other digits.
-/

namespace Reconcile

open Decimal (digitChars)

namespace Source

/-! ## Digits -/

theorem isDigit_of_mem_digitChars {n : Nat} {c : Char} (h : c ∈ digitChars n) :
    c.isDigit = true := Nat.isDigit_of_mem_toDigits (by decide) (by decide) h

theorem digitsValue_digitChars (n : Nat) : digitsValue ((digitChars n).map digitValue) = n := by
  have hvalue : Nat.ofDigitChars 10 (digitChars n) 0 = n :=
    Nat.ofDigitChars_toDigits (by decide) (by decide)
  rw [Nat.ofDigitChars_eq_foldl] at hvalue
  simp only [Nat.mul_comm 10] at hvalue
  rw [digitsValue, List.foldl_map]
  exact hvalue

/-- Nothing that goes on with the digits comes next. -/
def EndsDigits (rest : List Char) : Prop := ∀ c ∈ rest.head?, c.isDigit = false

theorem spanDigits_digitChars (n : Nat) {rest : List Char} (hrest : EndsDigits rest) :
    spanDigits (digitChars n ++ rest) = ((digitChars n).map digitValue, rest) := by
  have hdigits : ∀ c ∈ digitChars n, c.isDigit = true := fun _ => isDigit_of_mem_digitChars
  have hstop : rest.takeWhile Char.isDigit = [] ∧ rest.dropWhile Char.isDigit = rest := by
    cases rest with
    | nil => exact ⟨rfl, rfl⟩
    | cons c rest =>
      have hc : c.isDigit = false := hrest c rfl
      simp [hc]
  rw [spanDigits, List.takeWhile_append_of_pos hdigits, List.dropWhile_append_of_pos hdigits,
    hstop.1, hstop.2, List.append_nil]

/-- A number other than zero does not start with a zero. -/
theorem head_digitChars {n : Nat} (hn : n ≠ 0) {c : Char} (hc : (digitChars n).head? = some c) :
    digitValue c ≠ 0 := by
  induction n using Nat.strongRecOn with
  | ind n ih =>
    by_cases hlt : n < 10
    · rw [digitChars, Nat.toDigits_of_lt_base hlt] at hc
      cases hc
      rw [digitValue, Nat.toNat_digitChar_sub_48_of_lt_ten hlt]
      exact hn
    · have hlead : digitChars n = digitChars (n / 10) ++ [Nat.digitChar (n % 10)] :=
        Nat.toDigits_of_base_le (by decide) (Nat.not_lt.1 hlt)
      refine ih (n / 10) (by omega) (by omega) ?_
      rw [hlead, List.head?_append, Option.or_eq_some_iff] at hc
      rcases hc with hc | ⟨hnil, _⟩
      · exact hc
      · exact absurd (List.head?_eq_none_iff.1 hnil) Nat.toDigits_ne_nil

theorem digitChars_of_zero_first {n : Nat} {rest : List Nat}
    (h : (digitChars n).map digitValue = 0 :: rest) : rest = [] := by
  by_cases hn : n = 0
  · subst hn
    cases h
    rfl
  · rcases hchars : digitChars n with _ | ⟨c, tail⟩
    · exact absurd hchars Nat.toDigits_ne_nil
    · rw [hchars, List.map_cons] at h
      exact absurd (List.cons.inj h).1 (head_digitChars hn (by rw [hchars]; rfl))

end Source

/-! ## Numerals -/

namespace Numeral

/-- An integer as it is written. -/
def ofInt (n : Int) : Numeral :=
  ⟨decide (n < 0), (digitChars n.natAbs).map Source.digitValue, [], none⟩

theorem le_foldl_digits (digits : List Nat) (n : Nat) :
    n ≤ digits.foldl (fun n digit => n * 10 + digit) n := by
  induction digits generalizing n with
  | nil => exact Nat.le_refl n
  | cons digit rest ih => exact Nat.le_trans (by omega) (ih (n * 10 + digit))

/-- Digits that fit a word are all taken up. -/
theorem gather_of_lt {digits : List Nat} {n : Nat}
    (h : digits.foldl (fun n digit => n * 10 + digit) n < 18446744073709551616) :
    gather n digits = (digits.foldl (fun n digit => n * 10 + digit) n, 0) := by
  induction digits generalizing n with
  | nil => rfl
  | cons digit rest ih =>
    have hnext : n * 10 + digit < 18446744073709551616 :=
      Nat.lt_of_le_of_lt (le_foldl_digits rest _) h
    rw [gather, if_pos hnext]
    exact ih h

theorem gather_digitChars {n : Nat} (h : n < 18446744073709551616) :
    gather 0 ((digitChars n).map Source.digitValue) = (n, 0) := by
  have hvalue := Source.digitsValue_digitChars n
  rw [Source.digitsValue] at hvalue
  rw [gather_of_lt (by rw [hvalue]; exact h), hvalue]

theorem toNumber?_ofInt (n : WordInt) : (ofInt n.val).toNumber? = some (.int n) := by
  have hmin := n.min_le
  have hmax := n.lt_max
  have habs : n.val.natAbs < 18446744073709551616 := by omega
  have hvalue : (if decide (n.val < 0) = true then -(n.val.natAbs : Int) else n.val.natAbs) =
      n.val := by
    by_cases hneg : n.val < 0
    · rw [if_pos (decide_eq_true hneg)]
      omega
    · rw [if_neg (by simpa using hneg)]
      omega
  -- only zero could have a sign of its own, and a negative integer is not zero
  have hsign : (decide (n.val < 0) && n.val.natAbs == 0) = false := by
    by_cases hneg : n.val < 0
    · have hne : n.val.natAbs ≠ 0 := by omega
      simp [hne]
    · simp [hneg]
  have hword : WordInt.ofInt? n.val = some n := dif_pos ⟨hmin, hmax⟩
  rw [toNumber?, ofInt]
  simp only [gather_digitChars habs, gather, hsign, hvalue, hword]
  rfl

end Numeral

namespace Source

/-- What may come after a value: the text ends, or something closes the value. -/
def Closed (rest : List Char) : Prop := ∀ c ∈ rest.head?, c = ',' ∨ c = ']' ∨ c = '\x7d'

theorem Closed.endsDigits {rest : List Char} (h : Closed rest) : EndsDigits rest := by
  intro c hc
  rcases h c hc with rfl | rfl | rfl <;> rfl

theorem readFraction?_of_closed {rest : List Char} (h : Closed rest) :
    readFraction? rest = some ([], rest) := by
  cases rest with
  | nil => rfl
  | cons c rest => rcases h c rfl with rfl | rfl | rfl <;> rfl

theorem readExponent?_of_closed {rest : List Char} (h : Closed rest) :
    readExponent? rest = some (none, rest) := by
  cases rest with
  | nil => rfl
  | cons c rest => rcases h c rfl with rfl | rfl | rfl <;> rfl

theorem readTail_of_closed (negative : Bool) (whole : List Nat) {rest : List Char}
    (h : Closed rest) : (do
      let (fraction, rest) ← readFraction? rest
      let (exponent, rest) ← readExponent? rest
      return (⟨negative, whole, fraction, exponent⟩, rest) : Option (Numeral × List Char)) =
      some (⟨negative, whole, [], none⟩, rest) := by
  rw [readFraction?_of_closed h, Option.bind_eq_bind, Option.bind_some]
  dsimp only
  rw [readExponent?_of_closed h]
  rfl

theorem readMagnitude?_digitChars (negative : Bool) (n : Nat) {rest : List Char}
    (h : Closed rest) : readMagnitude? negative (digitChars n ++ rest) =
      some (⟨negative, (digitChars n).map digitValue, [], none⟩, rest) := by
  unfold readMagnitude?
  rw [spanDigits_digitChars n h.endsDigits]
  have hread := readTail_of_closed negative ((digitChars n).map digitValue) h
  rcases hdigits : (digitChars n).map digitValue with _ | ⟨digit, tail⟩
  · exact absurd (List.map_eq_nil_iff.1 hdigits) Nat.toDigits_ne_nil
  · rw [hdigits] at hread
    -- a zero in front is the only digit
    cases digit with
    | zero =>
      cases digitChars_of_zero_first hdigits
      exact hread
    | succ digit => exact hread

/-- An integer is read back, digit for digit. -/
theorem readNumber?_intChars (n : Int) {rest : List Char} (h : Closed rest) :
    readNumber? (Number.intChars n ++ rest) = some (Numeral.ofInt n, rest) := by
  unfold Number.intChars Numeral.ofInt
  split
  · next hneg =>
    rw [decide_eq_true hneg]
    exact readMagnitude?_digitChars true n.natAbs h
  · next hneg =>
    rw [decide_eq_false hneg]
    have hread := readMagnitude?_digitChars false n.natAbs h
    -- a number that is not negative starts with a digit, so it is not taken for a signed one
    rcases hchars : digitChars n.natAbs with _ | ⟨c, tail⟩
    · exact absurd hchars Nat.toDigits_ne_nil
    · have hdigit : c.isDigit = true := isDigit_of_mem_digitChars (by rw [hchars]; exact List.mem_cons_self)
      rw [hchars] at hread
      rw [List.cons_append] at hread ⊢
      unfold readNumber?
      split
      · next hminus =>
        cases (List.cons.inj hminus).1
        cases hdigit
      · exact hread

end Source

end Reconcile
