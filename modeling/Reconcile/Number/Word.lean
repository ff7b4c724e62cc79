/-!
# Integers of a 64-bit word

A `WordInt` is an integer that fits a signed or an unsigned 64-bit word, the range in which
integers are kept exactly.
-/

namespace Reconcile

/-- An integer between `-2^63` and `2^64 - 1`. -/
structure WordInt where
  val : Int
  min_le : -9223372036854775808 ≤ val
  lt_max : val < 18446744073709551616
  deriving DecidableEq

namespace WordInt

/-- The integer as a word, if it fits one. -/
def ofInt? (n : Int) : Option WordInt :=
  if h : -9223372036854775808 ≤ n ∧ n < 18446744073709551616 then some ⟨n, h.1, h.2⟩ else none

def ofUInt64 (n : UInt64) : WordInt :=
  ⟨n.toNat, by omega, by have := n.toNat_lt; omega⟩

def ofUInt32 (n : UInt32) : WordInt := ofUInt64 n.toUInt64

def ofInt64 (n : Int64) : WordInt :=
  ⟨n.toInt, n.le_toInt, by have := n.toInt_lt; omega⟩

/-- The unsigned word of the same value. -/
def toUInt64? (n : WordInt) : Option UInt64 :=
  if 0 ≤ n.val then some (UInt64.ofNat n.val.toNat) else none

def toUInt32? (n : WordInt) : Option UInt32 :=
  if 0 ≤ n.val ∧ n.val < UInt32.size then some (UInt32.ofNat n.val.toNat) else none

/-- The integer fits a signed word. -/
def IsSigned (n : WordInt) : Prop := n.val < 9223372036854775808

instance (n : WordInt) : Decidable n.IsSigned := inferInstanceAs (Decidable (_ < _))

/-- The signed word of the same value. -/
def toInt64? (n : WordInt) : Option Int64 :=
  if n.IsSigned then some (Int64.ofInt n.val) else none

@[ext]
theorem ext {m n : WordInt} (h : m.val = n.val) : m = n := by
  cases m; cases n; simp_all

@[simp]
theorem toUInt64?_ofUInt64 (n : UInt64) : (ofUInt64 n).toUInt64? = some n := by
  simp [toUInt64?, ofUInt64]

@[simp]
theorem toInt64?_ofInt64 (n : Int64) : (ofInt64 n).toInt64? = some n := by
  have := n.toInt_lt
  simp [toInt64?, ofInt64, IsSigned]
  omega

end WordInt

end Reconcile
