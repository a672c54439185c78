import Mathlib.Data.BitVec

/-!
# Single-bit masks

A word of flags with one bit for each member of an enumeration: setting, clearing and
testing are the C idioms `w |= m`, `w &= ~m` and `w & m`. The lemmas reduce a test
after an update to a comparison of bit positions.
-/

namespace Toolkit

set_option autoImplicit false

variable {n : Nat}

/-- `w |= 1 << k`. -/
def setBit (w : BitVec n) (k : Nat) : BitVec n := w ||| BitVec.twoPow n k

/-- `w &= ~(1 << k)`. -/
def clearBit (w : BitVec n) (k : Nat) : BitVec n := w &&& ~~~BitVec.twoPow n k

/-- `w & (1 << k)` as a truth value. -/
def testBit (w : BitVec n) (k : Nat) : Bool := w &&& BitVec.twoPow n k != 0#n

theorem testBit_eq (w : BitVec n) (k : Nat) : testBit w k = w.getLsbD k := by
  unfold testBit
  rw [BitVec.and_twoPow]
  cases h : w.getLsbD k with
  | false => simp
  | true =>
    have hk : k < n := BitVec.lt_of_getLsbD h
    have hne : BitVec.twoPow n k ≠ 0#n := by
      intro heq
      have hbit := congrArg (fun v => v.getLsbD k) heq
      simp [hk] at hbit
    simpa using hne

theorem testBit_setBit (w : BitVec n) {j k : Nat} (hk : k < n) :
    testBit (setBit w k) j = (testBit w j || decide (k = j)) := by
  simp only [testBit_eq, setBit, BitVec.getLsbD_or, BitVec.getLsbD_twoPow, hk, decide_true,
    Bool.true_and]

theorem testBit_clearBit (w : BitVec n) {j k : Nat} :
    testBit (clearBit w k) j = (testBit w j && !decide (k = j)) := by
  simp only [testBit_eq, clearBit, BitVec.getLsbD_and, BitVec.getLsbD_not, BitVec.getLsbD_twoPow]
  by_cases hj : j < n
  · by_cases hjk : k = j
    · subst hjk; simp [hj]
    · simp [hj, hjk]
  · simp [BitVec.getLsbD_of_ge w j (by omega)]

@[simp] theorem testBit_zero (k : Nat) : testBit (0#n) k = false := by simp [testBit]

theorem toNat_and_not {h : Nat} (w m : BitVec n) (hm : m.toNat = 2 ^ h - 1) :
    (w &&& ~~~m).toNat = w.toNat / 2 ^ h * 2 ^ h := by
  apply Nat.eq_of_testBit_eq
  intro i
  rw [BitVec.testBit_toNat, BitVec.getLsbD_and, BitVec.getLsbD_not, ← BitVec.testBit_toNat m, hm,
    Nat.testBit_two_pow_sub_one, Nat.testBit_mul_two_pow, Nat.testBit_div_two_pow,
    BitVec.testBit_toNat]
  by_cases hi : h ≤ i
  · rw [Nat.sub_add_cancel hi]
    by_cases hn : i < n
    · simp [hi, hn]
    · rw [BitVec.getLsbD_of_ge w i (Nat.le_of_not_lt hn), Bool.false_and, Bool.and_false]
  · simp [hi, Nat.lt_of_not_le hi]

end Toolkit
