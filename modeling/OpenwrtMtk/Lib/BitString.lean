import Mathlib.Data.BitVec
import OpenwrtMtk.Lib.Bytes

/-!
# Strings of bytes as strings of bits

The bits of a string of bytes are counted from the most significant bit of its first byte on. Setting
and clearing a bit with a mask changes only that one, and a word that is read from bytes, most
significant byte first, has their bits.
-/

namespace Toolkit

set_option autoImplicit false

variable {xs ys : List U8} {i j k n w : Nat}

def bit (xs : List U8) (i : Nat) : Bool := (xs.getD (i / 8) 0).getMsbD (i % 8)

def bits (xs : List U8) : List Bool := (List.range (8 * xs.length)).map (bit xs)

theorem length_bits (xs : List U8) : (bits xs).length = 8 * xs.length := by
  rw [bits, List.length_map, List.length_range]

theorem getElem?_bits (h : i < 8 * xs.length) : (bits xs)[i]? = some (bit xs i) := by
  rw [bits, List.getElem?_map, List.getElem?_range h]
  rfl

theorem bit_out (h : 8 * xs.length ≤ i) : bit xs i = false := by
  rw [bit, List.getD_eq_getElem?_getD, List.getElem?_eq_none (by omega)]
  exact BitVec.getMsbD_zero

theorem bit_set (h : k < xs.length) (b : U8) (i : Nat) :
    bit (xs.set k b) i = if i / 8 = k then b.getMsbD (i % 8) else bit xs i := by
  rw [bit, bit, List.getD_eq_getElem?_getD, List.getD_eq_getElem?_getD]
  by_cases hi : i / 8 = k
  · rw [if_pos hi, hi, List.getElem?_set_self h, Option.getD_some]
  · rw [if_neg hi, List.getElem?_set_ne (Ne.symm hi)]

section Masks

/-- `128 >> (i & 7)`. -/
def bitMask (i : Nat) : U8 := 128#8 >>> (i % 8)

theorem getMsbD_bitMask (hj : j < 8) : (bitMask i).getMsbD j = decide (i % 8 = j) := by
  have hmasks : ∀ i < 8, ∀ j < 8, (128#8 >>> i).getMsbD j = decide (i = j) := by decide
  exact hmasks (i % 8) (Nat.mod_lt i (by decide)) j hj

/-- `*byte |= mask` or `*byte &= ~mask`. -/
def putBit (b : U8) (i : Nat) (v : Bool) : U8 :=
  if v then b ||| bitMask i else b &&& ~~~bitMask i

theorem getMsbD_putBit (b : U8) (v : Bool) (hj : j < 8) :
    (putBit b i v).getMsbD j = if i % 8 = j then v else b.getMsbD j := by
  rw [putBit]
  cases v with
  | true =>
    rw [if_pos rfl, BitVec.getMsbD_or, getMsbD_bitMask hj]
    by_cases h : i % 8 = j
    · rw [if_pos h, decide_eq_true h, Bool.or_true]
    · rw [if_neg h, decide_eq_false h, Bool.or_false]
  | false =>
    rw [if_neg Bool.false_ne_true, BitVec.getMsbD_and, BitVec.getMsbD_not, getMsbD_bitMask hj]
    by_cases h : i % 8 = j
    · rw [if_pos h, decide_eq_true h, Bool.not_true, Bool.and_false, Bool.and_false]
    · rw [if_neg h, decide_eq_false h, Bool.not_false, decide_eq_true hj, Bool.and_true,
        Bool.and_true]

theorem and_bitMask (b : U8) (i : Nat) : decide (b &&& bitMask i ≠ 0) = b.getMsbD (i % 8) := by
  have hlt : i % 8 < 8 := Nat.mod_lt i (by decide)
  cases hbit : b.getMsbD (i % 8) with
  | true =>
    apply decide_eq_true
    intro hzero
    have hat := congrArg (fun x : U8 => x.getMsbD (i % 8)) hzero
    rw [BitVec.getMsbD_and, hbit, getMsbD_bitMask hlt, decide_eq_true rfl] at hat
    simp at hat
  | false =>
    apply decide_eq_false
    rw [not_not]
    apply BitVec.eq_of_getMsbD_eq
    intro j hj
    rw [BitVec.getMsbD_and, getMsbD_bitMask hj]
    by_cases h : i % 8 = j
    · rw [← h, hbit, Bool.false_and]
      simp
    · rw [decide_eq_false h, Bool.and_false]
      simp

theorem bit_set_putBit (hi : i < 8 * xs.length) (v : Bool) (j : Nat) :
    bit (xs.set (i / 8) (putBit (xs.getD (i / 8) 0) i v)) j = if i = j then v else bit xs j := by
  rw [bit_set (by omega)]
  by_cases hbyte : j / 8 = i / 8
  · rw [if_pos hbyte, getMsbD_putBit _ _ (Nat.mod_lt j (by decide)), bit, hbyte]
    by_cases hij : i = j
    · rw [if_pos (by rw [hij]), if_pos hij]
    · rw [if_neg (by omega), if_neg hij]
  · have hij : i ≠ j := by
      intro h
      exact hbyte (by rw [h])
    rw [if_neg hbyte, if_neg hij]

end Masks

section Parts

theorem bit_append (xs ys : List U8) (i : Nat) :
    bit (xs ++ ys) i = if i < 8 * xs.length then bit xs i else bit ys (i - 8 * xs.length) := by
  rw [bit, bit, bit, List.getD_eq_getElem?_getD, List.getD_eq_getElem?_getD, List.getD_eq_getElem?_getD]
  by_cases h : i < 8 * xs.length
  · rw [if_pos h, List.getElem?_append_left (by omega)]
  · have hdiv : i / 8 - xs.length = (i - 8 * xs.length) / 8 := by omega
    have hmod : i % 8 = (i - 8 * xs.length) % 8 := by omega
    rw [if_neg h, List.getElem?_append_right (by omega), hdiv, hmod]

theorem bit_slice (xs : List U8) (off n : Nat) (h : i < 8 * n) :
    bit (slice xs off n) i = bit xs (8 * off + i) := by
  have hdiv : (8 * off + i) / 8 = off + i / 8 := by omega
  have hmod : (8 * off + i) % 8 = i % 8 := by omega
  rw [bit, bit, List.getD_eq_getElem?_getD, List.getD_eq_getElem?_getD, getElem?_slice,
    if_pos (by omega), hdiv, hmod]

theorem bit_overwrite {off : Nat} (h : off + ys.length ≤ xs.length) (i : Nat) :
    bit (overwrite xs off ys) i =
      if 8 * off ≤ i ∧ i < 8 * (off + ys.length) then bit ys (i - 8 * off) else bit xs i := by
  rw [bit, bit, bit, List.getD_eq_getElem?_getD, List.getD_eq_getElem?_getD,
    List.getD_eq_getElem?_getD, getElem?_overwrite h]
  by_cases hin : 8 * off ≤ i ∧ i < 8 * (off + ys.length)
  · have hdiv : i / 8 - off = (i - 8 * off) / 8 := by omega
    have hmod : i % 8 = (i - 8 * off) % 8 := by omega
    rw [if_pos hin, if_pos (by omega), hdiv, hmod]
  · rw [if_neg hin, if_neg (by omega)]

theorem bit_replicate_zero (n i : Nat) : bit (List.replicate n 0) i = false := by
  rw [bit, List.getD_eq_getElem?_getD, List.getElem?_replicate]
  split
  · exact BitVec.getMsbD_zero
  · exact BitVec.getMsbD_zero

end Parts

section Words

/-- A word of `w` bits from its bytes, the most significant one first. -/
def beWord (w : Nat) (bs : List U8) : BitVec w :=
  bs.foldl (fun x b => (x <<< 8) ||| b.setWidth w) 0

/-- The lowest `n` bytes of a word, the most significant one first. -/
def beBytes (n : Nat) (x : BitVec w) : List U8 :=
  (List.range n).map fun k => (x >>> (8 * (n - 1 - k))).setWidth 8

theorem length_beBytes (n : Nat) (x : BitVec w) : (beBytes n x).length = n := by
  rw [beBytes, List.length_map, List.length_range]

theorem getLsbD_beWord (h : 8 * xs.length ≤ w) (j : Nat) :
    (beWord w xs).getLsbD j = (decide (j < 8 * xs.length) && bit xs (8 * xs.length - 1 - j)) := by
  induction xs using List.reverseRecOn generalizing j with
  | nil =>
    rw [beWord, List.foldl_nil]
    simp
  | append_singleton xs b ih =>
    rw [List.length_append, List.length_singleton] at h ⊢
    rw [beWord, List.foldl_append, List.foldl_cons, List.foldl_nil, ← beWord, BitVec.getLsbD_or,
      BitVec.getLsbD_shiftLeft, BitVec.getLsbD_setWidth, ih (by omega), bit_append]
    by_cases hlow : j < 8
    · have hindex : 8 * (xs.length + 1) - 1 - j - 8 * xs.length = 7 - j := by omega
      have hbyte : bit [b] (7 - j) = b.getLsbD j := by
        have hdiv : (7 - j) / 8 = 0 := by omega
        have hmod : (7 - j) % 8 = 7 - j := by omega
        rw [bit, hdiv, hmod, List.getD_cons_zero, BitVec.getMsbD_eq_getLsbD,
          decide_eq_true (by omega), Bool.true_and]
        congr 1
        omega
      rw [if_neg (by omega), hindex, hbyte, decide_eq_true hlow, decide_eq_true (by omega : j < w),
        decide_eq_true (by omega : j < 8 * (xs.length + 1))]
      simp
    · have hindex : 8 * (xs.length + 1) - 1 - j = 8 * xs.length - 1 - (j - 8) := by omega
      rw [BitVec.getLsbD_of_ge b j (by omega), Bool.and_false, Bool.or_false, decide_eq_false hlow,
        Bool.not_false, Bool.and_true, hindex]
      by_cases hin : j < 8 * (xs.length + 1)
      · rw [if_pos (by omega), decide_eq_true hin, decide_eq_true (by omega : j < w),
          decide_eq_true (by omega : j - 8 < 8 * xs.length), Bool.true_and]
      · rw [decide_eq_false hin, decide_eq_false (by omega : ¬j - 8 < 8 * xs.length), Bool.false_and,
          Bool.false_and, Bool.and_false]

theorem getMsbD_beWord (h : w = 8 * xs.length) (i : Nat) : (beWord w xs).getMsbD i = bit xs i := by
  rw [BitVec.getMsbD_eq_getLsbD, getLsbD_beWord (by omega)]
  by_cases hi : i < w
  · have hindex : 8 * xs.length - 1 - (w - 1 - i) = i := by omega
    rw [decide_eq_true hi, decide_eq_true (by omega : w - 1 - i < 8 * xs.length), hindex,
      Bool.true_and, Bool.true_and]
  · rw [decide_eq_false hi, Bool.false_and, bit_out (by omega)]

theorem bit_beBytes (x : BitVec w) (h : w = 8 * n) (i : Nat) :
    bit (beBytes n x) i = x.getMsbD i := by
  by_cases hi : i < 8 * n
  · have hindex : i % 8 + w - 8 - 8 * (n - 1 - i / 8) = i := by omega
    rw [bit, List.getD_eq_getElem?_getD, beBytes, List.getElem?_map,
      List.getElem?_range (by omega), Option.map_some, Option.getD_some, BitVec.getMsbD_setWidth,
      BitVec.getMsbD_ushiftRight, hindex, decide_eq_true (by omega : 8 - w ≤ i % 8),
      decide_eq_true (by omega : i % 8 + w - 8 < w),
      decide_eq_false (by omega : ¬i % 8 + w - 8 < 8 * (n - 1 - i / 8))]
    simp
  · rw [bit_out (by rw [length_beBytes]; omega), BitVec.getMsbD_of_ge x i (by omega)]

end Words

end Toolkit
