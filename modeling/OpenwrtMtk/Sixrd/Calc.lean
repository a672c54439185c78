import OpenwrtMtk.Lib.BitString
import OpenwrtMtk.Lib.Checked
import OpenwrtMtk.Lib.Field

/-!
# 6rd prefixes

How `6rdcalc` puts the bits of an IPv4 address behind an IPv6 prefix. The addresses are their bytes in
memory; the lengths are those that `parse_str` has read, and the turns of a loop are counted down.
-/

namespace OpenwrtMtk.Sixrd

open Toolkit

set_option autoImplicit false

def combine (v4 : List U8) : Nat → Nat → Nat → List U8 → Checked (List U8)
  | 0, _, _, v6 => return v6
  | n + 1, v4it, v6it, v6 => do
    let byte6 ← loadByte v6 (v6it / 8)
    let byte4 ← loadByte v4 (v4it / 8)
    let byte6 := if byte4 &&& bitMask v4it ≠ 0 then byte6 ||| bitMask v6it
      else byte6 &&& ~~~bitMask v6it
    let v6 ← store v6 (v6it / 8) [byte6]
    combine v4 n (v4it + 1) (v6it + 1) v6

def clearRest : Nat → Nat → List U8 → Checked (List U8)
  | 0, _, v6 => return v6
  | n + 1, v6it, v6 => do
    let byte6 ← loadByte v6 (v6it / 8)
    let v6 ← store v6 (v6it / 8) [byte6 &&& ~~~bitMask v6it]
    clearRest n (v6it + 1) v6

/-- What `main` prints, an address and its length; `none` is a call of `print_usage`. -/
def sixrd (v6 : List U8) (v6it : Nat) (v4 : List U8) (v4it : Nat) :
    Checked (Option (List U8 × Nat)) :=
  if 128 < v6it ∨ 32 < v4it then return none
  else
    let mask := (32 - v4it) + v6it
    if 128 < mask then return none
    else do
      let v6 ← combine v4 (32 - v4it) v4it v6it v6
      let v6 ← clearRest (128 - mask) mask v6
      return some (v6, mask)

section Loops

variable {v4 v6 : List U8} {n v4it v6it : Nat}

theorem store_byte {k : Nat} (h : k < v6.length) (b : U8) : store v6 k [b] = .ok (v6.set k b) := by
  rw [store_ok (by rw [List.length_singleton]; omega), set_eq_overwrite b h]

theorem combine_bits (h4 : v4it + n ≤ 8 * v4.length) (h6 : v6it + n ≤ 8 * v6.length) :
    ∃ x, combine v4 n v4it v6it v6 = .ok x ∧ x.length = v6.length ∧
      ∀ i, bit x i = if v6it ≤ i ∧ i < v6it + n then bit v4 (v4it + (i - v6it)) else bit v6 i := by
  induction n generalizing v4it v6it v6 with
  | zero =>
    refine ⟨v6, rfl, rfl, ?_⟩
    intro i
    rw [if_neg (by omega)]
  | succ n ih =>
    have hput : (if v4.getD (v4it / 8) 0 &&& bitMask v4it ≠ 0 then v6.getD (v6it / 8) 0 ||| bitMask v6it
        else v6.getD (v6it / 8) 0 &&& ~~~bitMask v6it) =
        putBit (v6.getD (v6it / 8) 0) v6it (bit v4 v4it) := by
      rw [putBit, bit, ← and_bitMask]
      by_cases hzero : v4.getD (v4it / 8) 0 &&& bitMask v4it ≠ 0
      · rw [if_pos hzero, decide_eq_true hzero, if_pos rfl]
      · rw [if_neg hzero, decide_eq_false hzero, if_neg Bool.false_ne_true]
    have hlen : (v6.set (v6it / 8) (putBit (v6.getD (v6it / 8) 0) v6it (bit v4 v4it))).length =
        v6.length := List.length_set
    obtain ⟨x, hx, hxlen, hbits⟩ := @ih (v6.set (v6it / 8) (putBit (v6.getD (v6it / 8) 0) v6it
      (bit v4 v4it))) (v4it + 1) (v6it + 1) (by omega) (by rw [hlen]; omega)
    refine ⟨x, ?_, hxlen.trans hlen, ?_⟩
    · rw [combine, bind_ok (loadByte_ok (by omega)), bind_ok (loadByte_ok (by omega))]
      dsimp only
      rw [hput, store_byte (by omega)]
      exact hx
    · intro i
      rw [hbits, bit_set_putBit (by omega)]
      by_cases hfirst : v6it = i
      · rw [if_neg (by omega), if_pos hfirst, if_pos (by omega), ← hfirst, Nat.sub_self, Nat.add_zero]
      · by_cases hin : v6it ≤ i ∧ i < v6it + (n + 1)
        · have hindex : v4it + 1 + (i - (v6it + 1)) = v4it + (i - v6it) := by omega
          rw [if_pos (by omega), if_pos hin, hindex]
        · rw [if_neg (by omega), if_neg hfirst, if_neg hin]

theorem clearRest_bits (h : v6it + n ≤ 8 * v6.length) :
    ∃ x, clearRest n v6it v6 = .ok x ∧ x.length = v6.length ∧
      ∀ i, bit x i = if v6it ≤ i ∧ i < v6it + n then false else bit v6 i := by
  induction n generalizing v6it v6 with
  | zero =>
    refine ⟨v6, rfl, rfl, ?_⟩
    intro i
    rw [if_neg (by omega)]
  | succ n ih =>
    have hlen : (v6.set (v6it / 8) (putBit (v6.getD (v6it / 8) 0) v6it false)).length = v6.length :=
      List.length_set
    obtain ⟨x, hx, hxlen, hbits⟩ := @ih (v6.set (v6it / 8) (putBit (v6.getD (v6it / 8) 0) v6it
      false)) (v6it + 1) (by rw [hlen]; omega)
    refine ⟨x, ?_, hxlen.trans hlen, ?_⟩
    · rw [clearRest, bind_ok (loadByte_ok (by omega))]
      change (store v6 (v6it / 8) [putBit (v6.getD (v6it / 8) 0) v6it false] >>= _) = _
      rw [store_byte (by omega)]
      exact hx
    · intro i
      rw [hbits, bit_set_putBit (by omega)]
      by_cases hfirst : v6it = i
      · rw [if_neg (by omega), if_pos hfirst, if_pos (by omega)]
      · by_cases hin : v6it ≤ i ∧ i < v6it + (n + 1)
        · rw [if_pos (by omega), if_pos hin]
        · rw [if_neg (by omega), if_neg hfirst, if_neg hin]

end Loops

/-- The prefix, the low bits of the IPv4 address, and zeros. -/
theorem sixrd_prefix (v6 : Bytes 16) (v4 : Bytes 4) {m6 m4 : Nat} (h6 : m6 ≤ 128) (h4 : m4 ≤ 32)
    (hsum : m6 + 32 - m4 ≤ 128) :
    ∃ x, sixrd v6.val m6 v4.val m4 = .ok (some (x, m6 + 32 - m4)) ∧
      bits x = (bits v6.val).take m6 ++ (bits v4.val).drop m4 ++
        List.replicate (128 - (m6 + 32 - m4)) false := by
  have hlen6 := v6.property
  have hlen4 := v4.property
  obtain ⟨y, hy, hylen, hybits⟩ := @combine_bits v4.val v6.val (32 - m4) m4 m6 (by omega) (by omega)
  obtain ⟨x, hx, hxlen, hxbits⟩ := @clearRest_bits y (128 - (32 - m4 + m6)) (32 - m4 + m6) (by omega)
  have hmask : 32 - m4 + m6 = m6 + 32 - m4 := by omega
  refine ⟨x, ?_, ?_⟩
  · rw [sixrd, if_neg (by omega)]
    dsimp only
    rw [if_neg (by omega), bind_ok hy, bind_ok hx, hmask]
    rfl
  · have htake : ((bits v6.val).take m6).length = m6 := by
      rw [List.length_take, length_bits]
      omega
    have hdrop : ((bits v4.val).drop m4).length = 32 - m4 := by
      rw [List.length_drop, length_bits]
      omega
    apply List.ext_getElem?
    intro i
    by_cases hi : i < 128
    · rw [getElem?_bits (by omega), hxbits, hybits]
      rcases Nat.lt_or_ge i m6 with hfront | hfront
      · rw [if_neg (by omega), if_neg (by omega), List.append_assoc,
          List.getElem?_append_left (by omega), List.getElem?_take_of_lt hfront,
          getElem?_bits (by omega)]
      · rcases Nat.lt_or_ge i (m6 + (32 - m4)) with hmiddle | hmiddle
        · rw [if_neg (by omega), if_pos ⟨hfront, hmiddle⟩, List.append_assoc,
            List.getElem?_append_right (by omega), List.getElem?_append_left (by omega), htake,
            List.getElem?_drop, getElem?_bits (by omega)]
        · rw [if_pos (by omega), List.getElem?_append_right (by rw [List.length_append]; omega),
            List.getElem?_replicate_of_lt (by rw [List.length_append]; omega)]
    · rw [List.getElem?_eq_none (by rw [length_bits]; omega), List.getElem?_eq_none (by
        rw [List.length_append, List.length_append, List.length_replicate]; omega)]

/-- 2001:db8::/32 and 10.1.2.3/8. -/
theorem sixrd_prefix_ten : ∃ x,
    sixrd ([0x20, 0x01, 0x0d, 0xb8] ++ List.replicate 12 0) 32 [10, 1, 2, 3] 8 = .ok (some (x, 56)) ∧
      bits x = (bits ([0x20, 0x01, 0x0d, 0xb8] ++ List.replicate 12 0)).take 32 ++
        (bits [10, 1, 2, 3]).drop 8 ++ List.replicate 72 false :=
  sixrd_prefix ⟨[0x20, 0x01, 0x0d, 0xb8] ++ List.replicate 12 0, rfl⟩ ⟨[10, 1, 2, 3], rfl⟩
    (by decide) (by decide) (by decide)

end OpenwrtMtk.Sixrd
