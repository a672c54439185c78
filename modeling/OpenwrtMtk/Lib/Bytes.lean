import Mathlib.Algebra.Group.Int.Defs
import Mathlib.Algebra.Group.Nat.Defs
import Mathlib.Data.List.Basic

/-!
# Byte buffers

A buffer is the list of its bytes. `slice` reads a range, `overwrite` replaces one, and what
a read sees after a write is a matter of two ranges: the same, disjoint, or one inside the
other. `cstr` reads the string that ends at the first zero byte.
-/

namespace Toolkit

set_option autoImplicit false

abbrev U8 := BitVec 8
abbrev U16 := BitVec 16
abbrev U32 := BitVec 32

universe u

/-- Whether a word is in a list, without a proof of the laws of its equality in the term. -/
instance decidableMemWords {w : Nat} (x : BitVec w) (xs : List (BitVec w)) : Decidable (x ∈ xs) :=
  List.instDecidableMemOfLawfulBEq x xs

section Ranges

variable {α : Type u} {xs ys bs : List α} {off n i k : Nat}

def slice (xs : List α) (off n : Nat) : List α := (xs.drop off).take n

/-- The buffer with the bytes at `off` replaced by `bs`. -/
def overwrite (xs : List α) (off : Nat) (bs : List α) : List α :=
  xs.take off ++ bs ++ xs.drop (off + bs.length)

theorem getElem?_slice (xs : List α) (off n k : Nat) :
    (slice xs off n)[k]? = if k < n then xs[off + k]? else none := by
  unfold slice
  by_cases hk : k < n
  · rw [if_pos hk, List.getElem?_take_of_lt hk, List.getElem?_drop]
  · rw [if_neg hk]
    apply List.getElem?_eq_none
    rw [List.length_take]
    omega

theorem length_slice (h : off + n ≤ xs.length) : (slice xs off n).length = n := by
  rw [slice, List.length_take, List.length_drop]
  omega

theorem slice_eq_of_getElem? (h : ∀ k, k < n → xs[off + k]? = ys[i + k]?) :
    slice xs off n = slice ys i n := by
  apply List.ext_getElem?
  intro k
  rw [getElem?_slice, getElem?_slice]
  split
  · exact h k ‹_›
  · rfl

theorem drop_eq_slice_append (xs : List α) (off n : Nat) :
    xs.drop off = slice xs off n ++ xs.drop (off + n) := by
  rw [slice, ← List.drop_drop, List.take_append_drop]

theorem length_overwrite (h : off + bs.length ≤ xs.length) :
    (overwrite xs off bs).length = xs.length := by
  simp only [overwrite, List.length_append, List.length_take, List.length_drop]
  omega

theorem getElem?_overwrite (h : off + bs.length ≤ xs.length) (k : Nat) :
    (overwrite xs off bs)[k]? =
      if off ≤ k ∧ k < off + bs.length then bs[k - off]? else xs[k]? := by
  have hlen : (xs.take off).length = off := by
    rw [List.length_take]
    omega
  unfold overwrite
  by_cases hlow : k < off
  · rw [if_neg (by omega), List.append_assoc, List.getElem?_append_left (by omega),
      List.getElem?_take_of_lt hlow]
  · rw [List.append_assoc, List.getElem?_append_right (by omega), hlen]
    by_cases hin : k < off + bs.length
    · rw [if_pos ⟨by omega, hin⟩, List.getElem?_append_left (by omega)]
    · rw [if_neg (by omega), List.getElem?_append_right (by omega), List.getElem?_drop]
      congr 1
      omega

theorem getElem?_overwrite_out (h : off + bs.length ≤ xs.length)
    (hk : k < off ∨ off + bs.length ≤ k) : (overwrite xs off bs)[k]? = xs[k]? := by
  rw [getElem?_overwrite h, if_neg (by omega)]

theorem getElem?_overwrite_in (h : off + bs.length ≤ xs.length) (hk : k < bs.length) :
    (overwrite xs off bs)[off + k]? = bs[k]? := by
  rw [getElem?_overwrite h, if_pos (by omega)]
  congr 1
  omega

theorem slice_overwrite_self (h : off + bs.length ≤ xs.length) :
    slice (overwrite xs off bs) off bs.length = bs := by
  apply List.ext_getElem?
  intro k
  rw [getElem?_slice]
  split
  · exact getElem?_overwrite_in h ‹_›
  · rw [List.getElem?_eq_none]
    omega

theorem slice_overwrite_disjoint (h : off + bs.length ≤ xs.length)
    (hd : i + n ≤ off ∨ off + bs.length ≤ i) :
    slice (overwrite xs off bs) i n = slice xs i n := by
  apply slice_eq_of_getElem?
  intro k hk
  exact getElem?_overwrite_out h (by omega)

theorem slice_overwrite_front (h : off + bs.length ≤ xs.length) (n : Nat) :
    slice (overwrite xs off bs) off n = (bs ++ (slice xs off n).drop bs.length).take n := by
  apply List.ext_getElem?
  intro k
  rw [getElem?_slice, List.getElem?_take]
  by_cases hk : k < n
  · rw [if_pos hk, if_pos hk]
    by_cases hin : k < bs.length
    · rw [getElem?_overwrite_in h hin, List.getElem?_append_left hin]
    · rw [getElem?_overwrite_out h (by omega), List.getElem?_append_right (by omega),
        List.getElem?_drop, getElem?_slice, if_pos (by omega)]
      congr 1
      omega
  · rw [if_neg hk, if_neg hk]

theorem slice_add (xs : List α) (off m n : Nat) :
    slice xs off (m + n) = slice xs off m ++ slice xs (off + m) n := by
  rw [slice, slice, slice, List.take_add, List.drop_drop]

theorem slice_append_left (ys : List α) (h : off + n ≤ xs.length) :
    slice (xs ++ ys) off n = slice xs off n := by
  apply slice_eq_of_getElem?
  intro k hk
  rw [List.getElem?_append_left (by omega)]

theorem set_eq_overwrite (x : α) (h : off < xs.length) : xs.set off x = overwrite xs off [x] := by
  rw [List.set_eq_take_append_cons_drop, if_pos h, overwrite, List.append_assoc]
  rfl

theorem drop_slice (xs : List α) (off n k : Nat) :
    (slice xs off n).drop k = slice xs (off + k) (n - k) := by
  rw [slice, slice, List.drop_take, List.drop_drop]

theorem overwrite_append_left (ys : List α) (h : off + bs.length ≤ xs.length) :
    overwrite (xs ++ ys) off bs = overwrite xs off bs ++ ys := by
  unfold overwrite
  rw [List.take_append_of_le_length (by omega), List.drop_append_of_le_length h,
    List.append_assoc, List.append_assoc, List.append_assoc]

theorem overwrite_middle (xs ys zs : List α) (h : bs.length = ys.length) :
    overwrite (xs ++ ys ++ zs) xs.length bs = xs ++ bs ++ zs := by
  unfold overwrite
  rw [List.append_assoc xs, List.take_left, h, ← List.length_append, ← List.append_assoc,
    List.drop_left]

theorem overwrite_append (bs cs : List α) (h : off + bs.length + cs.length ≤ xs.length) :
    overwrite (overwrite xs off bs) (off + bs.length) cs = overwrite xs off (bs ++ cs) := by
  have hbs : off + bs.length ≤ xs.length := by omega
  apply List.ext_getElem?
  intro k
  rw [getElem?_overwrite (by rw [length_overwrite hbs]; omega), getElem?_overwrite hbs,
    getElem?_overwrite (by simpa [Nat.add_assoc] using h)]
  simp only [List.length_append]
  by_cases hin : off ≤ k ∧ k < off + bs.length
  · rw [if_neg (by omega), if_pos hin, if_pos (by omega), List.getElem?_append_left (by omega)]
  · by_cases hcs : off + bs.length ≤ k ∧ k < off + bs.length + cs.length
    · rw [if_pos hcs, if_pos (by omega), List.getElem?_append_right (by omega)]
      congr 1
      omega
    · rw [if_neg hcs, if_neg hin, if_neg (by omega)]

theorem overwrite_overwrite {cs : List α} (h : off + bs.length ≤ xs.length)
    (hlen : cs.length = bs.length) : overwrite (overwrite xs off bs) off cs = overwrite xs off cs := by
  apply List.ext_getElem?
  intro k
  rw [getElem?_overwrite (by rw [length_overwrite h]; omega), getElem?_overwrite h,
    getElem?_overwrite (by omega)]
  split
  · rfl
  · rw [if_neg (by omega)]

theorem overwrite_comm {cs : List α} (h : off + bs.length ≤ xs.length)
    (hcs : i + cs.length ≤ xs.length) (hd : i + cs.length ≤ off ∨ off + bs.length ≤ i) :
    overwrite (overwrite xs off bs) i cs = overwrite (overwrite xs i cs) off bs := by
  have hsecond : i + cs.length ≤ (overwrite xs off bs).length := by rwa [length_overwrite h]
  have hsecond' : off + bs.length ≤ (overwrite xs i cs).length := by rwa [length_overwrite hcs]
  apply List.ext_getElem?
  intro k
  rw [getElem?_overwrite hsecond, getElem?_overwrite hsecond', getElem?_overwrite h,
    getElem?_overwrite hcs]
  by_cases hk : off ≤ k ∧ k < off + bs.length
  · rw [if_neg (by omega : ¬ (i ≤ k ∧ k < i + cs.length)), if_pos hk, if_pos hk]
  · rw [if_neg hk, if_neg hk]

theorem overwrite_overwrite_slice (h : off + n ≤ xs.length) (hin : i + bs.length ≤ n) :
    overwrite xs off (overwrite (slice xs off n) i bs) = overwrite xs (off + i) bs := by
  have hlen : (slice xs off n).length = n := length_slice h
  have hpiece : i + bs.length ≤ (slice xs off n).length := by omega
  have hlen' := length_overwrite hpiece
  have hall : off + (overwrite (slice xs off n) i bs).length ≤ xs.length := by omega
  have hpart : off + i + bs.length ≤ xs.length := by omega
  apply List.ext_getElem?
  intro k
  rw [getElem?_overwrite hall, getElem?_overwrite hpart, hlen', hlen]
  by_cases hk : off ≤ k ∧ k < off + n
  · have hin : k - off < n := by omega
    rw [if_pos hk, getElem?_overwrite hpiece, getElem?_slice, if_pos hin, Nat.add_sub_cancel' hk.1]
    have hiff : (i ≤ k - off ∧ k - off < i + bs.length) ↔
        (off + i ≤ k ∧ k < off + i + bs.length) := by omega
    simp only [hiff, Nat.sub_sub]
  · rw [if_neg hk, if_neg (by omega)]

end Ranges

section Strings

variable {s : List U8}

/-- The C string at the front of a buffer: the bytes before the first zero; `none` when there is
no zero byte. -/
def cstr : List U8 → Option (List U8)
  | [] => none
  | c :: s => if c = 0 then some [] else (cstr s).map (c :: ·)

theorem cstr_append (rest : List U8) (hs : 0 ∉ s) : cstr (s ++ 0 :: rest) = some s := by
  induction s with
  | nil => simp [cstr]
  | cons c s ih =>
    simp only [List.mem_cons, not_or] at hs
    rw [List.cons_append, cstr, if_neg (Ne.symm hs.1), ih hs.2]
    rfl

theorem cstr_eq_some {xs : List U8} (h : cstr xs = some s) : 0 ∉ s ∧ ∃ rest, xs = s ++ 0 :: rest := by
  induction xs generalizing s with
  | nil => cases h
  | cons c xs ih =>
    rw [cstr] at h
    split at h
    · rename_i hc
      subst hc
      cases h
      exact ⟨by simp, xs, rfl⟩
    · rename_i hc
      obtain ⟨t, ht, rfl⟩ := Option.map_eq_some_iff.mp h
      obtain ⟨hzero, rest, rfl⟩ := ih ht
      exact ⟨List.not_mem_cons_of_ne_of_not_mem (Ne.symm hc) hzero, rest, rfl⟩

/-- Cut at the first byte `c`; `none` when there is none. -/
def splitFirst (c : U8) : List U8 → Option (List U8 × List U8)
  | [] => none
  | b :: s => if b = c then some ([], s) else (splitFirst c s).map fun r => (b :: r.1, r.2)

theorem splitFirst_append {c : U8} (rest : List U8) (hs : c ∉ s) :
    splitFirst c (s ++ c :: rest) = some (s, rest) := by
  induction s with
  | nil => simp [splitFirst]
  | cons b s ih =>
    simp only [List.mem_cons, not_or] at hs
    rw [List.cons_append, splitFirst, if_neg (Ne.symm hs.1), ih hs.2]
    rfl

theorem splitFirst_eq_some {c : U8} {name value : List U8}
    (h : splitFirst c s = some (name, value)) : s = name ++ c :: value ∧ c ∉ name := by
  induction s generalizing name with
  | nil => cases h
  | cons b s ih =>
    rw [splitFirst] at h
    split at h
    · rename_i hb
      cases h
      exact ⟨congrArg (· :: value) hb, List.not_mem_nil⟩
    · rename_i hb
      obtain ⟨⟨pre, rest⟩, hsplit, heq⟩ := Option.map_eq_some_iff.mp h
      cases heq
      obtain ⟨rfl, hpre⟩ := ih hsplit
      exact ⟨rfl, List.not_mem_cons_of_ne_of_not_mem (Ne.symm hb) hpre⟩

theorem splitFirst_eq_none {c : U8} (h : splitFirst c s = none) : c ∉ s := by
  induction s with
  | nil => exact List.not_mem_nil
  | cons b s ih =>
    rw [splitFirst] at h
    split at h
    · cases h
    · rename_i hb
      exact List.not_mem_cons_of_ne_of_not_mem (Ne.symm hb) (ih (Option.map_eq_none_iff.mp h))

theorem splitFirst_of_not_mem {c : U8} (h : c ∉ s) : splitFirst c s = none := by
  cases hsplit : splitFirst c s with
  | none => rfl
  | some r =>
    obtain ⟨rfl, -⟩ := splitFirst_eq_some hsplit
    exact absurd (List.mem_append_right _ List.mem_cons_self) h

end Strings

end Toolkit

/-!
## Words and their bytes

The bytes of a word, the highest first, and the word they make.
-/

namespace Toolkit

set_option autoImplicit false

def be16 (w : U16) : List U8 := [(w >>> 8).setWidth 8, w.setWidth 8]

def be32 (w : U32) : List U8 :=
  [(w >>> 24).setWidth 8, (w >>> 16).setWidth 8, (w >>> 8).setWidth 8, w.setWidth 8]

@[simp] theorem length_be16 (w : U16) : (be16 w).length = 2 := rfl

@[simp] theorem length_be32 (w : U32) : (be32 w).length = 4 := rfl

theorem append_bytes16 (w : U16) : (w >>> 8).setWidth 8 ++ w.setWidth 8 = w := by
  apply BitVec.eq_of_getLsbD_eq
  intro i hi
  simp only [BitVec.getLsbD_append, BitVec.getLsbD_setWidth, BitVec.getLsbD_ushiftRight]
  by_cases h1 : i < 8
  · simp [h1]
  · have he : 8 + (i - 8) = i := by omega
    have h2 : i - 8 < 8 := by omega
    simp [h1, h2, he]

theorem append_bytes32 (w : U32) :
    (w >>> 24).setWidth 8 ++ (w >>> 16).setWidth 8 ++ (w >>> 8).setWidth 8 ++ w.setWidth 8 = w := by
  apply BitVec.eq_of_getLsbD_eq
  intro i hi
  simp only [BitVec.getLsbD_append, BitVec.getLsbD_setWidth, BitVec.getLsbD_ushiftRight]
  by_cases h1 : i < 8
  · simp [h1]
  · by_cases h2 : i - 8 < 8
    · have he : 8 + (i - 8) = i := by omega
      simp [h1, h2, he]
    · by_cases h3 : i - 8 - 8 < 8
      · have he : 16 + (i - 8 - 8) = i := by omega
        simp [h1, h2, h3, he]
      · have he : 24 + (i - 8 - 8 - 8) = i := by omega
        have h4 : i - 8 - 8 - 8 < 8 := by omega
        simp [h1, h2, h3, h4, he]

end Toolkit
