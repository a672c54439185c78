import Mathlib.Algebra.Order.Ring.Int
import Mathlib.Order.Bounds.Basic
import Mathlib.Tactic.Ring

/-!
# Numbers as words, and blocks of numbers

The value of words of `k` bits, the most significant first. A block is the set of the numbers that
agree but for the low `k` bits: it has a least and a greatest number, and the words of these come
from the words of any member by clearing or by filling all bits behind the first `p`.
-/

namespace Toolkit

set_option autoImplicit false

section Blocks

variable {j k : Nat} {x y z : Int}

/-- The numbers that agree with `x` but for the low `k` bits. -/
def block (k : Nat) (x : Int) : Set Int := {y | y / 2 ^ k = x / 2 ^ k}

theorem mem_block_self (k : Nat) (x : Int) : x ∈ block k x := rfl

theorem two_pow_pos (k : Nat) : (0 : Int) < 2 ^ k := Int.pow_pos (by decide)

theorem mem_block_iff : y ∈ block k x ↔ x / 2 ^ k * 2 ^ k ≤ y ∧ y < x / 2 ^ k * 2 ^ k + 2 ^ k := by
  have hpos := two_pow_pos k
  have hlow : x / 2 ^ k ≤ y / 2 ^ k ↔ x / 2 ^ k * 2 ^ k ≤ y := Int.le_ediv_iff_mul_le hpos
  have hhigh : y / 2 ^ k < x / 2 ^ k + 1 ↔ y < (x / 2 ^ k + 1) * 2 ^ k :=
    Int.ediv_lt_iff_lt_mul hpos
  rw [Int.add_mul, Int.one_mul] at hhigh
  rw [← hlow, ← hhigh]
  change y / 2 ^ k = x / 2 ^ k ↔ _
  omega

theorem isLeast_block (k : Nat) (x : Int) : IsLeast (block k x) (x / 2 ^ k * 2 ^ k) := by
  have hpos := two_pow_pos k
  constructor
  · exact mem_block_iff.mpr ⟨le_refl _, by omega⟩
  · intro y hy
    exact (mem_block_iff.mp hy).1

theorem isGreatest_block (k : Nat) (x : Int) :
    IsGreatest (block k x) (x / 2 ^ k * 2 ^ k + 2 ^ k - 1) := by
  have hpos := two_pow_pos k
  constructor
  · exact mem_block_iff.mpr (by omega)
  · intro y hy
    have hhigh := (mem_block_iff.mp hy).2
    omega

theorem ediv_of_agree (hjk : j ≤ k) (h : z / 2 ^ j = y / 2 ^ j) : z / 2 ^ k = y / 2 ^ k := by
  obtain ⟨i, rfl⟩ := Nat.exists_eq_add_of_le hjk
  have hpos := two_pow_pos j
  rw [pow_add, ← Int.ediv_ediv_of_nonneg hpos.le, ← Int.ediv_ediv_of_nonneg hpos.le, h]

theorem block_subset_iff : block j y ⊆ block k x ↔ j ≤ k ∧ y / 2 ^ k = x / 2 ^ k := by
  constructor
  · intro h
    refine ⟨?_, h (mem_block_self j y)⟩
    by_contra hlt
    have hlow := mem_block_iff.mp (h (isLeast_block j y).1)
    have hhigh := mem_block_iff.mp (h (isGreatest_block j y).1)
    have hwide : (2 : Int) ^ k < 2 ^ j := pow_lt_pow_right₀ (by decide) (by omega)
    omega
  · rintro ⟨hjk, heq⟩ z hz
    exact (ediv_of_agree hjk hz).trans heq

end Blocks

section Words

variable {k p : Nat} {w : Int} {ws vs : List Int}

def wordsValue (k : Nat) : List Int → Int
  | [] => 0
  | w :: ws => w * 2 ^ (k * ws.length) + wordsValue k ws

def InWords (k : Nat) (ws : List Int) : Prop := ∀ w ∈ ws, 0 ≤ w ∧ w < 2 ^ k

theorem inWords_cons : InWords k (w :: ws) ↔ (0 ≤ w ∧ w < 2 ^ k) ∧ InWords k ws :=
  List.forall_mem_cons

theorem wordsValue_range (h : InWords k ws) :
    0 ≤ wordsValue k ws ∧ wordsValue k ws < 2 ^ (k * ws.length) := by
  induction ws with
  | nil => exact ⟨le_refl _, two_pow_pos _⟩
  | cons w ws ih =>
    obtain ⟨⟨hlow, hhigh⟩, hws⟩ := inWords_cons.mp h
    obtain ⟨ihlow, ihhigh⟩ := ih hws
    have hpos := two_pow_pos (k * ws.length)
    have hprod : (w + 1) * 2 ^ (k * ws.length) ≤ 2 ^ k * 2 ^ (k * ws.length) :=
      Int.mul_le_mul_of_nonneg_right hhigh hpos.le
    have hnonneg : 0 ≤ w * 2 ^ (k * ws.length) := Int.mul_nonneg hlow hpos.le
    rw [Int.add_mul, Int.one_mul] at hprod
    rw [wordsValue, List.length_cons, Nat.mul_succ, Nat.add_comm, pow_add]
    omega

theorem wordsValue_append (us vs : List Int) : wordsValue k (us ++ vs) =
    wordsValue k us * 2 ^ (k * vs.length) + wordsValue k vs := by
  induction us with
  | nil => rw [List.nil_append, wordsValue, Int.zero_mul, Int.zero_add]
  | cons u us ih =>
    rw [List.cons_append, wordsValue, ih, wordsValue, List.length_append, Nat.mul_add, pow_add]
    ring

theorem wordsValue_concat (ws : List Int) (w : Int) :
    wordsValue k (ws ++ [w]) = wordsValue k ws * 2 ^ k + w := by
  rw [wordsValue_append, wordsValue, wordsValue, List.length_singleton, List.length_nil,
    Nat.mul_one, Nat.mul_zero, pow_zero, Int.mul_one, Int.add_zero]

theorem wordsValue_inj (hws : InWords k ws) (hvs : InWords k vs) (hlen : ws.length = vs.length)
    (h : wordsValue k ws = wordsValue k vs) : ws = vs := by
  induction ws generalizing vs with
  | nil => exact (List.length_eq_zero_iff.mp hlen.symm).symm
  | cons w ws ih =>
    cases vs with
    | nil => cases hlen
    | cons v vs =>
      have hlen' : ws.length = vs.length := Nat.succ.inj hlen
      have hws' := (inWords_cons.mp hws).2
      have hvs' := (inWords_cons.mp hvs).2
      rw [wordsValue, wordsValue, hlen'] at h
      have hlow := wordsValue_range hws'
      have hlow' := wordsValue_range hvs'
      rw [hlen'] at hlow
      have hdiv : ∀ u x : Int, 0 ≤ x → x < 2 ^ (k * vs.length) →
          (u * 2 ^ (k * vs.length) + x) / 2 ^ (k * vs.length) = u := by
        intro u x hx hx'
        rw [Int.add_comm, Int.add_mul_ediv_right _ _ (two_pow_pos _).ne',
          Int.ediv_eq_zero_of_lt hx hx', Int.zero_add]
      have heq : w = v := by
        rw [← hdiv w _ hlow.1 hlow.2, h, hdiv v _ hlow'.1 hlow'.2]
      subst heq
      rw [ih hws' hvs' hlen' (Int.add_left_cancel h)]

/-- The words with all bits behind the first `p` cleared. -/
def cleared (k : Nat) : Nat → List Int → List Int
  | _, [] => []
  | p, w :: ws =>
    if k ≤ p then w :: cleared k (p - k) ws
    else w / 2 ^ (k - p) * 2 ^ (k - p) :: cleared k 0 ws

/-- The words with all bits behind the first `p` set. -/
def filled (k : Nat) : Nat → List Int → List Int
  | _, [] => []
  | p, w :: ws =>
    if k ≤ p then w :: filled k (p - k) ws
    else (w / 2 ^ (k - p) * 2 ^ (k - p) + (2 ^ (k - p) - 1)) :: filled k 0 ws

theorem length_cleared (k p : Nat) (ws : List Int) : (cleared k p ws).length = ws.length := by
  induction ws generalizing p with
  | nil => rfl
  | cons w ws ih =>
    rw [cleared]
    split
    · rw [List.length_cons, ih, List.length_cons]
    · rw [List.length_cons, ih, List.length_cons]

theorem length_filled (k p : Nat) (ws : List Int) : (filled k p ws).length = ws.length := by
  induction ws generalizing p with
  | nil => rfl
  | cons w ws ih =>
    rw [filled]
    split
    · rw [List.length_cons, ih, List.length_cons]
    · rw [List.length_cons, ih, List.length_cons]

theorem word_in_block (hw : 0 ≤ w ∧ w < 2 ^ k) (hp : p ≤ k) :
    0 ≤ w / 2 ^ p * 2 ^ p ∧ w / 2 ^ p * 2 ^ p + 2 ^ p ≤ 2 ^ k := by
  have hpos := two_pow_pos p
  have hsplit : (2 : Int) ^ k = 2 ^ (k - p) * 2 ^ p := by
    rw [← pow_add, Nat.sub_add_cancel hp]
  have hquot : w / 2 ^ p < 2 ^ (k - p) := by
    apply (Int.ediv_lt_iff_lt_mul hpos).mpr
    rw [← hsplit]
    exact hw.2
  have hnonneg : 0 ≤ w / 2 ^ p := Int.ediv_nonneg hw.1 hpos.le
  have hle : (w / 2 ^ p + 1) * 2 ^ p ≤ 2 ^ (k - p) * 2 ^ p :=
    Int.mul_le_mul_of_nonneg_right hquot hpos.le
  rw [Int.add_mul, Int.one_mul, ← hsplit] at hle
  exact ⟨Int.mul_nonneg hnonneg hpos.le, hle⟩

theorem inWords_cleared (h : InWords k ws) (p : Nat) : InWords k (cleared k p ws) := by
  induction ws generalizing p with
  | nil => exact h
  | cons w ws ih =>
    obtain ⟨hw, hws⟩ := inWords_cons.mp h
    rw [cleared]
    split
    · exact inWords_cons.mpr ⟨hw, ih hws _⟩
    · have hpos := two_pow_pos (k - p)
      have hword := word_in_block hw (Nat.sub_le k p)
      exact inWords_cons.mpr ⟨by omega, ih hws _⟩

theorem inWords_filled (h : InWords k ws) (p : Nat) : InWords k (filled k p ws) := by
  induction ws generalizing p with
  | nil => exact h
  | cons w ws ih =>
    obtain ⟨hw, hws⟩ := inWords_cons.mp h
    rw [filled]
    split
    · exact inWords_cons.mpr ⟨hw, ih hws _⟩
    · have hpos := two_pow_pos (k - p)
      have hword := word_in_block hw (Nat.sub_le k p)
      exact inWords_cons.mpr ⟨by omega, ih hws _⟩

theorem ediv_above {x : Int} {n m : Nat} (hx : 0 ≤ x ∧ x < 2 ^ n) :
    (w * 2 ^ n + x) / 2 ^ (n + m) = w / 2 ^ m := by
  have hpos := two_pow_pos n
  rw [pow_add, ← Int.ediv_ediv_of_nonneg hpos.le, Int.add_comm,
    Int.add_mul_ediv_right _ _ hpos.ne', Int.ediv_eq_zero_of_lt hx.1 hx.2, Int.zero_add]

theorem ediv_below {x : Int} {n m : Nat} (hm : m ≤ n) :
    (w * 2 ^ n + x) / 2 ^ m * 2 ^ m = w * 2 ^ n + x / 2 ^ m * 2 ^ m := by
  have hpos := two_pow_pos m
  have hsplit : (2 : Int) ^ n = 2 ^ (n - m) * 2 ^ m := by
    rw [← pow_add, Nat.sub_add_cancel hm]
  rw [hsplit, ← Int.mul_assoc, Int.add_comm, Int.add_mul_ediv_right _ _ hpos.ne', Int.add_mul,
    Int.add_comm]

theorem value_cleared (h : InWords k ws) (hp : p ≤ k * ws.length) :
    wordsValue k (cleared k p ws) =
      wordsValue k ws / 2 ^ (k * ws.length - p) * 2 ^ (k * ws.length - p) := by
  induction ws generalizing p with
  | nil =>
    rw [cleared, wordsValue, Int.zero_ediv, Int.zero_mul]
  | cons w ws ih =>
    obtain ⟨hw, hws⟩ := inWords_cons.mp h
    have hrange := wordsValue_range hws
    rw [List.length_cons, Nat.mul_succ] at hp
    rw [cleared]
    split
    · rename_i hk
      have hsub : k * (ws.length + 1) - p = k * ws.length - (p - k) := by
        rw [Nat.mul_succ]
        omega
      rw [wordsValue, length_cleared, ih hws (by omega), wordsValue, List.length_cons, hsub,
        ediv_below (Nat.sub_le _ _)]
    · rename_i hk
      have hsub : k * (ws.length + 1) - p = k * ws.length + (k - p) := by
        rw [Nat.mul_succ]
        omega
      rw [wordsValue, length_cleared, ih hws (Nat.zero_le _), wordsValue, List.length_cons, hsub,
        ediv_above hrange, Nat.sub_zero, Int.ediv_eq_zero_of_lt hrange.1 hrange.2, pow_add]
      ring

theorem value_filled (h : InWords k ws) (hp : p ≤ k * ws.length) :
    wordsValue k (filled k p ws) =
      wordsValue k ws / 2 ^ (k * ws.length - p) * 2 ^ (k * ws.length - p) +
        2 ^ (k * ws.length - p) - 1 := by
  induction ws generalizing p with
  | nil =>
    rw [filled, wordsValue, List.length_nil, Nat.mul_zero, Nat.zero_sub]
    rfl
  | cons w ws ih =>
    obtain ⟨hw, hws⟩ := inWords_cons.mp h
    have hrange := wordsValue_range hws
    rw [List.length_cons, Nat.mul_succ] at hp
    rw [filled]
    split
    · rename_i hk
      have hsub : k * (ws.length + 1) - p = k * ws.length - (p - k) := by
        rw [Nat.mul_succ]
        omega
      rw [wordsValue, length_filled, ih hws (by omega), wordsValue, List.length_cons, hsub,
        ediv_below (Nat.sub_le _ _)]
      ring
    · rename_i hk
      have hsub : k * (ws.length + 1) - p = k * ws.length + (k - p) := by
        rw [Nat.mul_succ]
        omega
      rw [wordsValue, length_filled, ih hws (Nat.zero_le _), wordsValue, List.length_cons, hsub,
        ediv_above hrange, Nat.sub_zero, Int.ediv_eq_zero_of_lt hrange.1 hrange.2, pow_add]
      ring

theorem getElem?_cleared (h : InWords k ws) (p j : Nat) : (cleared k p ws)[j]? =
    ws[j]?.map fun w => w / 2 ^ min k (k * (j + 1) - p) * 2 ^ min k (k * (j + 1) - p) := by
  induction ws generalizing p j with
  | nil => rfl
  | cons w ws ih =>
    obtain ⟨hw, hws⟩ := inWords_cons.mp h
    rw [cleared]
    split
    · rename_i hk
      cases j with
      | zero =>
        rw [List.getElem?_cons_zero, List.getElem?_cons_zero, Option.map_some, Nat.zero_add,
          Nat.mul_one, Nat.sub_eq_zero_of_le hk, Nat.min_zero, pow_zero, Int.ediv_one, Int.mul_one]
      | succ j =>
        have hsub : k * (j + 1) - (p - k) = k * (j + 1 + 1) - p := by
          rw [Nat.mul_succ k (j + 1)]
          omega
        rw [List.getElem?_cons_succ, List.getElem?_cons_succ, ih hws, hsub]
    · rename_i hk
      cases j with
      | zero =>
        rw [List.getElem?_cons_zero, List.getElem?_cons_zero, Option.map_some, Nat.zero_add,
          Nat.mul_one, Nat.min_eq_right (Nat.sub_le k p)]
      | succ j =>
        have hfull : min k (k * (j + 1) - 0) = min k (k * (j + 1 + 1) - p) := by
          have hle : k ≤ k * (j + 1) := Nat.le_mul_of_pos_right k (Nat.succ_pos j)
          rw [Nat.mul_succ k (j + 1)]
          omega
        rw [List.getElem?_cons_succ, List.getElem?_cons_succ, ih hws, hfull]

def lowValue (k : Nat) : List Int → Int
  | [] => 0
  | d :: ds => lowValue k ds * 2 ^ k + d

theorem wordsValue_reverse (k : Nat) (ds : List Int) :
    wordsValue k ds.reverse = lowValue k ds := by
  induction ds with
  | nil => rfl
  | cons d ds ih => rw [List.reverse_cons, wordsValue_concat, ih, lowValue]

theorem inWords_reverse : InWords k ws.reverse ↔ InWords k ws := by
  unfold InWords
  simp only [List.mem_reverse]

/-- The word of a number that `j` words are below. -/
def wordAt (k : Nat) (x : Int) (j : Nat) : Int := x / 2 ^ (k * j) % 2 ^ k

theorem wordAt_zero {x : Int} (hw : 0 ≤ w ∧ w < 2 ^ k) : wordAt k (x * 2 ^ k + w) 0 = w := by
  rw [wordAt, Nat.mul_zero, pow_zero, Int.ediv_one, Int.add_comm, Int.add_mul_emod_self_right,
    Int.emod_eq_of_lt hw.1 hw.2]

theorem wordAt_succ {x : Int} (hw : 0 ≤ w ∧ w < 2 ^ k) (j : Nat) :
    wordAt k (x * 2 ^ k + w) (j + 1) = wordAt k x j := by
  rw [wordAt, wordAt, Nat.mul_succ, Nat.add_comm, ediv_above hw]

end Words

end Toolkit
