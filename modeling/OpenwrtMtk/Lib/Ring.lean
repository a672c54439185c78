import Mathlib.Data.Fintype.Card
import Mathlib.Logic.Function.Iterate

/-!
# Places of a ring buffer

`ring i k` are the `k` places from `i` on, in order, with the first place behind the last. They
are distinct up to a whole round, and a round meets every place.
-/

namespace Toolkit

set_option autoImplicit false

variable {n k m : Nat} {i j : Fin n}

def advance (i : Fin n) : Fin n :=
  if h : i.val + 1 = n then ⟨0, i.pos⟩ else ⟨i.val + 1, by omega⟩

def ring : Fin n → Nat → List (Fin n)
  | _, 0 => []
  | i, k + 1 => i :: ring (advance i) k

theorem ring_succ (i : Fin n) (k : Nat) : ring i (k + 1) = i :: ring (advance i) k := rfl

theorem advance_val (i : Fin n) : (advance i).val = (i.val + 1) % n := by
  unfold advance
  split
  · rename_i h
    rw [h, Nat.mod_self]
  · have hi := i.isLt
    rw [Nat.mod_eq_of_lt (by omega)]

theorem iterate_val (i : Fin n) (k : Nat) : (advance^[k] i).val = (i.val + k) % n := by
  induction k with
  | zero => exact (Nat.mod_eq_of_lt i.isLt).symm
  | succ k ih =>
    rw [Function.iterate_succ_apply', advance_val, ih, Nat.mod_add_mod, Nat.add_assoc]

theorem iterate_ne (hpos : 0 < k) (hk : k < n) : advance^[k] i ≠ i := by
  intro heq
  have hval := iterate_val i k
  have hi := i.isLt
  rw [heq] at hval
  by_cases hwrap : i.val + k < n
  · rw [Nat.mod_eq_of_lt hwrap] at hval
    omega
  · rw [Nat.mod_eq_sub_mod (by omega), Nat.mod_eq_of_lt (by omega)] at hval
    omega

@[simp] theorem length_ring (i : Fin n) (k : Nat) : (ring i k).length = k := by
  induction k generalizing i with
  | zero => rfl
  | succ k ih => rw [ring_succ, List.length_cons, ih]

theorem ring_snoc (i : Fin n) (k : Nat) : ring i (k + 1) = ring i k ++ [advance^[k] i] := by
  induction k generalizing i with
  | zero => rfl
  | succ k ih =>
    rw [ring_succ, ih, ring_succ, List.cons_append, Function.iterate_succ_apply]

theorem mem_ring : j ∈ ring i k ↔ ∃ m, m < k ∧ advance^[m] i = j := by
  induction k with
  | zero => simp [ring]
  | succ k ih =>
    rw [ring_snoc, List.mem_append, List.mem_singleton, ih]
    constructor
    · rintro (⟨m, hm, rfl⟩ | rfl)
      · exact ⟨m, by omega, rfl⟩
      · exact ⟨k, Nat.lt_succ_self k, rfl⟩
    · rintro ⟨m, hm, rfl⟩
      by_cases hmk : m = k
      · exact .inr (by rw [hmk])
      · exact .inl ⟨m, by omega, rfl⟩

theorem nodup_ring (i : Fin n) (hk : k ≤ n) : (ring i k).Nodup := by
  induction k generalizing i with
  | zero => exact List.nodup_nil
  | succ k ih =>
    apply List.nodup_cons.mpr
    refine ⟨fun hmem => ?_, ih (advance i) (Nat.le_of_succ_le hk)⟩
    obtain ⟨m, hm, heq⟩ := mem_ring.mp hmem
    rw [← Function.iterate_succ_apply] at heq
    exact iterate_ne (Nat.succ_pos m) (by omega) heq

theorem mem_ring_round (i j : Fin n) : j ∈ ring i n := by
  have hcard : (ring i n).toFinset.card = Fintype.card (Fin n) := by
    rw [List.toFinset_card_of_nodup (nodup_ring i (Nat.le_refl n)), length_ring, Fintype.card_fin]
  have hall := Finset.eq_univ_of_card _ hcard
  apply List.mem_toFinset.mp
  rw [hall]
  exact Finset.mem_univ j

theorem end_not_mem (i : Fin n) (hk : k < n) : advance^[k] i ∉ ring i k := by
  have hnodup := nodup_ring i hk
  rw [ring_snoc] at hnodup
  exact fun hmem => List.disjoint_of_nodup_append hnodup hmem List.mem_cons_self

end Toolkit
