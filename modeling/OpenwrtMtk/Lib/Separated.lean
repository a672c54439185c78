import Mathlib.Data.List.Infix

/-!
# Texts between separators

`firstAt pat xs` is where `pat` occurs first in `xs`. `Cut pat k xs ps` says that `ps` are the texts
between the first `k` separators of `xs`, the last of them being all that is left.
-/

namespace Toolkit

set_option autoImplicit false

universe u

variable {α : Type u} {pat xs : List α}

section First

variable [DecidableEq α] {i : Nat}

def firstAt (pat : List α) : List α → Option Nat
  | [] => if pat = [] then some 0 else none
  | x :: xs => if pat.isPrefixOf (x :: xs) then some 0 else (firstAt pat xs).map (· + 1)

theorem firstAt_none (h : firstAt pat xs = none) : ¬pat <:+: xs := by
  induction xs with
  | nil =>
    rw [firstAt] at h
    split at h
    · cases h
    · rename_i hne
      rw [List.infix_nil]
      exact hne
  | cons x xs ih =>
    rw [firstAt] at h
    split at h
    · cases h
    · rename_i hno
      rw [List.infix_cons_iff, not_or]
      exact ⟨fun hpre => hno (List.isPrefixOf_iff_prefix.mpr hpre), ih (Option.map_eq_none_iff.mp h)⟩

theorem firstAt_some (hpat : pat ≠ []) (h : firstAt pat xs = some i) :
    (∃ rest, xs = xs.take i ++ pat ++ rest) ∧ ¬pat <:+: xs.take i := by
  induction xs generalizing i with
  | nil =>
    rw [firstAt, if_neg hpat] at h
    cases h
  | cons x xs ih =>
    rw [firstAt] at h
    split at h
    · rename_i hpre
      obtain ⟨rest, hrest⟩ := List.isPrefixOf_iff_prefix.mp hpre
      cases h
      refine ⟨⟨rest, hrest.symm⟩, ?_⟩
      rw [List.take_zero, List.infix_nil]
      exact hpat
    · rename_i hno
      obtain ⟨j, hj, rfl⟩ := Option.map_eq_some_iff.mp h
      obtain ⟨⟨rest, hrest⟩, hfree⟩ := ih hj
      rw [List.take_succ_cons, List.infix_cons_iff, not_or]
      refine ⟨⟨rest, congrArg (x :: ·) hrest⟩, ?_, hfree⟩
      intro hpre
      apply hno
      have hwhole : x :: xs.take j <+: x :: xs :=
        List.cons_prefix_cons.mpr ⟨rfl, List.take_prefix j xs⟩
      exact List.isPrefixOf_iff_prefix.mpr (hpre.trans hwhole)

theorem firstAt_eq_none (h : ∀ j, ¬pat <+: xs.drop j) : firstAt pat xs = none := by
  induction xs with
  | nil =>
    rw [firstAt, if_neg]
    rintro rfl
    exact h 0 (List.nil_prefix)
  | cons x xs ih =>
    have hno : ¬pat.isPrefixOf (x :: xs) = true :=
      fun hpre => h 0 (List.isPrefixOf_iff_prefix.mp hpre)
    rw [firstAt, if_neg hno, ih fun j => h (j + 1)]
    rfl

theorem firstAt_eq_some (hpat : pat ≠ []) (hat : pat <+: xs.drop i)
    (hbefore : ∀ j < i, ¬pat <+: xs.drop j) : firstAt pat xs = some i := by
  induction xs generalizing i with
  | nil =>
    rw [List.drop_nil] at hat
    exact absurd (List.prefix_nil.mp hat) hpat
  | cons x xs ih =>
    rw [firstAt]
    cases i with
    | zero =>
      have hyes : pat.isPrefixOf (x :: xs) = true := List.isPrefixOf_iff_prefix.mpr hat
      rw [if_pos hyes]
    | succ i =>
      have hno : ¬pat.isPrefixOf (x :: xs) = true :=
        fun hpre => hbefore 0 (Nat.succ_pos i) (List.isPrefixOf_iff_prefix.mp hpre)
      rw [if_neg hno, ih hat fun j hj => hbefore (j + 1) (Nat.succ_lt_succ hj)]
      rfl

end First

inductive Cut (pat : List α) : Nat → List α → List (List α) → Prop
  | rest (xs : List α) : Cut pat 0 xs [xs]
  | free (k : Nat) {xs : List α} : ¬pat <:+: xs → Cut pat k xs [xs]
  | next {k : Nat} {x xs : List α} {ps : List (List α)} : ¬pat <:+: x → Cut pat k xs ps →
      Cut pat (k + 1) (x ++ pat ++ xs) (x :: ps)

section Cut

variable {k : Nat} {pieces : List (List α)}

theorem Cut.ne_nil (h : Cut pat k xs pieces) : pieces ≠ [] := by
  cases h with
  | rest => exact List.cons_ne_nil _ _
  | free => exact List.cons_ne_nil _ _
  | next => exact List.cons_ne_nil _ _

theorem Cut.join (h : Cut pat k xs pieces) : pat.intercalate pieces = xs := by
  induction h with
  | rest xs => exact List.intercalate_singleton
  | free k hfree => exact List.intercalate_singleton
  | next hfree hcut ih => rw [List.intercalate_cons_of_ne_nil hcut.ne_nil, ih]

theorem Cut.length_le (h : Cut pat k xs pieces) : pieces.length ≤ k + 1 := by
  induction h with
  | rest xs => exact Nat.le_refl 1
  | free k hfree => exact Nat.succ_le_succ (Nat.zero_le k)
  | next hfree hcut ih => exact Nat.succ_le_succ ih

theorem Cut.free_dropLast (h : Cut pat k xs pieces) : ∀ x ∈ pieces.dropLast, ¬pat <:+: x := by
  induction h with
  | rest xs => exact List.forall_mem_nil _
  | free k hfree => exact List.forall_mem_nil _
  | next hfree hcut ih =>
    rw [List.dropLast_cons_of_ne_nil hcut.ne_nil]
    exact List.forall_mem_cons.mpr ⟨hfree, ih⟩

theorem Cut.free_getLast (h : Cut pat k xs pieces) {x : List α} (hlast : pieces.getLast? = some x)
    (hx : pat <:+: x) : pieces.length = k + 1 := by
  induction h with
  | rest xs => rfl
  | free k hfree =>
    cases hlast
    exact absurd hx hfree
  | next hfree hcut ih =>
    rw [List.getLast?_cons_of_ne_nil hcut.ne_nil] at hlast
    rw [List.length_cons, ih hlast]

end Cut

end Toolkit
