import Mathlib.Data.List.Basic
import OpenwrtMtk.Lib.Bytes

/-!
# The largest number, and the nearest one above

Loops over a list that keep the largest number so far, or the smallest one so far that is above a
bound.
-/

namespace Toolkit

set_option autoImplicit false

universe u

variable {α : Type u} {n : Nat}

def larger (x y : BitVec n) : BitVec n := if x < y then y else x

/-- `x`, or a smaller number above `low`. -/
def nearer (low x y : BitVec n) : BitVec n := if low < y ∧ y < x then y else x

def largestOf (f : α → BitVec n) (as : List α) (x : BitVec n) : BitVec n :=
  as.foldl (fun y a => larger y (f a)) x

def nearestOf (f : α → BitVec n) (low : BitVec n) (as : List α) (x : BitVec n) : BitVec n :=
  as.foldl (fun y a => nearer low y (f a)) x

/-- The smallest number above `low`. -/
structure NextAbove (f : α → BitVec n) (as : List α) (low next : BitVec n) : Prop where
  mem : ∃ a ∈ as, f a = next
  above : low < next
  least : ∀ a ∈ as, low < f a → next ≤ f a

section Largest

theorem le_larger (x y : BitVec n) : x ≤ larger x y ∧ y ≤ larger x y := by
  unfold larger
  split
  · rename_i h
    exact ⟨BitVec.le_of_lt h, BitVec.le_refl y⟩
  · rename_i h
    exact ⟨BitVec.le_refl x, BitVec.not_lt.mp h⟩

theorem larger_cases (x y : BitVec n) : larger x y = x ∨ larger x y = y := by
  unfold larger
  split
  · exact Or.inr rfl
  · exact Or.inl rfl

theorem le_largestOf (f : α → BitVec n) (as : List α) (x : BitVec n) :
    x ≤ largestOf f as x ∧ ∀ a ∈ as, f a ≤ largestOf f as x := by
  induction as generalizing x with
  | nil => exact ⟨BitVec.le_refl x, List.forall_mem_nil _⟩
  | cons a as ih =>
    obtain ⟨hfirst, hrest⟩ := ih (larger x (f a))
    obtain ⟨hx, ha⟩ := le_larger x (f a)
    refine ⟨BitVec.le_trans hx hfirst, ?_⟩
    intro b hb
    rcases List.mem_cons.mp hb with rfl | hb
    · exact BitVec.le_trans ha hfirst
    · exact hrest b hb

theorem largestOf_mem (f : α → BitVec n) (as : List α) (x : BitVec n) :
    largestOf f as x = x ∨ ∃ a ∈ as, f a = largestOf f as x := by
  induction as generalizing x with
  | nil => exact Or.inl rfl
  | cons a as ih =>
    have hcons : largestOf f (a :: as) x = largestOf f as (larger x (f a)) := rfl
    rw [hcons]
    rcases ih (larger x (f a)) with heq | ⟨b, hb, heq⟩
    · rw [heq]
      rcases larger_cases x (f a) with hkept | hnew
      · exact Or.inl hkept
      · exact Or.inr ⟨a, List.mem_cons_self, hnew.symm⟩
    · exact Or.inr ⟨b, List.mem_cons_of_mem a hb, heq⟩

end Largest

section Nearest

variable {f : α → BitVec n} {as : List α} {low next next' : BitVec n}

theorem NextAbove.unique (h : NextAbove f as low next) (h' : NextAbove f as low next') :
    next = next' := by
  obtain ⟨a, ha, rfl⟩ := h.mem
  obtain ⟨b, hb, rfl⟩ := h'.mem
  exact BitVec.le_antisymm (h.least b hb h'.above) (h'.least a ha h.above)

theorem nearestOf_le (f : α → BitVec n) (low : BitVec n) (as : List α) (x : BitVec n) :
    nearestOf f low as x ≤ x ∧ ∀ a ∈ as, low < f a → nearestOf f low as x ≤ f a := by
  induction as generalizing x with
  | nil => exact ⟨BitVec.le_refl x, List.forall_mem_nil _⟩
  | cons a as ih =>
    have hcons : nearestOf f low (a :: as) x = nearestOf f low as (nearer low x (f a)) := rfl
    obtain ⟨hfirst, hrest⟩ := ih (nearer low x (f a))
    have hboth : nearer low x (f a) ≤ x ∧ (low < f a → nearer low x (f a) ≤ f a) := by
      unfold nearer
      by_cases hnew : low < f a ∧ f a < x
      · rw [if_pos hnew]
        exact ⟨BitVec.le_of_lt hnew.2, fun _ => BitVec.le_refl _⟩
      · rw [if_neg hnew]
        exact ⟨BitVec.le_refl x, fun hlow => BitVec.not_lt.mp fun hlt => hnew ⟨hlow, hlt⟩⟩
    rw [hcons]
    refine ⟨BitVec.le_trans hfirst hboth.1, ?_⟩
    intro b hb hlow
    rcases List.mem_cons.mp hb with rfl | hb
    · exact BitVec.le_trans hfirst (hboth.2 hlow)
    · exact hrest b hb hlow

theorem nearestOf_mem (f : α → BitVec n) (low : BitVec n) (as : List α) (x : BitVec n) :
    nearestOf f low as x = x ∨
      low < nearestOf f low as x ∧ ∃ a ∈ as, f a = nearestOf f low as x := by
  induction as generalizing x with
  | nil => exact Or.inl rfl
  | cons a as ih =>
    have hcons : nearestOf f low (a :: as) x = nearestOf f low as (nearer low x (f a)) := rfl
    rw [hcons]
    rcases ih (nearer low x (f a)) with heq | ⟨hlow, b, hb, heq⟩
    · rw [heq, nearer]
      by_cases hnew : low < f a ∧ f a < x
      · rw [if_pos hnew]
        exact Or.inr ⟨hnew.1, a, List.mem_cons_self, rfl⟩
      · rw [if_neg hnew]
        exact Or.inl rfl
    · exact Or.inr ⟨hlow, b, List.mem_cons_of_mem a hb, heq⟩

theorem nearestOf_largest {largest : BitVec n} (hmem : ∃ a ∈ as, f a = largest)
    (hlow : low < largest) : NextAbove f as low (nearestOf f low as largest) := by
  have hleast := (nearestOf_le f low as largest).2
  rcases nearestOf_mem f low as largest with heq | ⟨habove, hfound⟩
  · exact ⟨heq.symm ▸ hmem, heq.symm ▸ hlow, hleast⟩
  · exact ⟨hfound, habove, hleast⟩

theorem nearestOf_none (x : BitVec n) (hall : ∀ a ∈ as, f a ≤ low) : nearestOf f low as x = x := by
  rcases nearestOf_mem f low as x with heq | ⟨habove, a, ha, hfound⟩
  · exact heq
  · exact absurd habove (BitVec.not_lt.mpr (hfound ▸ hall a ha))

end Nearest

end Toolkit
