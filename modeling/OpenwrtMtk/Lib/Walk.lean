import Mathlib.Data.Finset.Card
import Mathlib.Logic.Relation
import OpenwrtMtk.Lib.Checked

/-!
# Walks through a block

A walk reads at one position after the other. What a turn does depends on its position alone, so that
a walk which comes to a position twice comes to it for ever.
-/

namespace Toolkit

open Relation

set_option autoImplicit false

inductive Turn (α β : Type) where
  | stop (b : β)
  | next (position : Nat) (a : α)

def walk {α β : Type} (body : Nat → Checked (Turn α β)) : Nat → Nat → Checked (List α × β)
  | 0, _ => .error .endless
  | fuel + 1, i => do
    match ← body i with
    | .stop b => .ok ([], b)
    | .next j a => do
      let r ← walk body fuel j
      .ok (a :: r.1, r.2)

def Leads {α β : Type} (body : Nat → Checked (Turn α β)) (i j : Nat) : Prop :=
  ∃ a, body i = .ok (.next j a)

structure Passes (Fits : Nat → Prop) (Follows : Nat → Nat → Prop) (i : Nat) : Prop where
  fits : ∀ j, ReflTransGen Follows i j → Fits j
  onward : ∀ j, ReflTransGen Follows i j → ¬TransGen Follows j j

section

variable {α β : Type} {body : Nat → Checked (Turn α β)} {bound fuel i j : Nat}

theorem walk_stop {b : β} (h : body i = .ok (.stop b)) : walk body (fuel + 1) i = .ok ([], b) := by
  rw [walk, bind_ok h]

theorem ends_walk_next {a : α} (h : body i = .ok (.next j a)) :
    Ends (walk body (fuel + 1) i) ↔ Ends (walk body fuel j) := by
  rw [walk, bind_ok h]
  change Ends (walk body fuel j >>= _) ↔ _
  rw [ends_bind]
  constructor
  · rintro ⟨r, hr, _⟩
    exact ⟨r, hr⟩
  · rintro ⟨r, hr⟩
    exact ⟨r, hr, _, rfl⟩

theorem ends_walk_of_le {fuel' : Nat} (h : Ends (walk body fuel i)) (hle : fuel ≤ fuel') :
    Ends (walk body fuel' i) := by
  induction fuel generalizing i fuel' with
  | zero => exact absurd h Ends.error
  | succ fuel ih =>
    obtain ⟨n, rfl⟩ := Nat.exists_eq_add_of_lt hle
    obtain ⟨turn, hturn, -⟩ := ends_bind.mp h
    cases turn with
    | stop b => exact ⟨_, walk_stop hturn⟩
    | next j a =>
      have hrest := (ends_walk_next hturn).mp h
      exact (ends_walk_next hturn).mpr (ih hrest (Nat.le_add_right_of_le (Nat.le_refl _)))

theorem ends_body (h : Ends (walk body fuel i)) (hreach : ReflTransGen (Leads body) i j) :
    Ends (body j) := by
  induction fuel generalizing i with
  | zero => exact absurd h Ends.error
  | succ fuel ih =>
    rcases hreach.cases_head with rfl | ⟨k, ⟨a, hk⟩, hrest⟩
    · obtain ⟨turn, hturn, _⟩ := ends_bind.mp h
      exact ⟨turn, hturn⟩
    · exact ih ((ends_walk_next hk).mp h) hrest

theorem leads_of_cycle (hreach : ReflTransGen (Leads body) i j)
    (hcycle : TransGen (Leads body) j j) :
    ∃ k, Leads body i k ∧ ReflTransGen (Leads body) k j := by
  rcases hreach.cases_head with rfl | ⟨k, hk, hrest⟩
  · obtain ⟨k, hk, hrest⟩ := TransGen.head'_iff.mp hcycle
    exact ⟨k, hk, hrest⟩
  · exact ⟨k, hk, hrest⟩

theorem not_ends_of_cycle (hreach : ReflTransGen (Leads body) i j)
    (hcycle : TransGen (Leads body) j j) : ¬Ends (walk body fuel i) := by
  induction fuel generalizing i with
  | zero => exact Ends.error
  | succ fuel ih =>
    obtain ⟨k, ⟨a, hk⟩, hrest⟩ := leads_of_cycle hreach hcycle
    rw [ends_walk_next hk]
    exact ih hrest

/-- The positions that a walk has behind it are all different, and there are not more of them than
`bound`. -/
theorem ends_walk_seen (hbound : ∀ i j, Leads body i j → i < bound)
    (hpass : Passes (fun j => Ends (body j)) (Leads body) i) (seen : Finset Nat)
    (hseen : ∀ k ∈ seen, k < bound ∧ TransGen (Leads body) k i)
    (hfuel : bound < fuel + seen.card) : Ends (walk body fuel i) := by
  induction fuel generalizing i seen with
  | zero =>
    have hsub : seen ⊆ Finset.range bound := by
      intro k hk
      exact Finset.mem_range.mpr (hseen k hk).1
    have hcard := Finset.card_le_card hsub
    rw [Finset.card_range] at hcard
    omega
  | succ fuel ih =>
    obtain ⟨turn, hturn⟩ := hpass.fits i ReflTransGen.refl
    cases turn with
    | stop b => exact ⟨_, walk_stop hturn⟩
    | next j a =>
      have hlead : Leads body i j := ⟨a, hturn⟩
      have hnew : i ∉ seen := by
        intro hmem
        exact hpass.onward i ReflTransGen.refl (hseen i hmem).2
      apply (ends_walk_next hturn).mpr
      apply ih ⟨fun k hk => hpass.fits k (hk.head hlead), fun k hk => hpass.onward k (hk.head hlead)⟩
        (insert i seen)
      · intro k hk
        rcases Finset.mem_insert.mp hk with rfl | hk
        · exact ⟨hbound _ _ hlead, TransGen.single hlead⟩
        · exact ⟨(hseen k hk).1, (hseen k hk).2.tail hlead⟩
      · rw [Finset.card_insert_of_notMem hnew]
        omega

theorem ends_walk_iff_passes (hbound : ∀ i j, Leads body i j → i < bound) (hfuel : bound < fuel) :
    Ends (walk body fuel i) ↔ Passes (fun j => Ends (body j)) (Leads body) i := by
  constructor
  · intro h
    exact ⟨fun j hj => ends_body h hj, fun j hj hcycle => not_ends_of_cycle hj hcycle h⟩
  · intro h
    apply ends_walk_seen hbound h ∅
    · intro k hk
      exact absurd hk (Finset.notMem_empty k)
    · rw [Finset.card_empty]
      exact hfuel

variable {Fits : Nat → Prop} {Follows : Nat → Nat → Prop}

theorem ends_walk (hends : ∀ j, Ends (body j) ↔ Fits j)
    (hleads : ∀ j k, Leads body j k ↔ Fits j ∧ Follows j k)
    (hbound : ∀ j k, Follows j k → j < bound) (hfuel : bound < fuel) :
    Ends (walk body fuel i) ↔ Passes Fits Follows i := by
  have hmono : ∀ j k, Leads body j k → Follows j k := fun j k h => ((hleads j k).mp h).2
  rw [ends_walk_iff_passes (fun j k h => hbound j k (hmono j k h)) hfuel]
  constructor
  · intro h
    have hreach : ∀ j, ReflTransGen Follows i j → ReflTransGen (Leads body) i j := by
      intro j hj
      induction hj with
      | refl => exact ReflTransGen.refl
      | tail _ hstep ih =>
        exact ih.tail ((hleads _ _).mpr ⟨(hends _).mp (h.fits _ ih), hstep⟩)
    refine ⟨fun j hj => (hends j).mp (h.fits j (hreach j hj)), fun j hj hcycle => ?_⟩
    apply h.onward j (hreach j hj)
    have hround : ∀ k, TransGen Follows j k →
        TransGen (Leads body) j k ∧ ReflTransGen (Leads body) i k := by
      intro k hk
      induction hk with
      | single hstep =>
        have hlead := (hleads _ _).mpr ⟨(hends _).mp (h.fits _ (hreach j hj)), hstep⟩
        exact ⟨TransGen.single hlead, (hreach j hj).tail hlead⟩
      | tail _ hstep ih =>
        have hlead := (hleads _ _).mpr ⟨(hends _).mp (h.fits _ ih.2), hstep⟩
        exact ⟨ih.1.tail hlead, ih.2.tail hlead⟩
    exact (hround j hcycle).1
  · intro h
    exact ⟨fun j hj => (hends j).mpr (h.fits j (ReflTransGen.mono hmono _ _ hj)),
      fun j hj hcycle => h.onward j (ReflTransGen.mono hmono _ _ hj)
        (TransGen.mono hmono _ _ hcycle)⟩

end

end Toolkit
