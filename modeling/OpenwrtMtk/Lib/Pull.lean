/-!
# Readers

A reader is called again and again until a reply says that it was the last. `pulls` makes the first
calls; what holds of every call is `EveryPull`, and `PullsAll` is the whole sequence of a reader that
comes to its end. Both follow the reader one call at a time.
-/

namespace Toolkit

set_option autoImplicit false

universe u v

variable {σ : Type u} {ρ : Type v} (next : σ → Option (σ × ρ)) (last : ρ → Bool)

/-- The first `k` calls, fewer if the last is among them. -/
def pulls : Nat → σ → Option (List (σ × ρ))
  | 0, _ => some []
  | k + 1, s =>
    (next s).bind fun x => if last x.2 then some [x] else (pulls k x.1).map (x :: ·)

/-- Every call that is made has a result, and `Q` holds of it. -/
def EveryPull (Q : σ × ρ → Prop) (s : σ) : Prop :=
  ∀ k, ∃ xs, pulls next last k s = some xs ∧ ∀ x ∈ xs, Q x

/-- All the calls up to the last. -/
inductive PullsAll : σ → List (σ × ρ) → Prop where
  | last {s : σ} {x : σ × ρ} : next s = some x → last x.2 = true → PullsAll s [x]
  | cons {s : σ} {x : σ × ρ} {xs : List (σ × ρ)} :
      next s = some x → last x.2 = false → PullsAll x.1 xs → PullsAll s (x :: xs)

variable {next : σ → Option (σ × ρ)} {last : ρ → Bool} {Q : σ × ρ → Prop} {s : σ} {x : σ × ρ}
  {xs : List (σ × ρ)}

theorem not_everyPull (h : next s = none) : ¬ EveryPull next last Q s := by
  intro hall
  obtain ⟨xs, hxs, _⟩ := hall 1
  simp [pulls, h] at hxs

theorem everyPull_last (h : next s = some x) (hlast : last x.2 = true) :
    EveryPull next last Q s ↔ Q x := by
  constructor
  · intro hall
    obtain ⟨xs, hxs, hQ⟩ := hall 1
    obtain rfl : [x] = xs := by simpa [pulls, h, hlast] using hxs
    exact hQ x List.mem_cons_self
  · intro hx k
    cases k with
    | zero => exact ⟨[], rfl, by simp⟩
    | succ k => exact ⟨[x], by simp [pulls, h, hlast], by simpa using hx⟩

theorem everyPull_cons (h : next s = some x) (hlast : last x.2 = false) :
    EveryPull next last Q s ↔ Q x ∧ EveryPull next last Q x.1 := by
  constructor
  · intro hall
    have hrest : ∀ k, ∃ xs, pulls next last k x.1 = some xs ∧ Q x ∧ ∀ y ∈ xs, Q y := by
      intro k
      obtain ⟨xs, hxs, hQ⟩ := hall (k + 1)
      obtain ⟨ys, hys, rfl⟩ : ∃ ys, pulls next last k x.1 = some ys ∧ x :: ys = xs := by
        simpa [pulls, h, hlast] using hxs
      exact ⟨ys, hys, hQ x List.mem_cons_self, fun y hy => hQ y (List.mem_cons_of_mem x hy)⟩
    refine ⟨?_, ?_⟩
    · obtain ⟨_, _, hx, _⟩ := hrest 0
      exact hx
    · intro k
      obtain ⟨ys, hys, _, hQ⟩ := hrest k
      exact ⟨ys, hys, hQ⟩
  · rintro ⟨hx, hall⟩ k
    cases k with
    | zero => exact ⟨[], rfl, by simp⟩
    | succ k =>
      obtain ⟨ys, hys, hQ⟩ := hall k
      exact ⟨x :: ys, by simp [pulls, h, hlast, hys], List.forall_mem_cons.mpr ⟨hx, hQ⟩⟩

theorem not_pullsAll (h : next s = none) : ¬ PullsAll next last s xs := by
  intro hall
  cases hall with
  | last h' _ => simp [h] at h'
  | cons h' _ _ => simp [h] at h'

theorem pullsAll_last (h : next s = some x) (hlast : last x.2 = true) :
    PullsAll next last s xs ↔ xs = [x] := by
  constructor
  · intro hall
    cases hall with
    | last h' _ => obtain rfl := Option.some.inj (h.symm.trans h'); rfl
    | cons h' hnot _ =>
      obtain rfl := Option.some.inj (h.symm.trans h')
      rw [hlast] at hnot
      cases hnot
  · rintro rfl
    exact .last h hlast

theorem pullsAll_cons (h : next s = some x) (hlast : last x.2 = false) :
    PullsAll next last s xs ↔ ∃ ys, xs = x :: ys ∧ PullsAll next last x.1 ys := by
  constructor
  · intro hall
    cases hall with
    | last h' hnot =>
      obtain rfl := Option.some.inj (h.symm.trans h')
      rw [hlast] at hnot
      cases hnot
    | cons h' _ hrest =>
      obtain rfl := Option.some.inj (h.symm.trans h')
      exact ⟨_, rfl, hrest⟩
  · rintro ⟨ys, rfl, hrest⟩
    exact .cons h hlast hrest

end Toolkit
