import Mathlib.Data.List.Basic

/-!
# Loops

Loops that leave at the first hit, partial functions on two levels, and loops that run until
nothing changes.
-/

/-!
## Loops that leave at the first hit

`search body n` runs `body` for `0, 1, ..., n - 1` until it finds something or fails.
-/

namespace Toolkit

set_option autoImplicit false

universe u v

variable {ε : Type u} {α : Type v} {body : Nat → Except ε (Option α)} {n : Nat} {is : List Nat}

def searchIn (body : Nat → Except ε (Option α)) : List Nat → Except ε (Option α)
  | [] => .ok none
  | i :: is =>
    match body i with
    | .error e => .error e
    | .ok (some a) => .ok (some a)
    | .ok none => searchIn body is

def search (body : Nat → Except ε (Option α)) (n : Nat) : Except ε (Option α) :=
  searchIn body (List.range n)

theorem searchIn_hit {a : α} (h : searchIn body is = .ok (some a)) :
    ∃ i ∈ is, body i = .ok (some a) := by
  induction is with
  | nil => cases h
  | cons i is ih =>
    rw [searchIn] at h
    match hbody : body i with
    | .error e => rw [hbody] at h; cases h
    | .ok (some b) =>
      rw [hbody] at h
      cases h
      exact ⟨i, List.mem_cons_self, hbody⟩
    | .ok none =>
      rw [hbody] at h
      obtain ⟨j, hj, hhit⟩ := ih h
      exact ⟨j, List.mem_cons_of_mem _ hj, hhit⟩

theorem searchIn_miss (h : searchIn body is = .ok none) : ∀ i ∈ is, body i = .ok none := by
  induction is with
  | nil => exact fun i hi => absurd hi List.not_mem_nil
  | cons i is ih =>
    rw [searchIn] at h
    match hbody : body i with
    | .error e => rw [hbody] at h; cases h
    | .ok (some b) => rw [hbody] at h; cases h
    | .ok none =>
      rw [hbody] at h
      intro j hj
      rcases List.mem_cons.mp hj with rfl | hj
      · exact hbody
      · exact ih h j hj

theorem searchIn_eq {p : Nat → Option α} (h : ∀ i ∈ is, body i = .ok (p i)) :
    searchIn body is = .ok (is.findSome? p) := by
  induction is with
  | nil => rfl
  | cons i is ih =>
    rw [searchIn, h i List.mem_cons_self, List.findSome?_cons]
    cases p i with
    | none => exact ih fun j hj => h j (List.mem_cons_of_mem i hj)
    | some a => rfl

theorem search_eq {p : Nat → Option α} (h : ∀ i < n, body i = .ok (p i)) :
    search body n = .ok ((List.range n).findSome? p) :=
  searchIn_eq fun i hi => h i (List.mem_range.mp hi)

theorem search_ok (h : ∀ i, ∃ r, body i = .ok r) : ∃ r, search body n = .ok r := by
  obtain ⟨p, hp⟩ := Classical.axiomOfChoice h
  exact ⟨_, search_eq fun i _ => hp i⟩

theorem search_hit {a : α} (h : search body n = .ok (some a)) : ∃ i < n, body i = .ok (some a) := by
  obtain ⟨i, hi, hhit⟩ := searchIn_hit h
  exact ⟨i, List.mem_range.mp hi, hhit⟩

theorem search_miss (h : search body n = .ok none) : ∀ i < n, body i = .ok none :=
  fun i hi => searchIn_miss h i (List.mem_range.mpr hi)

end Toolkit

/-!
## Partial functions on two levels

`Option.Rel R` says of two computations that both fail or that both have results, which `R`
relates. It composes along the sequencing of computations and along a loop.
-/

namespace Toolkit

set_option autoImplicit false

universe u

variable {α β α' β' γ : Type u} {R : α → β → Prop} {R' : α' → β' → Prop}

theorem rel_bind {x : Option α} {y : Option β} {f : α → Option α'} {g : β → Option β'}
    (h : Option.Rel R x y) (hnext : ∀ a b, R a b → Option.Rel R' (f a) (g b)) :
    Option.Rel R' (x.bind f) (y.bind g) := by
  cases h with
  | none => exact .none
  | some hab => exact hnext _ _ hab

theorem rel_map {x : Option α} {y : Option β} {f : α → α'} {g : β → β'}
    (h : Option.Rel R x y) (hnext : ∀ a b, R a b → R' (f a) (g b)) :
    Option.Rel R' (x.map f) (y.map g) := by
  cases h with
  | none => exact .none
  | some hab => exact .some (hnext _ _ hab)

theorem rel_map_right {x : Option α} {y : Option β} {S : α → β' → Prop} {g : β → β'}
    (h : Option.Rel R x y) (hnext : ∀ a b, R a b → S a (g b)) : Option.Rel S x (y.map g) := by
  cases h with
  | none => exact .none
  | some hab => exact .some (hnext _ _ hab)

theorem rel_mono {x : Option α} {y : Option β} {S : α → β → Prop} (h : Option.Rel R x y)
    (hnext : ∀ a b, R a b → S a b) : Option.Rel S x y := by
  cases h with
  | none => exact .none
  | some hab => exact .some (hnext _ _ hab)

theorem rel_refl {x : Option α} : Option.Rel Eq x x := by
  cases x with
  | none => exact .none
  | some a => exact .some rfl

theorem rel_foldlM {f : α → γ → Option α} {g : β → γ → Option β} (xs : List γ)
    (hround : ∀ a b c, R a b → Option.Rel R (f a c) (g b c)) {a : α} {b : β} (h : R a b) :
    Option.Rel R (xs.foldlM f a) (xs.foldlM g b) := by
  induction xs generalizing a b with
  | nil => exact .some h
  | cons c xs ih =>
    rw [List.foldlM_cons, List.foldlM_cons]
    exact rel_bind (hround a b c h) fun a b hab => ih hab

theorem foldlM_steps {S : α → α → Prop} (hrefl : ∀ a, S a a)
    (htrans : ∀ {a b c}, S a b → S b c → S a c) {f : α → γ → Option α}
    (hround : ∀ {a b c}, f a c = some b → S a b) {xs : List γ} {a b : α}
    (h : xs.foldlM f a = some b) : S a b := by
  induction xs generalizing a with
  | nil =>
    cases h
    exact hrefl b
  | cons c xs ih =>
    obtain ⟨mid, hfirst, hrest⟩ := Option.bind_eq_some_iff.mp h
    exact htrans (hround hfirst) (ih hrest)

end Toolkit

/-!
## Loops that run until nothing changes

`Rests step view s`: the loop that repeats `step` until a turn leaves `view` as it was ends from
`s`. A rank that falls with every turn that changes something makes it end, an invariant under
which every turn changes something keeps it going.
-/

namespace Toolkit

set_option autoImplicit false

universe u v

variable {σ : Type u} {τ : Type v} {step : σ → σ} {view : σ → τ} {s : σ}

inductive Rests (step : σ → σ) (view : σ → τ) : σ → Prop where
  | now {s : σ} : view (step s) = view s → Rests step view s
  | later {s : σ} : Rests step view (step s) → Rests step view s

/-- Every turn ends the loop, leaves the invariant for a state that rests, or lowers the rank. -/
theorem rests_of_rank (Inv : σ → Prop) (rank : σ → Nat)
    (h : ∀ s, Inv s → view (step s) = view s ∨ Rests step view (step s) ∨
      Inv (step s) ∧ rank (step s) < rank s) (hs : Inv s) : Rests step view s := by
  generalize hn : rank s = n
  induction n using Nat.strongRecOn generalizing s with
  | ind n ih =>
    rcases h s hs with hsame | hrests | ⟨hinv, hlt⟩
    · exact .now hsame
    · exact .later hrests
    · exact .later (ih _ (hn ▸ hlt) hinv rfl)

theorem never_rests (Inv : σ → Prop) (hstep : ∀ s, Inv s → Inv (step s))
    (hmoves : ∀ s, Inv s → view (step s) ≠ view s) (hs : Inv s) : ¬Rests step view s := by
  intro hrests
  induction hrests with
  | now hsame => exact hmoves _ hs hsame
  | later _ ih => exact ih (hstep _ hs)

end Toolkit
