import OpenwrtMtk.Lib.Words
import OpenwrtMtk.Luci.Ip

/-!
# The loops of `add` and `sub`

`add` and `sub` reduce a word that is out of range modulo 0xffff, and what they carry to the next word
is not 1. The loops are right where nothing is carried from one word to the next.
-/

namespace OpenwrtMtk.Luci.Ip

open Toolkit

set_option autoImplicit false

/-- No word of the sum of two numbers of `n` words is carried from, the most significant one apart. -/
def NoCarry (n : Nat) (x y : Int) : Prop :=
  ∀ j, j + 1 < n → wordAt 16 x j + wordAt 16 y j ≤ 0xffff

def NoBorrow (n : Nat) (x y : Int) : Prop :=
  ∀ j, j + 1 < n → wordAt 16 y j ≤ wordAt 16 x j

/-- The sums of IPv4 addresses that `add` gets right: those without a carry, and those out of range but
for the ones in which what is carried comes to nothing. -/
def AddsRight (x y : Int) : Prop :=
  wordAt 16 x 0 + wordAt 16 y 0 ≤ 0xffff ∨ 2 ^ 32 ≤ x + y ∧
    ¬(wordAt 16 x 0 = 0xffff ∧ wordAt 16 y 0 ≠ 0xffff ∧ wordAt 16 x 1 + wordAt 16 y 1 = 0xffff)

/-- The differences of IPv4 addresses that `sub` gets right. -/
def SubsRight (x y : Int) : Prop := wordAt 16 y 0 ≤ wordAt 16 x 0 ∨ x < y

section Words

variable {n : Nat} {d s x y : Int} {ds ss data : List Int}

theorem words_step (P : Int → Int → Prop) (hd : 0 ≤ d ∧ d < 2 ^ 16) (hs : 0 ≤ s ∧ s < 2 ^ 16) :
    (∀ j, j + 1 < n + 2 →
      P (wordAt 16 (x * 2 ^ 16 + d) j) (wordAt 16 (y * 2 ^ 16 + s) j)) ↔
      P d s ∧ ∀ j, j + 1 < n + 1 → P (wordAt 16 x j) (wordAt 16 y j) := by
  constructor
  · intro h
    constructor
    · have hzero := h 0 (by omega)
      rw [wordAt_zero hd, wordAt_zero hs] at hzero
      exact hzero
    · intro j hj
      have hsucc := h (j + 1) (by omega)
      rw [wordAt_succ hd, wordAt_succ hs] at hsucc
      exact hsucc
  · rintro ⟨hzero, hrest⟩ j hj
    cases j with
    | zero =>
      rw [wordAt_zero hd, wordAt_zero hs]
      exact hzero
    | succ j =>
      rw [wordAt_succ hd, wordAt_succ hs]
      exact hrest j (by omega)

theorem noCarry_step (hd : 0 ≤ d ∧ d < 2 ^ 16) (hs : 0 ≤ s ∧ s < 2 ^ 16) :
    NoCarry (n + 2) (x * 2 ^ 16 + d) (y * 2 ^ 16 + s) ↔ d + s ≤ 0xffff ∧ NoCarry (n + 1) x y :=
  words_step (fun d s => d + s ≤ 0xffff) hd hs

theorem noBorrow_step (hd : 0 ≤ d ∧ d < 2 ^ 16) (hs : 0 ≤ s ∧ s < 2 ^ 16) :
    NoBorrow (n + 2) (x * 2 ^ 16 + d) (y * 2 ^ 16 + s) ↔ s ≤ d ∧ NoBorrow (n + 1) x y :=
  words_step (fun d s => s ≤ d) hd hs

theorem lowValue_operand (hss : InWords 16 ss) :
    lowValue 16 ss = lowValue 16 ss.tail * 2 ^ 16 + ss.headD 0 ∧
      (0 ≤ ss.headD 0 ∧ ss.headD 0 < 2 ^ 16) ∧ InWords 16 ss.tail := by
  cases ss with
  | nil => exact ⟨rfl, ⟨le_refl _, by decide⟩, hss⟩
  | cons s ss =>
    obtain ⟨hs, hrest⟩ := inWords_cons.mp hss
    exact ⟨rfl, hs, hrest⟩

theorem two_pow_words (n : Nat) : (2 : Int) ^ (16 * (n + 1)) = 2 ^ (16 * n) * 2 ^ 16 := by
  rw [Nat.mul_succ, pow_add]

def Yielded (n : Nat) (x : Int) (result : Option (List Int)) : Prop :=
  (0 ≤ x ∧ x < 2 ^ (16 * n) →
    ∃ data, result = some data ∧ data.length = n ∧ InWords 16 data ∧ lowValue 16 data = x) ∧
  (¬(0 ≤ x ∧ x < 2 ^ (16 * n)) → result = none)

theorem yielded_cons (hd : 0 ≤ d ∧ d < 2 ^ 16) {result : Option (List Int)}
    (h : Yielded n x result) : Yielded (n + 1) (x * 2 ^ 16 + d) (result.map (d :: ·)) := by
  have hpos := two_pow_pos (16 * n)
  have hrange : 0 ≤ x * 2 ^ 16 + d ∧ x * 2 ^ 16 + d < 2 ^ (16 * (n + 1)) ↔
      0 ≤ x ∧ x < 2 ^ (16 * n) := by
    rw [two_pow_words]
    omega
  constructor
  · intro hin
    obtain ⟨data, rfl, hlen, hwords, hvalue⟩ := h.1 (hrange.mp hin)
    refine ⟨d :: data, rfl, congrArg Nat.succ hlen, inWords_cons.mpr ⟨hd, hwords⟩, ?_⟩
    rw [lowValue, hvalue]
  · intro hout
    rw [h.2 fun hin => hout (hrange.mpr hin)]
    rfl

theorem yielded_single {result : Option (List Int)} (hin : 0 ≤ x ∧ x < 2 ^ 16 → result = some [x])
    (hout : ¬(0 ≤ x ∧ x < 2 ^ 16) → result = none) : Yielded 1 x result := by
  constructor
  · intro h
    refine ⟨[x], hin h, rfl, inWords_cons.mpr ⟨h, nofun⟩, ?_⟩
    rw [lowValue, lowValue, Int.zero_mul, Int.zero_add]
  · intro h
    exact hout h

theorem tail_length (hlen : ss.length ≤ n + 1) : ss.tail.length ≤ n := by
  rw [List.length_tail]
  omega

theorem lowValue_short (hlen : ss.length ≤ 1) : lowValue 16 ss.tail = 0 := by
  have hnil : ss.tail = [] := List.length_eq_zero_iff.mp (Nat.le_zero.mp (tail_length hlen))
  rw [hnil]
  rfl

theorem addWords_yields (hds : InWords 16 ds) (hss : InWords 16 ss) (hne : ds ≠ [])
    (hlen : ss.length ≤ ds.length) (hno : NoCarry ds.length (lowValue 16 ds) (lowValue 16 ss)) :
    Yielded ds.length (lowValue 16 ds + lowValue 16 ss) (addWords ds ss 0) := by
  induction ds generalizing ss with
  | nil => exact absurd rfl hne
  | cons d ds ih =>
    obtain ⟨hd, hds⟩ := inWords_cons.mp hds
    obtain ⟨hvalue, hs, htail⟩ := lowValue_operand hss
    rw [hvalue] at hno ⊢
    rw [addWords]
    dsimp only
    rw [Int.add_zero]
    cases ds with
    | nil =>
      have hsum : lowValue 16 [d] + (lowValue 16 ss.tail * 2 ^ 16 + ss.headD 0) =
          d + ss.headD 0 := by
        rw [lowValue_short hlen, lowValue, lowValue]
        omega
      rw [hsum, if_pos rfl]
      apply yielded_single
      · intro hin
        rw [if_neg (by omega)]
        rfl
      · intro hout
        rw [if_pos (by omega)]
    | cons e es =>
      have hsum : lowValue 16 (d :: e :: es) + (lowValue 16 ss.tail * 2 ^ 16 + ss.headD 0) =
          (lowValue 16 (e :: es) + lowValue 16 ss.tail) * 2 ^ 16 + (d + ss.headD 0) := by
        rw [lowValue]
        omega
      obtain ⟨hfree, hrest⟩ := (noCarry_step hd hs).mp hno
      rw [hsum, if_neg (by omega)]
      exact yielded_cons (by omega)
        (ih hds htail (List.cons_ne_nil e es) (tail_length hlen) hrest)

theorem subWords_yields (hds : InWords 16 ds) (hss : InWords 16 ss) (hne : ds ≠ [])
    (hlen : ss.length ≤ ds.length) (hno : NoBorrow ds.length (lowValue 16 ds) (lowValue 16 ss)) :
    Yielded ds.length (lowValue 16 ds - lowValue 16 ss) (subWords ds ss 0) := by
  induction ds generalizing ss with
  | nil => exact absurd rfl hne
  | cons d ds ih =>
    obtain ⟨hd, hds⟩ := inWords_cons.mp hds
    obtain ⟨hvalue, hs, htail⟩ := lowValue_operand hss
    rw [hvalue] at hno ⊢
    rw [subWords]
    dsimp only
    rw [Int.sub_zero]
    cases ds with
    | nil =>
      have hdiff : lowValue 16 [d] - (lowValue 16 ss.tail * 2 ^ 16 + ss.headD 0) =
          d - ss.headD 0 := by
        rw [lowValue_short hlen, lowValue, lowValue]
        omega
      rw [hdiff, if_pos rfl]
      apply yielded_single
      · intro hin
        rw [if_neg (by omega)]
        rfl
      · intro hout
        rw [if_pos (by omega)]
    | cons e es =>
      have hdiff : lowValue 16 (d :: e :: es) - (lowValue 16 ss.tail * 2 ^ 16 + ss.headD 0) =
          (lowValue 16 (e :: es) - lowValue 16 ss.tail) * 2 ^ 16 + (d - ss.headD 0) := by
        rw [lowValue]
        omega
      obtain ⟨hfree, hrest⟩ := (noBorrow_step hd hs).mp hno
      rw [hdiff, if_neg (by omega)]
      exact yielded_cons (by omega)
        (ih hds htail (List.cons_ne_nil e es) (tail_length hlen) hrest)

/-- A sum in range that is right has been formed without carries: the word that is carried from is
wrong. -/
theorem addWords_carry (hds : InWords 16 ds) (hss : InWords 16 ss)
    (hsum : lowValue 16 ds + lowValue 16 ss < 2 ^ (16 * ds.length))
    (hdata : addWords ds ss 0 = some data)
    (hvalue : lowValue 16 data = lowValue 16 ds + lowValue 16 ss) :
    NoCarry ds.length (lowValue 16 ds) (lowValue 16 ss) := by
  induction ds generalizing ss data with
  | nil => exact fun j hj => absurd hj (Nat.not_lt_zero _)
  | cons d ds ih =>
    obtain ⟨hd, hds⟩ := inWords_cons.mp hds
    obtain ⟨hoperand, hs, htail⟩ := lowValue_operand hss
    cases ds with
    | nil => exact fun j hj => absurd hj (by rw [List.length_singleton]; omega)
    | cons e es =>
      rw [hoperand] at hsum hvalue ⊢
      rw [lowValue] at hsum hvalue ⊢
      rw [addWords] at hdata
      dsimp only at hdata
      rw [Int.add_zero] at hdata
      split at hdata
      · rename_i hlarge
        rw [if_neg (List.cons_ne_nil e es)] at hdata
        obtain ⟨rest, -, rfl⟩ := Option.map_eq_some_iff.mp hdata
        rw [lowValue] at hvalue
        omega
      · rename_i hfree
        obtain ⟨rest, hrest, rfl⟩ := Option.map_eq_some_iff.mp hdata
        rw [lowValue] at hvalue
        rw [List.length_cons, two_pow_words] at hsum
        refine (noCarry_step hd hs).mpr ⟨by omega, ?_⟩
        exact ih hds htail (by omega) hrest (by omega)

theorem subWords_addWords (hds : InWords 16 ds) (hss : InWords 16 ss)
    (hno : NoCarry ds.length (lowValue 16 ds) (lowValue 16 ss))
    (hdata : addWords ds ss 0 = some data) : subWords data ss 0 = some ds := by
  induction ds generalizing ss data with
  | nil =>
    cases hdata
    rfl
  | cons d ds ih =>
    obtain ⟨hd, hds⟩ := inWords_cons.mp hds
    obtain ⟨hoperand, hs, htail⟩ := lowValue_operand hss
    rw [addWords] at hdata
    dsimp only at hdata
    rw [Int.add_zero] at hdata
    cases ds with
    | nil =>
      split at hdata
      · rw [if_pos rfl] at hdata
        cases hdata
      · cases hdata
        rw [subWords]
        dsimp only
        rw [Int.sub_zero, Int.add_sub_cancel, if_neg (by omega)]
        rfl
    | cons e es =>
      rw [hoperand] at hno
      obtain ⟨hfree, hrest⟩ := (noCarry_step hd hs).mp hno
      rw [if_neg (by omega)] at hdata
      obtain ⟨rest, hadded, rfl⟩ := Option.map_eq_some_iff.mp hdata
      rw [subWords]
      dsimp only
      rw [Int.sub_zero, Int.add_sub_cancel, if_neg (by omega), ih hds htail hrest hadded]
      rfl

section Pairs

variable {d₀ d₁ s₀ s₁ : Int} (hds : InWords 16 [d₀, d₁]) (hss : InWords 16 [s₀, s₁])

include hds hss

theorem pair_bounds : (0 ≤ d₀ ∧ d₀ < 2 ^ 16) ∧ (0 ≤ d₁ ∧ d₁ < 2 ^ 16) ∧ (0 ≤ s₀ ∧ s₀ < 2 ^ 16) ∧
    0 ≤ s₁ ∧ s₁ < 2 ^ 16 := by
  obtain ⟨hd₀, hds⟩ := inWords_cons.mp hds
  obtain ⟨hs₀, hss⟩ := inWords_cons.mp hss
  exact ⟨hd₀, (inWords_cons.mp hds).1, hs₀, (inWords_cons.mp hss).1⟩

omit hss in
theorem pair_words : lowValue 16 [d₀, d₁] = d₁ * 2 ^ 16 + d₀ ∧ wordAt 16 (d₁ * 2 ^ 16 + d₀) 0 = d₀ ∧
    wordAt 16 (d₁ * 2 ^ 16 + d₀) 1 = d₁ := by
  obtain ⟨hd₀, hd₁, -, -⟩ := pair_bounds hds hds
  refine ⟨?_, wordAt_zero hd₀, ?_⟩
  · rw [lowValue, lowValue, lowValue, Int.zero_mul, Int.zero_add]
  · rw [wordAt_succ hd₀, wordAt, Nat.mul_zero, pow_zero, Int.ediv_one,
      Int.emod_eq_of_lt hd₁.1 hd₁.2]

omit hds hss in
theorem addWords_last (d s c : Int) :
    addWords [d] [s] c = if 0xffff < d + c + s then none else some [d + c + s] := rfl

omit hds hss in
theorem subWords_last (d s c : Int) :
    subWords [d] [s] c = if d - c - s < 0 then none else some [d - c - s] := rfl

omit hds hss in
theorem addWords_over (h : 0xffff < d₀ + s₀) : addWords [d₀, d₁] [s₀, s₁] 0 =
    (addWords [d₁] [s₁] (s₀ - (d₀ + s₀) % 0xffff)).map ((d₀ + s₀) % 0xffff :: ·) := by
  rw [addWords]
  dsimp only
  rw [Int.add_zero]
  exact (if_pos h).trans (if_neg (List.cons_ne_nil _ _))

omit hds hss in
theorem subWords_under (h : d₀ - s₀ < 0) : subWords [d₀, d₁] [s₀, s₁] 0 =
    (subWords [d₁] [s₁] (s₀ + (s₀ - d₀) % 0xffff)).map ((s₀ - d₀) % 0xffff :: ·) := by
  rw [subWords]
  dsimp only
  rw [Int.sub_zero]
  exact (if_pos h).trans (if_neg (List.cons_ne_nil _ _))

theorem addWords_pair_iff :
    Yielded 2 (lowValue 16 [d₀, d₁] + lowValue 16 [s₀, s₁]) (addWords [d₀, d₁] [s₀, s₁] 0) ↔
      AddsRight (lowValue 16 [d₀, d₁]) (lowValue 16 [s₀, s₁]) := by
  obtain ⟨hd₀, hd₁, hs₀, hs₁⟩ := pair_bounds hds hss
  obtain ⟨hx, hx₀, hx₁⟩ := pair_words hds
  obtain ⟨hy, hy₀, hy₁⟩ := pair_words hss
  by_cases hfree : d₀ + s₀ ≤ 0xffff
  · refine iff_of_true ?_ ?_
    · apply addWords_yields hds hss (List.cons_ne_nil _ _) (le_refl _)
      intro j hj
      have hzero : j = 0 := Nat.le_zero.mp (Nat.le_of_succ_le_succ (Nat.le_of_lt_succ hj))
      rw [hzero, hx, hy, hx₀, hy₀]
      exact hfree
    · rw [AddsRight, hx, hy, hx₀, hy₀]
      exact .inl hfree
  · have hover : 0xffff < d₀ + s₀ := by omega
    rw [AddsRight, hx, hy, hx₀, hy₀, hx₁, hy₁, addWords_over hover, addWords_last]
    by_cases htop : 0xffff < d₁ + (s₀ - (d₀ + s₀) % 0xffff) + s₁
    · rw [if_pos htop, Option.map_none]
      constructor
      · intro h
        by_contra hright
        obtain ⟨data, hdata, -⟩ := h.1 (by omega)
        cases hdata
      · intro h
        exact ⟨fun hin => absurd h (by omega), fun _ => rfl⟩
    · rw [if_neg htop, Option.map_some]
      refine iff_of_false ?_ (by omega)
      intro h
      by_cases hin : d₁ * 2 ^ 16 + d₀ + (s₁ * 2 ^ 16 + s₀) < 2 ^ 32
      · obtain ⟨data, hdata, -, -, hvalue⟩ := h.1 (by omega)
        cases hdata
        simp only [lowValue] at hvalue
        omega
      · have hnone := h.2 (by omega)
        cases hnone

theorem subWords_pair_iff :
    Yielded 2 (lowValue 16 [d₀, d₁] - lowValue 16 [s₀, s₁]) (subWords [d₀, d₁] [s₀, s₁] 0) ↔
      SubsRight (lowValue 16 [d₀, d₁]) (lowValue 16 [s₀, s₁]) := by
  obtain ⟨hd₀, hd₁, hs₀, hs₁⟩ := pair_bounds hds hss
  obtain ⟨hx, hx₀, hx₁⟩ := pair_words hds
  obtain ⟨hy, hy₀, hy₁⟩ := pair_words hss
  by_cases hfree : s₀ ≤ d₀
  · refine iff_of_true ?_ ?_
    · apply subWords_yields hds hss (List.cons_ne_nil _ _) (le_refl _)
      intro j hj
      have hzero : j = 0 := Nat.le_zero.mp (Nat.le_of_succ_le_succ (Nat.le_of_lt_succ hj))
      rw [hzero, hx, hy, hx₀, hy₀]
      exact hfree
    · rw [SubsRight, hx, hy, hx₀, hy₀]
      exact .inl hfree
  · have hunder : d₀ - s₀ < 0 := by omega
    rw [SubsRight, hx, hy, hx₀, hy₀, subWords_under hunder, subWords_last]
    by_cases htop : d₁ - (s₀ + (s₀ - d₀) % 0xffff) - s₁ < 0
    · rw [if_pos htop, Option.map_none]
      constructor
      · intro h
        by_contra hright
        obtain ⟨data, hdata, -⟩ := h.1 (by omega)
        cases hdata
      · intro h
        exact ⟨fun hin => absurd h (by omega), fun _ => rfl⟩
    · rw [if_neg htop, Option.map_some]
      refine iff_of_false ?_ (by omega)
      intro h
      obtain ⟨data, hdata, -, -, hvalue⟩ := h.1 (by omega)
      cases hdata
      simp only [lowValue] at hvalue
      omega

end Pairs

theorem addWords_two_iff (hds : InWords 16 ds) (hss : InWords 16 ss) (hdlen : ds.length = 2)
    (hslen : ss.length = 2) :
    Yielded 2 (lowValue 16 ds + lowValue 16 ss) (addWords ds ss 0) ↔
      AddsRight (lowValue 16 ds) (lowValue 16 ss) := by
  obtain ⟨d₀, d₁, rfl⟩ := List.length_eq_two.mp hdlen
  obtain ⟨s₀, s₁, rfl⟩ := List.length_eq_two.mp hslen
  exact addWords_pair_iff hds hss

theorem subWords_two_iff (hds : InWords 16 ds) (hss : InWords 16 ss) (hdlen : ds.length = 2)
    (hslen : ss.length = 2) :
    Yielded 2 (lowValue 16 ds - lowValue 16 ss) (subWords ds ss 0) ↔
      SubsRight (lowValue 16 ds) (lowValue 16 ss) := by
  obtain ⟨d₀, d₁, rfl⟩ := List.length_eq_two.mp hdlen
  obtain ⟨s₀, s₁, rfl⟩ := List.length_eq_two.mp hslen
  exact subWords_pair_iff hds hss

end Words

end OpenwrtMtk.Luci.Ip
