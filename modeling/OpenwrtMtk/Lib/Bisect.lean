import Mathlib.Order.Lattice
import OpenwrtMtk.Lib.Bytes

/-!
# Binary search over a table of records

Records of one width stand one behind the other, sorted by a key. `Between key n t l r` is the
invariant of a search for `t` among the first `n` keys: those before `l` are less and those behind
`r` are greater.
-/

namespace Toolkit

set_option autoImplicit false

universe u v

section Records

variable {α : Type u} {β : Type v} {f : α → List β} {w : Nat}

theorem length_flatMap_const (hf : ∀ x, (f x).length = w) (xs : List α) :
    (xs.flatMap f).length = w * xs.length := by
  induction xs with
  | nil => rfl
  | cons x xs ih =>
    rw [List.flatMap_cons, List.length_append, hf, ih, List.length_cons, Nat.mul_succ, Nat.add_comm]

theorem slice_record (hf : ∀ x, (f x).length = w) (pre : List β) {xs : List α} (post : List β)
    {m i n : Nat} {x : α} (hx : xs[m]? = some x) (hin : i + n ≤ w) :
    slice (pre ++ xs.flatMap f ++ post) (pre.length + w * m + i) n = slice (f x) i n := by
  apply slice_eq_of_getElem?
  intro k hk
  rw [List.append_assoc, List.getElem?_append_right (by omega),
    show pre.length + w * m + i + k - pre.length = w * m + (i + k) by omega]
  clear pre
  induction xs generalizing m with
  | nil => cases hx
  | cons y ys ih =>
    rw [List.flatMap_cons, List.append_assoc]
    cases m with
    | zero =>
      obtain rfl : y = x := by simpa using hx
      rw [Nat.mul_zero, Nat.zero_add, List.getElem?_append_left (by rw [hf]; omega)]
    | succ m =>
      have hx' : ys[m]? = some x := by simpa using hx
      rw [← ih hx', List.getElem?_append_right (by rw [hf, Nat.mul_succ]; omega), hf,
        show w * (m + 1) + (i + k) - w = w * m + (i + k) by rw [Nat.mul_succ]; omega]

end Records

section Search

variable {κ : Type u} [LinearOrder κ] {key : Nat → κ} {n : Nat} {t : κ} {l r m : Nat}

structure Between (key : Nat → κ) (n : Nat) (t : κ) (l r : Nat) : Prop where
  below : ∀ i, i < l → key i < t
  above : ∀ i, r < i → i < n → t < key i

def SortedKeys (key : Nat → κ) (n : Nat) : Prop := ∀ i j, i ≤ j → j < n → key i ≤ key j

namespace Between

theorem start (h : n ≤ r + 1) : Between key n t 0 r where
  below := by
    intro i hi
    omega
  above := by
    intro i hi hin
    omega

theorem up (h : Between key n t l r) (hs : SortedKeys key n) (hm : m < n) (hk : key m < t) :
    Between key n t (m + 1) r where
  below := by
    intro i hi
    exact lt_of_le_of_lt (hs i m (by omega) hm) hk
  above := h.above

theorem down (h : Between key n t l r) (hs : SortedKeys key n) (hk : t < key m) :
    Between key n t l (m - 1) where
  below := h.below
  above := by
    intro i hi hin
    exact lt_of_lt_of_le hk (hs m i (by omega) hin)

theorem none (h : Between key n t l r) (hlr : r < l) : ∀ i, i < n → key i ≠ t := by
  intro i hin heq
  by_cases hi : i < l
  · exact ne_of_lt (h.below i hi) heq
  · exact ne_of_gt (h.above i (by omega) hin) heq

theorem bottom (hs : SortedKeys key n) (hk : t < key 0) : ∀ i, i < n → key i ≠ t := by
  intro i hin heq
  exact ne_of_gt (lt_of_lt_of_le hk (hs 0 i (by omega) hin)) heq

end Between

/-- A search for `t` among the keys from `l` to `r` comes upon the key at `m`. -/
inductive Probes (key : Nat → κ) (t : κ) : Nat → Nat → Nat → Prop where
  | here {l r : Nat} (h : l ≤ r) : Probes key t l r (l + (r - l) / 2)
  | down {l r m : Nat} (h : l ≤ r) (hk : t < key (l + (r - l) / 2)) (hpos : 0 < l + (r - l) / 2) :
      Probes key t l (l + (r - l) / 2 - 1) m → Probes key t l r m
  | up {l r m : Nat} (h : l ≤ r) (hk : key (l + (r - l) / 2) < t) :
      Probes key t (l + (r - l) / 2 + 1) r m → Probes key t l r m

namespace Probes

theorem range (h : Probes key t l r m) : l ≤ m ∧ m ≤ r := by
  induction h with
  | here h => omega
  | down h _ hpos _ ih => omega
  | up h _ _ ih => omega

theorem found (h : Probes key t l r m) (hk : key (l + (r - l) / 2) = t) :
    m = l + (r - l) / 2 := by
  cases h with
  | here _ => rfl
  | down _ hlt _ _ => exact absurd hk (ne_of_gt hlt)
  | up _ hlt _ => exact absurd hk (ne_of_lt hlt)

theorem lower (h : Probes key t l r m) (hm : key m = t) (hk : t < key (l + (r - l) / 2)) :
    0 < l + (r - l) / 2 ∧ Probes key t l (l + (r - l) / 2 - 1) m := by
  cases h with
  | here _ => exact absurd hm (ne_of_gt hk)
  | down _ _ hpos hrest => exact ⟨hpos, hrest⟩
  | up _ hlt _ => exact absurd hk (lt_asymm hlt)

theorem upper (h : Probes key t l r m) (hm : key m = t) (hk : key (l + (r - l) / 2) < t) :
    Probes key t (l + (r - l) / 2 + 1) r m := by
  cases h with
  | here _ => exact absurd hm (ne_of_lt hk)
  | down _ hlt _ _ => exact absurd hk (lt_asymm hlt)
  | up _ _ hrest => exact hrest

theorem exists_of_sorted (hs : SortedKeys key n) (hb : Between key n t l r) (hr : r < n) {i : Nat}
    (hi : i < n) (hk : key i = t) : ∃ m, Probes key t l r m ∧ key m = t := by
  induction hd : r + 1 - l using Nat.strongRecOn generalizing l r with
  | ind d ih =>
    have hlr : l ≤ r := by
      by_contra hlt
      exact hb.none (by omega) i hi hk
    rcases lt_trichotomy (key (l + (r - l) / 2)) t with hlt | heq | hgt
    · have hrest := hb.up hs (by omega) hlt
      obtain ⟨m, hprobe, hm⟩ := ih (r + 1 - (l + (r - l) / 2 + 1)) (by omega) hrest hr rfl
      exact ⟨m, .up hlr hlt hprobe, hm⟩
    · exact ⟨_, .here hlr, heq⟩
    · have hpos : 0 < l + (r - l) / 2 := by
        by_contra hzero
        have hmid : l + (r - l) / 2 = 0 := by omega
        rw [hmid] at hgt
        exact Between.bottom hs hgt i hi hk
      have hrest := hb.down hs hgt
      obtain ⟨m, hprobe, hm⟩ := ih (l + (r - l) / 2 - 1 + 1 - l) (by omega) hrest (by omega) rfl
      exact ⟨m, .down hlr hgt hpos hprobe, hm⟩

end Probes

end Search

end Toolkit
