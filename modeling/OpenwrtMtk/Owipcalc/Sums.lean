import OpenwrtMtk.Owipcalc.Steps

/-!
# add and sub of IPv6 addresses

The bytes of the argument go into the sum one after another, with what is carried from byte to byte.
What is carried out of the first byte is the overflow of the whole.
-/

namespace OpenwrtMtk.Owipcalc

open Toolkit

set_option autoImplicit false

section Loop

variable {op : Nat → U8 → Bool → Except Fault (Bool × U8)} {w : In6Addr} {idx : Nat}

/-- Each byte with the byte of `w`, what is carried into it and out of it; `s` is 1 or -1. -/
def CarriesWith (s : Int) (w : In6Addr) (op : Nat → U8 → Bool → Except Fault (Bool × U8)) : Prop :=
  ∀ (idx : Nat) (h : idx < 16) (old : U8) (carry : Bool), ∃ out new,
    op idx old carry = .ok (out, new) ∧
      (new.toNat : Int) + s * 256 * (out.toNat : Int) =
        old.toNat + s * ((w[idx].toNat : Int) + (carry.toNat : Int))

theorem byteAt_eq (x : In6Addr) (h : idx < 16) : byteAt x idx = .ok x[idx] :=
  dif_pos ⟨Int.natCast_nonneg idx, by omega⟩

theorem setByte_eq (x : In6Addr) (b : U8) (h : idx < 16) : setByte x idx b = .ok (x.set idx b) :=
  dif_pos ⟨Int.natCast_nonneg idx, by omega⟩

theorem carryByte_with {s : Int} (hop : CarriesWith s w op) (h : idx < 16) (carry : Bool)
    (x : In6Addr) : ∃ out new, carryByte op idx carry x = .ok (out, x.set idx new) ∧
      (new.toNat : Int) + s * 256 * (out.toNat : Int) =
        x[idx].toNat + s * ((w[idx].toNat : Int) + (carry.toNat : Int)) := by
  obtain ⟨out, new, hnew, hcell⟩ := hop idx h x[idx] carry
  refine ⟨out, new, ?_, hcell⟩
  rw [carryByte, byteAt_eq x h]
  change (op idx x[idx] carry >>= _) = _
  rw [hnew]
  change (setByte x idx new >>= _) = _
  rw [setByte_eq x new h]
  rfl

theorem carryLoop_with {s : Int} (hop : CarriesWith s w op) (h : idx < 16) (carry : Bool)
    (x : In6Addr) : ∃ out y, carryLoop op idx carry x = .ok (out, y) ∧
      (∀ i, (hi : i < 16) → idx + 1 ≤ i → y[i] = x[i]) ∧
      front (idx + 1) y + s * 256 ^ (idx + 1) * (out.toNat : Int) =
        front (idx + 1) x + s * (front (idx + 1) w + (carry.toNat : Int)) := by
  induction idx generalizing carry x with
  | zero =>
    obtain ⟨out, new, hbyte, hcell⟩ := carryByte_with hop h carry x
    refine ⟨out, x.set 0 new, hbyte, ?_, ?_⟩
    · intro i hi hlt
      exact Vector.getElem_set_ne _ _ (by omega)
    · have hfirst (z : In6Addr) : front 0 z = 0 := rfl
      rw [front_succ h, front_succ h, front_succ h, Vector.getElem_set_self, hfirst, hfirst, hfirst]
      linear_combination hcell
  | succ idx ih =>
    obtain ⟨mid, new, hbyte, hcell⟩ := carryByte_with hop h carry x
    obtain ⟨out, y, hloop, hagree, hvalue⟩ := ih (by omega) mid (x.set (idx + 1) new)
    refine ⟨out, y, ?_, ?_, ?_⟩
    · rw [carryLoop, hbyte]
      exact hloop
    · intro i hi hlt
      rw [hagree i hi (by omega)]
      exact Vector.getElem_set_ne _ _ (by omega)
    · have hlast : y[idx + 1] = new := by
        rw [hagree (idx + 1) h (by omega), Vector.getElem_set_self]
      rw [front_set h] at hvalue
      rw [front_succ h, front_succ h x, front_succ h w, hlast]
      linear_combination 256 * hvalue + hcell

end Loop

section Sums

theorem carries_add (b : In6Addr) : CarriesWith 1 b fun idx old carry => do
    let y ← byteAt b idx
    return (decide (256 ≤ old.toNat + y.toNat + carry.toNat), old + (y + BitVec.ofNat 8 carry.toNat)) := by
  intro idx h old carry
  refine ⟨decide (256 ≤ old.toNat + b[idx].toNat + carry.toNat),
    old + (b[idx] + BitVec.ofNat 8 carry.toNat), ?_, ?_⟩
  · dsimp only
    rw [byteAt_eq b h]
    rfl
  · have hold := old.isLt
    have hy := b[idx].isLt
    have hcarry := carry.toNat_le
    by_cases hover : 256 ≤ old.toNat + b[idx].toNat + carry.toNat
    · rw [decide_eq_true hover, Bool.toNat_true, BitVec.toNat_add, BitVec.toNat_add, BitVec.toNat_ofNat]
      omega
    · rw [decide_eq_false hover, Bool.toNat_false, BitVec.toNat_add, BitVec.toNat_add, BitVec.toNat_ofNat]
      omega

theorem carries_sub (b : In6Addr) : CarriesWith (-1) b fun idx old carry => do
    let y ← byteAt b idx
    return (decide (old.toNat < y.toNat + carry.toNat), old - (y + BitVec.ofNat 8 carry.toNat)) := by
  intro idx h old carry
  refine ⟨decide (old.toNat < b[idx].toNat + carry.toNat),
    old - (b[idx] + BitVec.ofNat 8 carry.toNat), ?_, ?_⟩
  · dsimp only
    rw [byteAt_eq b h]
    rfl
  · have hold := old.isLt
    have hy := b[idx].isLt
    have hcarry := carry.toNat_le
    by_cases hunder : old.toNat < b[idx].toNat + carry.toNat
    · rw [decide_eq_true hunder, Bool.toNat_true, BitVec.toNat_sub, BitVec.toNat_add, BitVec.toNat_ofNat]
      omega
    · rw [decide_eq_false hunder, Bool.toNat_false, BitVec.toNat_sub, BitVec.toNat_add, BitVec.toNat_ofNat]
      omega

variable (a b : Cidr In6Addr) (c : Globals)

theorem cidrAdd6_value : ∃ out x,
    cidrAdd6 a b c = .ok (!out, c.push (.inet6 { a with addr := x })) ∧
      value6 x + 2 ^ 128 * (out.toNat : Int) = value6 a.addr + value6 b.addr := by
  obtain ⟨out, x, hloop, -, hvalue⟩ := carryLoop_with (carries_add b.addr) (by decide : 15 < 16)
    false a.addr
  refine ⟨out, x, ?_, ?_⟩
  · rw [cidrAdd6, hloop]
    rfl
  · rw [front_all, front_all, front_all, Bool.toNat_false] at hvalue
    norm_num at hvalue
    linear_combination hvalue

theorem cidrSub6_value : ∃ out x,
    cidrSub6 a b c = .ok (!out, c.push (.inet6 { a with addr := x })) ∧
      value6 x - 2 ^ 128 * (out.toNat : Int) = value6 a.addr - value6 b.addr := by
  obtain ⟨out, x, hloop, -, hvalue⟩ := carryLoop_with (carries_sub b.addr) (by decide : 15 < 16)
    false a.addr
  refine ⟨out, x, ?_, ?_⟩
  · rw [cidrSub6, hloop]
    rfl
  · rw [front_all, front_all, front_all, Bool.toNat_false] at hvalue
    norm_num at hvalue
    linear_combination hvalue

/-- `add` and `sub` push the exact sum and difference with the prefix of the entry on top, and fail if
and only if it is not an address. The entry they push is in any case the only one that is new. -/
theorem addSub6_exact :
    (∃ res x, cidrAdd6 a b c = .ok (res, c.push (.inet6 ⟨x, a.prefixLen⟩)) ∧
      (res = true ↔ value6 a.addr + value6 b.addr < 2 ^ 128) ∧
      (res = true → value6 x = value6 a.addr + value6 b.addr)) ∧
    (∃ res x, cidrSub6 a b c = .ok (res, c.push (.inet6 ⟨x, a.prefixLen⟩)) ∧
      (res = true ↔ value6 b.addr ≤ value6 a.addr) ∧
      (res = true → value6 x = value6 a.addr - value6 b.addr)) := by
  constructor
  · obtain ⟨out, x, hrun, hvalue⟩ := cidrAdd6_value a b c
    have hrange := value6_range x
    cases out with
    | true =>
      rw [Bool.toNat_true] at hvalue
      refine ⟨false, x, hrun, iff_of_false Bool.false_ne_true ?_, ?_⟩
      · omega
      · exact fun h => absurd h Bool.false_ne_true
    | false =>
      rw [Bool.toNat_false] at hvalue
      refine ⟨true, x, hrun, iff_of_true rfl ?_, ?_⟩
      · omega
      · intro _
        omega
  · obtain ⟨out, x, hrun, hvalue⟩ := cidrSub6_value a b c
    have hrange := value6_range x
    cases out with
    | true =>
      rw [Bool.toNat_true] at hvalue
      refine ⟨false, x, hrun, iff_of_false Bool.false_ne_true ?_, ?_⟩
      · omega
      · exact fun h => absurd h Bool.false_ne_true
    | false =>
      rw [Bool.toNat_false] at hvalue
      refine ⟨true, x, hrun, iff_of_true rfl ?_, ?_⟩
      · omega
      · intro _
        omega

end Sums

end OpenwrtMtk.Owipcalc
