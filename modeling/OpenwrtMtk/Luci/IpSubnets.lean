import OpenwrtMtk.Luci.IpSums

/-!
# Subnets of luci.ip

The operations on subnets compute the least and the greatest number of a block of addresses, and
`contains` decides inclusion.
-/

namespace OpenwrtMtk.Luci.Ip

open Toolkit

set_option autoImplicit false

def hostBits (c : Cidr Int) : Nat := (maxlen c.family - c.prefixLen).toNat

def subnet (c : Cidr Int) : Set Int := block (hostBits c) (addressValue c)

section Masks

variable {n p r : Nat} {w x : Int} {ws : List Int}

theorem land_mask {w : Nat} (hw : w < 2 ^ 16) : w &&& (0xffff >>> n <<< n) = w / 2 ^ n * 2 ^ n := by
  rw [← Nat.shiftRight_eq_div_pow, ← Nat.shiftLeft_eq]
  apply Nat.eq_of_testBit_eq
  intro i
  rw [Nat.testBit_and, Nat.testBit_shiftLeft, Nat.testBit_shiftLeft, Nat.testBit_shiftRight,
    Nat.testBit_shiftRight]
  by_cases hi : n ≤ i
  · rw [Nat.add_sub_cancel' hi, decide_eq_true hi, Bool.true_and, Bool.true_and]
    by_cases hhigh : i < 16
    · have hone : Nat.testBit 0xffff i = true := by
        rw [show 0xffff = 2 ^ 16 - 1 from rfl, Nat.testBit_two_pow_sub_one, decide_eq_true hhigh]
      rw [hone, Bool.and_true]
    · have hzero : w.testBit i = false :=
        Nat.testBit_lt_two_pow (Nat.lt_of_lt_of_le hw (Nat.pow_le_pow_right (by decide) (by omega)))
      rw [hzero, Bool.false_and]
  · rw [decide_eq_false hi, Bool.false_and, Bool.false_and, Bool.and_false]

theorem lor_ones {w : Nat} : w ||| (2 ^ n - 1) = w / 2 ^ n * 2 ^ n + (2 ^ n - 1) := by
  have hlt : 2 ^ n - 1 < 2 ^ n := Nat.sub_lt (Nat.two_pow_pos n) Nat.one_pos
  rw [← Nat.shiftRight_eq_div_pow, ← Nat.shiftLeft_eq, Nat.shiftLeft_add_eq_or_of_lt hlt]
  apply Nat.eq_of_testBit_eq
  intro i
  rw [Nat.testBit_or, Nat.testBit_or, Nat.testBit_shiftLeft, Nat.testBit_shiftRight,
    Nat.testBit_two_pow_sub_one]
  by_cases hi : i < n
  · rw [decide_eq_true hi, Bool.or_true, Bool.or_true]
  · have hle : n ≤ i := Nat.le_of_not_lt hi
    rw [decide_eq_false hi, Bool.or_false, Bool.or_false, decide_eq_true hle, Bool.true_and,
      Nat.add_sub_cancel' hle]

def tailBits (p : Nat) : Nat := 16 - p % 16

theorem mask16_eq (p : Nat) :
    mask16 p = ((0xffff >>> tailBits p <<< tailBits p : Nat) : Int) := by
  have hbits : ((16 : Int) - (p : Int) % 16).toNat = tailBits p := by
    unfold tailBits
    omega
  rw [mask16, lshift, rshift, hbits]
  rfl

theorem not16_eq (p : Nat) : not16 p = ((2 ^ tailBits p - 1 : Nat) : Int) := by
  have hall : ∀ r < 16, band (bnot ((0xffff >>> (16 - r) <<< (16 - r) : Nat) : Int)) 0xffff =
      ((2 ^ (16 - r) - 1 : Nat) : Int) := by decide +kernel
  rw [not16, mask16_eq]
  exact hall (p % 16) (Nat.mod_lt p (by decide))

theorem band_mask16 (hw : 0 ≤ w ∧ w < 2 ^ 16) (p : Nat) :
    band w (mask16 p) = w / 2 ^ tailBits p * 2 ^ tailBits p := by
  obtain ⟨n, rfl⟩ := Int.eq_ofNat_of_zero_le hw.1
  have hn : n < 2 ^ 16 := by omega
  rw [mask16_eq, band, Int.toNat_natCast, Int.toNat_natCast, land_mask hn]
  push_cast
  rfl

theorem bor_not16 (hw : 0 ≤ w) (p : Nat) :
    bor w (not16 p) = w / 2 ^ tailBits p * 2 ^ tailBits p + (2 ^ tailBits p - 1) := by
  obtain ⟨n, rfl⟩ := Int.eq_ofNat_of_zero_le hw
  have hpos := Nat.two_pow_pos (tailBits p)
  rw [not16_eq, bor, Int.toNat_natCast, Int.toNat_natCast, lor_ones]
  push_cast [Nat.cast_sub hpos]
  rfl

theorem tailBits_sub (h : 16 ≤ p) : tailBits (p - 16) = tailBits p := by
  unfold tailBits
  rw [Nat.mod_eq_sub_mod h]

theorem tailBits_small (h : p < 16) : tailBits p = 16 - p := by
  unfold tailBits
  rw [Nat.mod_eq_of_lt h]

theorem mask16_sub (h : 16 ≤ p) : mask16 ((p - 16 : Nat) : Int) = mask16 p := by
  rw [mask16_eq, mask16_eq, tailBits_sub h]

theorem not16_sub (h : 16 ≤ p) : not16 ((p - 16 : Nat) : Int) = not16 p := by
  rw [not16_eq, not16_eq, tailBits_sub h]

theorem cleared_zero (h : InWords 16 ws) : cleared 16 0 ws = List.replicate ws.length 0 := by
  induction ws with
  | nil => rfl
  | cons w ws ih =>
    obtain ⟨hw, hws⟩ := inWords_cons.mp h
    rw [cleared, if_neg (by decide), ih hws, Int.ediv_eq_zero_of_lt hw.1 hw.2]
    rfl

theorem filled_zero (h : InWords 16 ws) : filled 16 0 ws = List.replicate ws.length 0xffff := by
  induction ws with
  | nil => rfl
  | cons w ws ih =>
    obtain ⟨hw, hws⟩ := inWords_cons.mp h
    rw [filled, if_neg (by decide), ih hws, Int.ediv_eq_zero_of_lt hw.1 hw.2]
    rfl

/-- The words of `network`. -/
def networkWords (ws : List Int) (bits : Int) : List Int :=
  wholeWords (ws.take (bits / 16).toNat) ws.length
    (band (ws.getD (ws.take (bits / 16).toNat).length 0) (mask16 bits))

theorem wholeWords_cons (whole : List Int) (len : Nat) (boundary : Int) :
    wholeWords (w :: whole) (len + 1) boundary = w :: wholeWords whole len boundary := by
  unfold wholeWords
  rw [List.length_cons]
  by_cases h : whole.length < len
  · rw [if_pos (Nat.succ_lt_succ h), if_pos h, Nat.add_sub_add_right]
    rfl
  · rw [if_neg (fun hlt => h (Nat.lt_of_succ_lt_succ hlt)), if_neg h]

theorem wholeWords_nil (len : Nat) (boundary : Int) :
    wholeWords [] (len + 1) boundary = boundary :: List.replicate len 0 := rfl

theorem whole_of_lt (h : p < 16) : ((p : Int) / 16).toNat = 0 := by omega

theorem whole_of_le (h : 16 ≤ p) :
    ((p : Int) / 16).toNat = (((p - 16 : Nat) : Int) / 16).toNat + 1 := by omega

theorem networkWords_eq (h : InWords 16 ws) (p : Nat) : networkWords ws p = cleared 16 p ws := by
  induction ws generalizing p with
  | nil =>
    rw [networkWords, List.take_nil]
    rfl
  | cons w ws ih =>
    obtain ⟨hw, hws⟩ := inWords_cons.mp h
    rw [cleared]
    by_cases hp : 16 ≤ p
    · rw [if_pos hp, ← ih hws, networkWords, networkWords, whole_of_le hp, List.take_succ_cons,
        List.length_cons, List.length_cons, wholeWords_cons, List.getD_cons_succ, mask16_sub hp]
    · have hlt := Nat.lt_of_not_le hp
      rw [if_neg hp, cleared_zero hws, networkWords, whole_of_lt hlt, List.take_zero,
        List.length_nil, List.length_cons, wholeWords_nil, List.getD_cons_zero, band_mask16 hw,
        tailBits_small hlt]

theorem setHost_eq (h : InWords 16 ws) (hp : p < 16 * ws.length) :
    setHost ws p = some (filled 16 p ws) := by
  induction ws generalizing p with
  | nil => exact absurd hp (Nat.not_lt_zero p)
  | cons w ws ih =>
    obtain ⟨hw, hws⟩ := inWords_cons.mp h
    rw [List.length_cons] at hp
    rw [filled]
    by_cases hle : 16 ≤ p
    · have hrest := ih (p := p - 16) hws (by omega)
      unfold setHost at hrest ⊢
      dsimp only at hrest ⊢
      rw [whole_of_le hle, List.length_cons]
      by_cases hin : (((p - 16 : Nat) : Int) / 16).toNat < ws.length
      · rw [if_pos hin] at hrest
        rw [if_pos hle, if_pos (Nat.succ_lt_succ hin), ← Option.some.inj hrest,
          List.take_succ_cons, List.getD_cons_succ, Nat.add_sub_add_right, not16_sub hle]
        rfl
      · rw [if_neg hin] at hrest
        cases hrest
    · have hlt := Nat.lt_of_not_le hle
      unfold setHost
      dsimp only
      rw [whole_of_lt hlt, List.length_cons, if_pos (Nat.succ_pos _), if_neg hle,
        filled_zero hws, List.getD_cons_zero, bor_not16 hw.1, tailBits_small hlt]
      rfl

/-- The words of `mask`. -/
def maskWords (len : Nat) (bits : Int) : List Int :=
  wholeWords (List.replicate (bits / 16).toNat 0xffff) len (mask16 bits)

theorem maskWords_above (len : Nat) (hle : 16 ≤ p) :
    maskWords (len + 1) p = 0xffff :: maskWords len ((p - 16 : Nat) : Int) := by
  rw [maskWords, maskWords, whole_of_le hle, List.replicate_succ, wholeWords_cons, mask16_sub hle]

theorem maskWords_below (len : Nat) (hlt : p < 16) :
    maskWords (len + 1) p = mask16 p :: List.replicate len 0 := by
  rw [maskWords, whole_of_lt hlt, List.replicate_zero, wholeWords_nil]

theorem mask16_bit : ∀ r < 16, ∀ k < 16,
    (band (mask16 (r : Nat)) (lshift 1 (15 - (k : Nat))) = lshift 1 (15 - (k : Nat)) ↔ k < r) := by
  decide +kernel

theorem mask16_within : ∀ r < 16, mask16 (r : Nat) ≠ 0xffff := by
  decide +kernel

theorem countBits_mask {k : Nat} {start : Int} (turns : Nat) (hr : r < 16) (hk : k ≤ r)
    (hstart : start % 16 = 0) (hturns : r < turns + k) :
    countBits (mask16 r) turns (start + k) (lshift 1 (15 - k)) = some (start + r) := by
  induction turns generalizing k with
  | zero => omega
  | succ turns ih =>
    rw [countBits]
    by_cases hlt : k < r
    · have hnext : (15 : Int) - (start + k + 1) % 16 = 15 - ((k + 1 : Nat) : Int) := by omega
      have hsum : start + k + 1 = start + ((k + 1 : Nat) : Int) := by omega
      rw [if_pos ((mask16_bit r hr k (by omega)).mpr hlt), hnext, hsum]
      exact ih hlt (by omega)
    · have heq : k = r := by omega
      rw [if_neg (fun h => hlt ((mask16_bit r hr k (by omega)).mp h)), heq]

theorem prefixWords_mask (len : Nat) (start : Int) (hp : p ≤ 16 * len) (hstart : start % 16 = 0) :
    prefixWords (maskWords len p) start = some (start + p) := by
  induction len generalizing p start with
  | zero =>
    have hzero : p = 0 := by omega
    subst hzero
    exact congrArg some (Int.add_zero start).symm
  | succ len ih =>
    by_cases hle : 16 ≤ p
    · have hsum : start + 16 + ((p - 16 : Nat) : Int) = start + p := by omega
      rw [maskWords_above len hle, prefixWords, if_pos rfl, ih _ (by omega) (by omega), hsum]
    · have hlt := Nat.lt_of_not_le hle
      have hcount := countBits_mask (k := 0) 17 hlt (Nat.zero_le p) hstart (by omega)
      rw [maskWords_below len hlt, prefixWords, if_neg (mask16_within p hlt)]
      rw [Nat.cast_zero, Int.add_zero, Int.sub_zero] at hcount
      exact hcount

end Masks

section Objects

variable {n k : Nat} {x : Int} {a b c : Cidr Int}

theorem wordAt_one {j : Nat} (hj : 0 < j) : wordAt 16 1 j = 0 := by
  have hlarge : (1 : Int) < 2 ^ (16 * j) := one_lt_pow₀ (by decide) (by omega)
  rw [wordAt, Int.ediv_eq_zero_of_lt (by decide) hlarge, Int.zero_emod]

theorem wordAt_low (x : Int) : wordAt 16 x 0 = x % 2 ^ 16 := by
  rw [wordAt, Nat.mul_zero, pow_zero, Int.ediv_one]

theorem noCarry_one (hx : x % 2 = 0) : NoCarry n x 1 := by
  intro j _
  cases j with
  | zero =>
    rw [wordAt_low, wordAt_low]
    omega
  | succ j =>
    have hrange := Int.emod_lt_of_pos (x / 2 ^ (16 * (j + 1))) (two_pow_pos 16)
    rw [wordAt_one (Nat.succ_pos j), wordAt]
    omega

theorem noBorrow_one (hx : x % 2 = 1) : NoBorrow n x 1 := by
  intro j _
  cases j with
  | zero =>
    rw [wordAt_low, wordAt_low]
    omega
  | succ j =>
    rw [wordAt_one (Nat.succ_pos j)]
    exact Int.emod_nonneg _ (two_pow_pos 16).ne'

theorem even_block (hk : 0 < k) (x : Int) : x / 2 ^ k * 2 ^ k % 2 = 0 := by
  obtain ⟨k, rfl⟩ := Nat.exists_eq_succ_of_ne_zero hk.ne'
  rw [Nat.succ_eq_add_one, pow_succ, ← Int.mul_assoc, Int.mul_emod_left]

theorem IsSubnet.bits (h : IsSubnet a) : ∃ p : Nat, a.prefixLen = p ∧
    p + hostBits a = 16 * a.words.length := by
  obtain ⟨p, hp⟩ := Int.eq_ofNat_of_zero_le h.low
  refine ⟨p, hp, ?_⟩
  have hhigh := h.high
  have hmax := maxlen_limbs a.family
  rw [h.stands.length, hostBits]
  omega

theorem network_stands (h : IsSubnet a) (hb : IsSubnet b) (hfamily : b.family = a.family) :
    Stands a.family (addressValue b / 2 ^ hostBits a * 2 ^ hostBits a)
      (networkOf b a.prefixLen) := by
  obtain ⟨p, hp, hbits⟩ := h.bits
  have hlen : b.words.length = a.words.length := by
    rw [hb.stands.length, h.stands.length, hfamily]
  have hwords : (networkOf b a.prefixLen).words = cleared 16 p b.words := by
    rw [hp]
    exact networkWords_eq hb.stands.words p
  refine ⟨hfamily, ?_, ?_, ?_⟩
  · rw [hwords, length_cleared, hlen, h.stands.length]
  · rw [hwords]
    exact inWords_cleared hb.stands.words p
  · have hsub : 16 * b.words.length - p = hostBits a := by
      rw [hlen]
      omega
    rw [addressValue, hwords, value_cleared hb.stands.words (by rw [hlen]; omega), hsub]
    rfl

theorem setHost_stands (h : IsSubnet a) (hhost : 0 < hostBits a) :
    ∃ data, setHost a.words a.prefixLen = some data ∧
      ∀ n, Stands a.family (addressValue a / 2 ^ hostBits a * 2 ^ hostBits a + 2 ^ hostBits a - 1)
        ⟨a.family, data, n⟩ := by
  obtain ⟨p, hp, hbits⟩ := h.bits
  refine ⟨filled 16 p a.words, ?_, fun n => ⟨rfl, ?_, ?_, ?_⟩⟩
  · rw [hp]
    exact setHost_eq h.stands.words (by omega)
  · rw [length_filled, h.stands.length]
  · exact inWords_filled h.stands.words p
  · have hsub : 16 * a.words.length - p = hostBits a := by omega
    rw [addressValue, value_filled h.stands.words (by omega), hsub]
    rfl

theorem equal_iff (hlen : a.words.length = b.words.length) (hfamily : a.family = b.family) :
    equal a b = some (decide (a.words = b.words)) := by
  rw [equal, if_pos hfamily]
  congr 1
  rw [Bool.eq_iff_iff, List.all_eq_true, decide_eq_true_iff]
  constructor
  · intro h
    apply List.ext_getElem?
    intro i
    by_cases hi : i < a.words.length
    · exact beq_iff_eq.mp (h i (List.mem_range.mpr hi))
    · rw [List.getElem?_eq_none (Nat.le_of_not_lt hi),
        List.getElem?_eq_none (hlen ▸ Nat.le_of_not_lt hi)]
  · intro h i _
    rw [h]
    exact beq_self_eq_true _

theorem contains_iff (ha : IsSubnet a) (hb : IsSubnet b) (hfamily : b.family = a.family) :
    ∃ r, contains a b = some r ∧ (r = true ↔ subnet b ⊆ subnet a) := by
  have hown := network_stands ha ha rfl
  have hother := network_stands ha hb hfamily
  have hbits : hostBits b ≤ hostBits a ↔ a.prefixLen ≤ b.prefixLen := by
    have hhigh := ha.high
    have hhigh' := hb.high
    rw [hostBits, hostBits, hfamily]
    rw [hfamily] at hhigh'
    omega
  rw [contains, if_pos hfamily.symm, subnet, subnet, block_subset_iff, hbits]
  by_cases hle : a.prefixLen ≤ b.prefixLen
  · rw [if_pos hle, network, equal_iff (hown.length.trans hother.length.symm)
      (hown.family.trans hother.family.symm)]
    refine ⟨_, rfl, ?_⟩
    rw [decide_eq_true_iff]
    constructor
    · intro hwords
      refine ⟨hle, ?_⟩
      have hvalue := congrArg (wordsValue 16) hwords
      have hown' : wordsValue 16 _ = _ := hown.value
      have hother' : wordsValue 16 _ = _ := hother.value
      rw [hown', hother'] at hvalue
      exact Int.eq_of_mul_eq_mul_right (two_pow_pos _).ne' hvalue.symm
    · rintro ⟨-, heq⟩
      apply wordsValue_inj hown.words hother.words (hown.length.trans hother.length.symm)
      have hown' : wordsValue 16 _ = _ := hown.value
      have hother' : wordsValue 16 _ = _ := hother.value
      rw [hown', hother', heq]
  · rw [if_neg hle]
    refine ⟨false, rfl, ?_⟩
    exact iff_of_false Bool.false_ne_true fun h => hle h.1

theorem stepBy_inplace {loop : List Int → List Int → Int → Option (List Int)} {ss : List Int}
    (h : (stepBy loop a ss true).1 = some c) : (stepBy loop a ss true).2 = c := by
  unfold stepBy at h ⊢
  split at h
  · cases h
  · exact Option.some.inj h

def leastAddress (a : Cidr Int) : Int := addressValue a / 2 ^ hostBits a * 2 ^ hostBits a

def greatestAddress (a : Cidr Int) : Int := leastAddress a + 2 ^ hostBits a - 1

theorem stands_range {f : Family} (h : Stands f x c) : 0 ≤ x ∧ x < 2 ^ (maxlen f).toNat := by
  have hrange := wordsValue_range h.words
  rw [h.length, ← maxlen_limbs] at hrange
  rw [← h.value]
  exact hrange

theorem add_one (R : Reals) (h : Stands a.family x a) (heven : x % 2 = 0)
    (hmax : x + 1 < 2 ^ (maxlen a.family).toNat) :
    ∃ c c', add R a (.number 1) true = some (some c, c') ∧ Stands a.family (x + 1) c := by
  obtain ⟨ss, hwords, hss, ⟨-, hlen⟩, hone⟩ :=
    array16_words (R := R) (OperandOf.number (f := a.family) 1 (by decide))
  obtain rfl := h.value
  have hyields := add_yields h hss hlen (hone ▸ noCarry_one heven) true
  rw [hone] at hyields
  obtain ⟨c, hc, hstands, -⟩ := hyields.1 ⟨by have := (stands_range h).1; push_cast; omega, hmax⟩
  refine ⟨c, (stepBy addWords a ss true).2, ?_, hstands⟩
  rw [add, hwords, ← hc]
  rfl

theorem sub_one (R : Reals) (h : Stands a.family x a) (hodd : x % 2 = 1) :
    ∃ r c, sub R a (.number 1) true = some (r, c) ∧ Stands a.family (x - 1) c := by
  obtain ⟨ss, hwords, hss, ⟨-, hlen⟩, hone⟩ :=
    array16_words (R := R) (OperandOf.number (f := a.family) 1 (by decide))
  obtain rfl := h.value
  have hyields := sub_yields h hss hlen (hone ▸ noBorrow_one hodd) true
  have hrange := stands_range h
  rw [hone] at hyields
  obtain ⟨c, hc, hstands, -⟩ := hyields.1 ⟨by push_cast; omega, by push_cast; omega⟩
  refine ⟨some c, c, ?_, hstands⟩
  rw [sub, hwords]
  exact congrArg some (Prod.ext hc (stepBy_inplace hc))

theorem hostBits_of_sublen (h : a.prefixLen ≤ sublen a.family) :
    1 ≤ hostBits a ∧ (a.family = .inet4 → 2 ≤ hostBits a) := by
  unfold hostBits
  cases hfamily : a.family with
  | inet4 =>
    rw [hfamily] at h
    change a.prefixLen ≤ 30 at h
    change 1 ≤ (32 - a.prefixLen).toNat ∧ (_ → 2 ≤ (32 - a.prefixLen).toNat)
    omega
  | inet6 =>
    rw [hfamily] at h
    change a.prefixLen ≤ 127 at h
    change 1 ≤ (128 - a.prefixLen).toNat ∧ _
    exact ⟨by omega, nofun⟩

theorem hosts_stand (R : Reals) (h : IsSubnet a) (hsize : a.prefixLen ≤ sublen a.family) :
    ∃ low high, minhost R a = some (some low) ∧ maxhost R a = some (some high) ∧
      Stands a.family (leastAddress a + 1) low ∧
      Stands a.family (if a.family = .inet4 then greatestAddress a - 1 else greatestAddress a)
        high := by
  obtain ⟨hone, htwo⟩ := hostBits_of_sublen hsize
  obtain ⟨data, hdata, hgreatest⟩ := setHost_stands h hone
  have hleast := network_stands h h rfl
  have hwide : (2 : Int) ≤ 2 ^ hostBits a := le_self_pow₀ (by decide) (by omega)
  have heven := even_block hone (addressValue a)
  have hmax := (stands_range (hgreatest 0)).2
  have hlow : leastAddress a = addressValue a / 2 ^ hostBits a * 2 ^ hostBits a := rfl
  obtain ⟨low, low', hadd, hlow'⟩ : ∃ c c', add R (network a) (.number 1) true = some (some c, c') ∧
      Stands a.family (leastAddress a + 1) c :=
    add_one R hleast heven (by change _ < 2 ^ (maxlen a.family).toNat; omega)
  have hminhost : minhost R a = some (some low) := by
    rw [minhost, if_pos hsize, hadd]
    rfl
  cases hfamily : a.family with
  | inet4 =>
    have hpow : (2 : Int) ^ hostBits a % 2 = 0 := by
      have heven' := even_block hone (2 ^ hostBits a)
      rw [Int.ediv_mul_cancel (Int.dvd_refl _)] at heven'
      exact heven'
    have hodd : greatestAddress a % 2 = 1 := by
      unfold greatestAddress
      omega
    have hstands : Stands a.family (greatestAddress a) ⟨a.family, data, maxlen a.family⟩ :=
      hgreatest _
    obtain ⟨r, high, hhigh, hhigh'⟩ :=
      sub_one (a := ⟨a.family, data, maxlen a.family⟩) R hstands hodd
    refine ⟨low, high, hminhost, ?_, hfamily ▸ hlow', ?_⟩
    · rw [maxhost, if_pos hsize, hdata]
      dsimp only [Option.bind_eq_bind, Option.bind_some]
      rw [if_pos hfamily, hhigh]
      rfl
    · rw [if_pos rfl, ← hfamily]
      exact hhigh'
  | inet6 =>
    refine ⟨low, ⟨a.family, data, maxlen a.family⟩, hminhost, ?_, hfamily ▸ hlow', ?_⟩
    · rw [maxhost, if_pos hsize, hdata]
      dsimp only [Option.bind_eq_bind, Option.bind_some]
      rw [if_neg (by rw [hfamily]; exact nofun)]
    · rw [if_neg nofun, ← hfamily]
      exact hgreatest _

theorem prefixOf_mask (h : IsSubnet a) : prefixOf (mask a) = some a.prefixLen := by
  obtain ⟨p, hp, hbits⟩ := h.bits
  have hcount := prefixWords_mask (p := p) a.words.length 0 (by omega) rfl
  rw [Int.zero_add] at hcount
  rw [hp, ← hcount, ← hp]
  rfl

end Objects

/-- What the operations on a subnet compute. -/
theorem subnet_algebra (R : Reals) (a b : Cidr Int) (ha : IsSubnet a) (hb : IsSubnet b)
    (hfamily : b.family = a.family) :
    (∃ r, contains a b = some r ∧ (r = true ↔ subnet b ⊆ subnet a)) ∧
    ∃ least greatest, IsLeast (subnet a) least ∧ IsGreatest (subnet a) greatest ∧
      Stands a.family least (network a) ∧
      (a.family = .inet4 → a.prefixLen < 32 →
        ∃ c, broadcast a = some c ∧ Stands a.family greatest c) ∧
      (a.prefixLen ≤ sublen a.family →
        ∃ low high lowest highest, minhost R a = some (some low) ∧
          maxhost R a = some (some high) ∧ Stands a.family lowest low ∧
          Stands a.family highest high ∧ lowest = least + 1 ∧
          highest = (if a.family = .inet4 then greatest - 1 else greatest) ∧
          lowest ∈ subnet a ∧ highest ∈ subnet a) ∧
      prefixOf (mask a) = some a.prefixLen := by
  refine ⟨contains_iff ha hb hfamily, leastAddress a, greatestAddress a, isLeast_block _ _,
    isGreatest_block _ _, network_stands ha ha rfl, ?_, ?_, prefixOf_mask ha⟩
  · intro hfour hlt
    have hhost : 0 < hostBits a := by
      rw [hostBits, hfour]
      change 0 < (32 - a.prefixLen).toNat
      omega
    obtain ⟨data, hdata, hgreatest⟩ := setHost_stands ha hhost
    refine ⟨⟨.inet4, data, maxlen .inet4⟩, ?_, ?_⟩
    · rw [broadcast, hfour]
      dsimp only
      rw [hdata]
      rfl
    · have hstands := hgreatest (maxlen .inet4)
      rw [hfour] at hstands ⊢
      exact hstands
  · intro hsize
    obtain ⟨hone, htwo⟩ := hostBits_of_sublen hsize
    obtain ⟨low, high, hlow, hhigh, hlowest, hhighest⟩ := hosts_stand R ha hsize
    have hwide : (2 : Int) ≤ 2 ^ hostBits a := le_self_pow₀ (by decide) (by omega)
    refine ⟨low, high, _, _, hlow, hhigh, hlowest, hhighest, rfl, rfl, ?_, ?_⟩
    · apply mem_block_iff.mpr
      change leastAddress a ≤ _ ∧ _ < leastAddress a + _
      omega
    · apply mem_block_iff.mpr
      change leastAddress a ≤ _ ∧ _ < leastAddress a + _
      unfold greatestAddress
      split
      · omega
      · omega

theorem subnet_algebra_example :
    (∃ r, contains exampleCidr exampleCidr = some r ∧
      (r = true ↔ subnet exampleCidr ⊆ subnet exampleCidr)) ∧
    ∃ least greatest, IsLeast (subnet exampleCidr) least ∧
      IsGreatest (subnet exampleCidr) greatest ∧
      Stands exampleCidr.family least (network exampleCidr) ∧
      (exampleCidr.family = .inet4 → exampleCidr.prefixLen < 32 →
        ∃ c, broadcast exampleCidr = some c ∧ Stands exampleCidr.family greatest c) ∧
      (exampleCidr.prefixLen ≤ sublen exampleCidr.family →
        ∃ low high lowest highest, minhost wholeReals exampleCidr = some (some low) ∧
          maxhost wholeReals exampleCidr = some (some high) ∧
          Stands exampleCidr.family lowest low ∧ Stands exampleCidr.family highest high ∧
          lowest = least + 1 ∧
          highest = (if exampleCidr.family = .inet4 then greatest - 1 else greatest) ∧
          lowest ∈ subnet exampleCidr ∧ highest ∈ subnet exampleCidr) ∧
      prefixOf (mask exampleCidr) = some exampleCidr.prefixLen :=
  subnet_algebra wholeReals exampleCidr exampleCidr exampleCidr_subnet exampleCidr_subnet rfl

end OpenwrtMtk.Luci.Ip
