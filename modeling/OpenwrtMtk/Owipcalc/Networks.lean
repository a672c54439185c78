import OpenwrtMtk.Lib.Bits
import OpenwrtMtk.Owipcalc.Sums

/-!
# Networks

`contains` and `network` compare and keep the bits of a prefix. The IPv4 mask is made of a shift by the
bits behind the prefix, which is one too many for a prefix of 0; the IPv6 operations begin at the byte
with the last bit of the prefix, and `contains` reads that byte also for a prefix of 0.
-/

namespace OpenwrtMtk.Owipcalc

open Toolkit

set_option autoImplicit false

/-- The operations of one family, its addresses, and the prefix that a network is pushed with. -/
structure Networks (α : Type) where
  width : Nat
  value : α → Int
  entry : Cidr α → Entry
  pushed : U32 → U32
  contains : Cidr α → Cidr α → Act
  network : Cidr α → Act

namespace Networks

variable {α : Type} (s : Networks α) (a b : Cidr α) (c : Globals)

/-- The bits of the prefix of `a`. -/
def bits (x : α) : Int := s.value x / 2 ^ hostLen s.width a.prefixLen

def Within : Prop := a.prefixLen ≤ b.prefixLen ∧ s.bits a a.addr = s.bits a b.addr

def ContainsRight : Prop := ∃ res c', s.contains a b c = .ok (res, c') ∧ (res = true ↔ s.Within a b)

def NetworkRight : Prop := ∃ x,
  s.network a c = .ok (true, c.push (s.entry ⟨x, s.pushed a.prefixLen⟩)) ∧
    s.value x = s.bits a a.addr * 2 ^ hostLen s.width a.prefixLen

end Networks

def networks4 : Networks U32 := ⟨32, value4, .inet, fun _ => 32, cidrContains4, cidrNetwork4⟩

def networks6 : Networks In6Addr := ⟨128, value6, .inet6, fun p => p, cidrContains6, cidrNetwork6⟩

section Inet

variable {a b : Cidr U32} {c : Globals} {x y : U32}

theorem ntohl_htonl (x : U32) : ntohl (htonl x) = x := by
  unfold ntohl htonl
  apply BitVec.eq_of_getLsbD_eq
  intro i hi
  simp only [BitVec.getLsbD_or, BitVec.getLsbD_and, BitVec.getLsbD_shiftLeft,
    BitVec.getLsbD_ushiftRight]
  interval_cases i <;> simp

theorem ntohl_and (x y : U32) : ntohl (x &&& y) = ntohl x &&& ntohl y := by
  unfold ntohl htonl
  apply BitVec.eq_of_getLsbD_eq
  intro i hi
  simp only [BitVec.getLsbD_or, BitVec.getLsbD_and, BitVec.getLsbD_shiftLeft,
    BitVec.getLsbD_ushiftRight]
  interval_cases i <;> simp

theorem toNat_ones {s : U32} (hs : s.toNat < 32) : (1#32 <<< s - 1).toNat = 2 ^ s.toNat - 1 := by
  have hpow : (1#32 <<< s).toNat = 2 ^ s.toNat := by
    rw [BitVec.shiftLeft_eq', BitVec.toNat_shiftLeft]
    change 1 <<< s.toNat % 2 ^ 32 = _
    rw [Nat.one_shiftLeft]
    exact Nat.mod_eq_of_lt (Nat.pow_lt_pow_right (by decide) hs)
  have hone : 1#32 ≤ 1#32 <<< s := by
    rw [BitVec.le_def, hpow]
    exact Nat.one_le_two_pow
  change (1#32 <<< s - 1#32).toNat = _
  rw [BitVec.toNat_sub_of_le hone, hpow]
  rfl

def mask4 (p : U32) : U32 := ~~~(1#32 <<< (32 - p) - 1)

theorem value4_mask {p : U32} (hne : p ≠ 0) (hle : p ≤ 32) (x : U32) :
    value4 (x &&& htonl (mask4 p)) = value4 x / 2 ^ hostLen 32 p * 2 ^ hostLen 32 p := by
  have hsub : (32 - p).toNat = hostLen 32 p := by
    rw [hostLen]
    bv_omega
  have hones := toNat_ones (BitVec.lt_def.mp (sub_prefixLen hne hle))
  rw [hsub] at hones
  rw [value4, ntohl_and, ntohl_htonl, mask4, toNat_and_not _ _ hones, value4]
  push_cast
  rfl

theorem ntohl_inj (h : ntohl x = ntohl y) : x = y := by
  rw [← ntohl_htonl x, ← ntohl_htonl y]
  exact congrArg htonl h

theorem value4_inj (h : value4 x = value4 y) : x = y :=
  ntohl_inj (BitVec.eq_of_toNat_eq (Int.ofNat.inj h))

theorem shiftOne_all : shiftOne (32 - 0) = .error (.shift 32) := rfl

theorem contains4 (hle : a.prefixLen ≤ 32) :
    networks4.ContainsRight a b c ↔ a.prefixLen ≠ 0 := by
  constructor
  · rintro ⟨res, c', hrun, -⟩ hzero
    change cidrContains4 a b c = _ at hrun
    rw [cidrContains4, hzero, shiftOne_all] at hrun
    cases hrun
  · intro hne
    have hpos : (2 : Int) ^ hostLen 32 a.prefixLen ≠ 0 := (two_pow_pos _).ne'
    have hnet : a.addr &&& htonl (mask4 a.prefixLen) = b.addr &&& htonl (mask4 a.prefixLen) ↔
        networks4.bits a a.addr = networks4.bits a b.addr := by
      constructor
      · intro heq
        have hvalue := congrArg value4 heq
        rw [value4_mask hne hle, value4_mask hne hle] at hvalue
        exact Int.eq_of_mul_eq_mul_right hpos hvalue
      · intro hbits
        apply value4_inj
        rw [value4_mask hne hle, value4_mask hne hle]
        exact congrArg (· * 2 ^ hostLen 32 a.prefixLen) hbits
    have hrun : cidrContains4 a b c = .ok (c.answerBool (decide (a.prefixLen ≤ b.prefixLen) &&
        decide (a.addr &&& htonl (mask4 a.prefixLen) = b.addr &&& htonl (mask4 a.prefixLen)))) := by
      rw [cidrContains4, shiftOne_ok (sub_prefixLen hne hle)]
      rfl
    refine ⟨_, _, hrun, ?_⟩
    rw [Bool.and_eq_true, decide_eq_true_iff, decide_eq_true_iff, hnet]
    rfl

theorem network4 (hle : a.prefixLen ≤ 32) : networks4.NetworkRight a c ↔ a.prefixLen ≠ 0 := by
  constructor
  · rintro ⟨x, hrun, -⟩ hzero
    change cidrNetwork4 a c = _ at hrun
    rw [cidrNetwork4, hzero, shiftOne_all] at hrun
    cases hrun
  · intro hne
    refine ⟨a.addr &&& htonl (mask4 a.prefixLen), ?_, value4_mask hne hle a.addr⟩
    change cidrNetwork4 a c = _
    rw [cidrNetwork4, shiftOne_ok (sub_prefixLen hne hle)]
    rfl

end Inet

section Inet6

variable {a b : Cidr In6Addr} {c : Globals} {x y : In6Addr} {p n : Nat}

/-- The bits that a prefix of `p` leaves out of the byte `j`. -/
def cutBits (p j : Nat) : Nat := min 8 (8 * (j + 1) - p)

theorem cleared6_value (hp : p ≤ 128) (x : In6Addr) : wordsValue 8 (cleared 8 p (bytes6 x)) =
    value6 x / 2 ^ (128 - p) * 2 ^ (128 - p) := by
  have hlen : 8 * (bytes6 x).length = 128 := by rw [length_bytes6]
  have hcleared := value_cleared (inWords_bytes6 x) (p := p) (by omega)
  rw [hlen] at hcleared
  exact hcleared

theorem bytes6_at (x : In6Addr) {j : Nat} (hj : j < 16) : (bytes6 x)[j]? = some (x[j].toNat : Int) := by
  simp [bytes6, hj]

theorem cleared6_at (p : Nat) (x : In6Addr) {j : Nat} (hj : j < 16) : (cleared 8 p (bytes6 x))[j]? =
    some ((x[j].toNat : Int) / 2 ^ cutBits p j * 2 ^ cutBits p j) := by
  rw [getElem?_cleared (inWords_bytes6 x), bytes6_at x hj]
  rfl

theorem eq_of_bytes {us vs : List Int} (hu : us.length = 16) (hv : vs.length = 16)
    (h : ∀ j < 16, us[j]? = vs[j]?) : us = vs := by
  apply List.ext_getElem?
  intro j
  by_cases hj : j < 16
  · exact h j hj
  · rw [List.getElem?_eq_none (by omega), List.getElem?_eq_none (by omega)]

theorem length_cleared6 (p : Nat) (x : In6Addr) : (cleared 8 p (bytes6 x)).length = 16 := by
  rw [length_cleared, length_bytes6]

theorem value6_cut (hp : p ≤ 128) (h : ∀ j, (hj : j < 16) →
    (y[j].toNat : Int) = x[j].toNat / 2 ^ cutBits p j * 2 ^ cutBits p j) :
    value6 y = value6 x / 2 ^ (128 - p) * 2 ^ (128 - p) := by
  have hcleared : bytes6 y = cleared 8 p (bytes6 x) := by
    apply eq_of_bytes (length_bytes6 y) (length_cleared6 p x)
    intro j hj
    rw [bytes6_at y hj, cleared6_at p x hj, h j hj]
  rw [value6, hcleared, cleared6_value hp]

theorem bits6_eq_iff (hp : p ≤ 128) (x y : In6Addr) :
    value6 x / 2 ^ (128 - p) = value6 y / 2 ^ (128 - p) ↔ ∀ j, (hj : j < 16) →
      (x[j].toNat : Int) / 2 ^ cutBits p j * 2 ^ cutBits p j =
        y[j].toNat / 2 ^ cutBits p j * 2 ^ cutBits p j := by
  constructor
  · intro h j hj
    have hsame : cleared 8 p (bytes6 x) = cleared 8 p (bytes6 y) := by
      apply wordsValue_inj (inWords_cleared (inWords_bytes6 x) p) (inWords_cleared (inWords_bytes6 y) p)
      · rw [length_cleared6, length_cleared6]
      · rw [cleared6_value hp, cleared6_value hp, h]
    have hat := cleared6_at p x hj
    rw [hsame, cleared6_at p y hj] at hat
    exact (Option.some.inj hat).symm
  · intro h
    have hsame : cleared 8 p (bytes6 x) = cleared 8 p (bytes6 y) := by
      apply eq_of_bytes (length_cleared6 p x) (length_cleared6 p y)
      intro j hj
      rw [cleared6_at p x hj, cleared6_at p y hj, h j hj]
    have hvalue := congrArg (wordsValue 8) hsame
    rw [cleared6_value hp, cleared6_value hp] at hvalue
    exact Int.eq_of_mul_eq_mul_right (two_pow_pos _).ne' hvalue

theorem cutBits_before (h : 8 * (n + 1) ≤ p) : cutBits p n = 0 := by
  rw [cutBits]
  omega

theorem cutBits_behind (h : p ≤ 8 * n) : cutBits p n = 8 := by
  rw [cutBits]
  omega

theorem cut_none (b : U8) (h : cutBits p n = 0) :
    (b.toNat : Int) = b.toNat / 2 ^ cutBits p n * 2 ^ cutBits p n := by
  rw [h, pow_zero, Int.ediv_one, Int.mul_one]

theorem cut_all (b : U8) (h : cutBits p n = 8) :
    (b.toNat : Int) / 2 ^ cutBits p n * 2 ^ cutBits p n = 0 := by
  have hb := b.isLt
  rw [h, Int.ediv_eq_zero_of_lt (by omega) (by omega), Int.zero_mul]

theorem byte_mask {s : U32} (hs : s.toNat < 8) (b : U8) :
    ((b &&& (~~~(1#32 <<< s - 1)).setWidth 8).toNat : Int) =
      b.toNat / 2 ^ s.toNat * 2 ^ s.toNat := by
  have hones : ((1#32 <<< s - 1).setWidth 8).toNat = 2 ^ s.toNat - 1 := by
    rw [BitVec.toNat_setWidth, toNat_ones (by omega)]
    have hlt : 2 ^ s.toNat < 2 ^ 8 := Nat.pow_lt_pow_right (by decide) hs
    exact Nat.mod_eq_of_lt (by omega)
  rw [BitVec.setWidth_not (by decide), toNat_and_not _ _ hones]
  push_cast
  rfl

theorem clearBytes_value : ∀ (n i : Nat) (x : In6Addr), i + n ≤ 16 →
    ∃ y, clearBytes n i x = .ok y ∧ ∀ j, (hj : j < 16) →
      (16 ≤ i + n + j ∧ i + j < 16 → y[j] = 0) ∧ (¬(16 ≤ i + n + j ∧ i + j < 16) → y[j] = x[j]) := by
  intro n
  induction n with
  | zero =>
    intro i x h
    refine ⟨x, rfl, ?_⟩
    intro j hj
    exact ⟨fun hin => by omega, fun _ => rfl⟩
  | succ n ih =>
    intro i x h
    obtain ⟨y, hy, hbytes⟩ := ih (i + 1) (x.set (15 - i) 0) (by omega)
    have hindex : (15 - (i : Int)) = ((15 - i : Nat) : Int) := by omega
    refine ⟨y, ?_, ?_⟩
    · rw [clearBytes, hindex, setByte_eq x 0 (by omega)]
      exact hy
    · intro j hj
      obtain ⟨hzero, hold⟩ := hbytes j hj
      by_cases hlast : j = 15 - i
      · have hfirst := hold (by omega)
        subst hlast
        rw [Vector.getElem_set_self] at hfirst
        exact ⟨fun _ => hfirst, fun hout => by omega⟩
      · rw [Vector.getElem_set_ne _ _ (by omega)] at hold
        exact ⟨fun hin => hzero (by omega), fun hout => hold (by omega)⟩

theorem cutBits_last {p : Nat} (hp : p ≤ 128) (hpos : 0 < p) :
    cutBits p (15 - (128 - p) / 8) = (128 - p) % 8 := by
  rw [cutBits]
  omega

theorem network6 (hle : a.prefixLen ≤ 128) : networks6.NetworkRight a c := by
  obtain ⟨hbytes, hbits⟩ := hostBits hle
  have hp : a.prefixLen.toNat ≤ 128 := hle
  obtain ⟨y, hy, hcells⟩ := clearBytes_value ((128 - a.prefixLen) / 8).toNat 0 a.addr (by omega)
  rw [hbytes] at hcells
  by_cases hpart : (128 - a.prefixLen) % 8 = 0
  · have hwhole : (128 - a.prefixLen.toNat) % 8 = 0 := by
      rw [← hbits, hpart]
      rfl
    refine ⟨y, ?_, value6_cut hp ?_⟩
    · change cidrNetwork6 a c = _
      rw [cidrNetwork6, hy]
      change (if (128 - a.prefixLen) % 8 = 0 then _ else _) = _
      rw [if_pos hpart]
      rfl
    · intro j hj
      obtain ⟨hzero, hold⟩ := hcells j hj
      by_cases hin : a.prefixLen.toNat ≤ 8 * j
      · rw [hzero (by omega), cut_all _ (cutBits_behind hin)]
        rfl
      · rw [hold (by omega)]
        exact cut_none _ (cutBits_before (by omega))
  · have hne : (128 - a.prefixLen.toNat) % 8 ≠ 0 := by
      intro h
      exact hpart (BitVec.eq_of_toNat_eq (hbits.trans h))
    have hindex : (15 - (((128 - a.prefixLen.toNat) / 8 % 256 : Nat) : Int)) =
        ((15 - (128 - a.prefixLen.toNat) / 8 : Nat) : Int) := by omega
    have hlast : y[15 - (128 - a.prefixLen.toNat) / 8] = a.addr[15 - (128 - a.prefixLen.toNat) / 8] :=
      (hcells _ (by omega)).2 (by omega)
    have hshift : (128 - a.prefixLen) % 8 < 32 := by
      rw [BitVec.lt_def, hbits]
      change _ < 32
      omega
    refine ⟨y.set (15 - (128 - a.prefixLen.toNat) / 8) (a.addr[15 - (128 - a.prefixLen.toNat) / 8] &&&
      (~~~(1#32 <<< ((128 - a.prefixLen) % 8) - 1)).setWidth 8), ?_, value6_cut hp ?_⟩
    · change cidrNetwork6 a c = _
      rw [cidrNetwork6, hy]
      change (if (128 - a.prefixLen) % 8 = 0 then _ else _) = _
      rw [if_neg hpart, hbytes, hindex, byteAt_eq y (by omega), hlast]
      change (shiftOne _ >>= _) = _
      rw [shiftOne_ok hshift]
      change (setByte y _ _ >>= _) = _
      rw [setByte_eq y _ (by omega)]
      rfl
    · intro j hj
      obtain ⟨hzero, hold⟩ := hcells j hj
      by_cases hpart : j = 15 - (128 - a.prefixLen.toNat) / 8
      · subst hpart
        rw [Vector.getElem_set_self, byte_mask (by omega), hbits, cutBits_last hp (by omega)]
      · rw [Vector.getElem_set_ne _ _ (by omega)]
        by_cases hin : a.prefixLen.toNat ≤ 8 * j
        · rw [hzero (by omega), cut_all _ (cutBits_behind hin)]
          rfl
        · rw [hold (by omega)]
          exact cut_none _ (cutBits_before (by omega))

theorem take_eq_iff (hn : n ≤ 16) : x.toList.take n = y.toList.take n ↔
    ∀ j, (hj : j < 16) → j < n → x[j] = y[j] := by
  constructor
  · intro h j hj hlt
    have hat := congrArg (·[j]?) h
    simpa [List.getElem?_take, hlt, hj] using hat
  · intro h
    apply List.ext_getElem?
    intro j
    by_cases hlt : j < n
    · have hj : j < 16 := by omega
      simp [hlt, hj, h j hj hlt]
    · simp [hlt]

/-- What `contains` compares are the bits of the prefix. -/
theorem compared_iff (hp : p ≤ 128) (hpos : 0 < p) {s : U32} (hs : s.toNat = (128 - p) % 8) :
    (x[15 - (128 - p) / 8] &&& (~~~(1#32 <<< s - 1)).setWidth 8 =
        y[15 - (128 - p) / 8] &&& (~~~(1#32 <<< s - 1)).setWidth 8 ∧
      ((128 - p) / 8 = 15 ∨
        x.toList.take (15 - (128 - p) / 8) = y.toList.take (15 - (128 - p) / 8))) ↔
      value6 x / 2 ^ (128 - p) = value6 y / 2 ^ (128 - p) := by
  have hlt : s.toNat < 8 := by omega
  rw [bits6_eq_iff hp, take_eq_iff (by omega)]
  constructor
  · rintro ⟨hmasked, hfirst⟩ j hj
    rcases Nat.lt_trichotomy j (15 - (128 - p) / 8) with hbefore | rfl | hbehind
    · have hbyte : x[j] = y[j] := by
        rcases hfirst with hall | hsame
        · omega
        · exact hsame j hj hbefore
      rw [hbyte]
    · have hbyte := congrArg (fun b : U8 => (b.toNat : Int)) hmasked
      rw [byte_mask hlt, byte_mask hlt, hs] at hbyte
      rw [cutBits_last hp hpos]
      exact hbyte
    · have hcut : cutBits p j = 8 := cutBits_behind (by omega)
      rw [cut_all _ hcut, cut_all _ hcut]
  · intro h
    refine ⟨?_, Or.inr ?_⟩
    · have hbyte := h (15 - (128 - p) / 8) (by omega)
      rw [cutBits_last hp hpos, ← hs, ← byte_mask hlt, ← byte_mask hlt] at hbyte
      exact BitVec.eq_of_toNat_eq (Int.ofNat.inj hbyte)
    · intro j hj hbefore
      have hcut : cutBits p j = 0 := cutBits_before (by omega)
      have hbyte := h j hj
      rw [← cut_none _ hcut, ← cut_none _ hcut] at hbyte
      exact BitVec.eq_of_toNat_eq (Int.ofNat.inj hbyte)

theorem contains6 (hle : a.prefixLen ≤ 128) :
    networks6.ContainsRight a b c ↔ a.prefixLen ≠ 0 := by
  obtain ⟨hbytes, hbits⟩ := hostBits hle
  have hp : a.prefixLen.toNat ≤ 128 := hle
  constructor
  · rintro ⟨res, c', hrun, -⟩ hzero
    change cidrContains6 a b c = _ at hrun
    rw [cidrContains6, hzero] at hrun
    cases hrun
  · intro hne
    have hpos : 0 < a.prefixLen.toNat := by
      apply Nat.pos_of_ne_zero
      exact fun h => hne (BitVec.eq_of_toNat_eq h)
    have hindex : (15 - (((128 - a.prefixLen.toNat) / 8 : Nat) : Int)) =
        ((15 - (128 - a.prefixLen.toNat) / 8 : Nat) : Int) := by omega
    have hmod : (128 - a.prefixLen.toNat) / 8 % 256 = (128 - a.prefixLen.toNat) / 8 := by omega
    have hshift : (128 - a.prefixLen) % 8 < 32 := by
      rw [BitVec.lt_def, hbits]
      change _ < 32
      omega
    have hcompared := @compared_iff a.addr b.addr _ hp hpos _ hbits
    have hrun : cidrContains6 a b c = .ok ((c.push (.inet6 a)).answerBool
        (decide (a.prefixLen ≤ b.prefixLen) &&
          decide (a.addr[15 - (128 - a.prefixLen.toNat) / 8] &&& (~~~(1#32 <<< ((128 - a.prefixLen) % 8) - 1)).setWidth 8 =
            b.addr[15 - (128 - a.prefixLen.toNat) / 8] &&& (~~~(1#32 <<< ((128 - a.prefixLen) % 8) - 1)).setWidth 8) &&
          (decide ((128 - a.prefixLen.toNat) / 8 = 15) ||
            decide (a.addr.toList.take (15 - (128 - a.prefixLen.toNat) / 8) =
              b.addr.toList.take (15 - (128 - a.prefixLen.toNat) / 8))))) := by
      rw [cidrContains6, hbytes, hmod, shiftOne_ok hshift]
      change (byteAt a.addr _ >>= _) = _
      rw [hindex, byteAt_eq a.addr (by omega)]
      change (byteAt b.addr _ >>= _) = _
      rw [byteAt_eq b.addr (by omega)]
      rfl
    refine ⟨_, _, hrun, ?_⟩
    rw [Bool.and_eq_true, Bool.and_eq_true, Bool.or_eq_true, decide_eq_true_iff, decide_eq_true_iff,
      decide_eq_true_iff, decide_eq_true_iff, and_assoc, hcompared]
    rfl

end Inet6

section Both

variable {a b : Cidr U32} {x y : Cidr In6Addr}

/-- Both are right unless the prefix is 0; `network` is so for an IPv6 address in any case. -/
theorem networks_right_iff (ha : a.prefixLen ≤ 32) (hx : x.prefixLen ≤ 128) (c : Globals) :
    (networks4.ContainsRight a b c ↔ a.prefixLen ≠ 0) ∧
      (networks4.NetworkRight a c ↔ a.prefixLen ≠ 0) ∧
      (networks6.ContainsRight x y c ↔ x.prefixLen ≠ 0) ∧ networks6.NetworkRight x c :=
  ⟨contains4 ha, network4 ha, contains6 hx, network6 hx⟩

theorem networks_right_slash24 :
    networks4.ContainsRight ⟨htonl 0xc0a80100, 24⟩ ⟨htonl 0xc0a80105, 32⟩ emptyStack ∧
      networks6.ContainsRight ⟨Vector.replicate 16 0, 64⟩ ⟨Vector.replicate 16 0, 80⟩ emptyStack := by
  have hright := @networks_right_iff ⟨htonl 0xc0a80100, 24⟩ ⟨htonl 0xc0a80105, 32⟩
    ⟨Vector.replicate 16 0, 64⟩ ⟨Vector.replicate 16 0, 80⟩ (by decide) (by decide) emptyStack
  exact ⟨hright.1.mpr (by decide), hright.2.2.1.mpr (by decide)⟩

/-- The prefix of every address. -/
theorem no_network_zero :
    ¬ ∀ (a b : Cidr U32) (x y : Cidr In6Addr) (c : Globals), a.prefixLen ≤ 32 → b.prefixLen ≤ 32 →
      x.prefixLen ≤ 128 → y.prefixLen ≤ 128 →
      networks4.ContainsRight a b c ∧ networks4.NetworkRight a c ∧
        networks6.ContainsRight x y c ∧ networks6.NetworkRight x c := by
  intro hclaim
  have hright := hclaim ⟨0, 0⟩ ⟨0, 0⟩ ⟨Vector.replicate 16 0, 64⟩ ⟨Vector.replicate 16 0, 64⟩
    emptyStack (by decide) (by decide) (by decide) (by decide)
  exact (network4 (by decide)).mp hright.2.1 rfl

end Both

end OpenwrtMtk.Owipcalc
