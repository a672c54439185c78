import Mathlib.Tactic.IntervalCases
import Mathlib.Tactic.LinearCombination
import OpenwrtMtk.Lib.Words
import OpenwrtMtk.Owipcalc.Prefixes

/-!
# next and prev

The value of an address, and what `next` and `prev` do to it. The IPv4 operations add in network byte
order, so that they are right as long as nothing is carried out of the byte with the last bit of the
prefix; the IPv6 operations add one to that byte, which is the step of a prefix of whole bytes.
-/

namespace OpenwrtMtk.Owipcalc

open Toolkit

set_option autoImplicit false

/-- The operations of one family, and its addresses. -/
structure Steps (α : Type) where
  width : Nat
  value : α → Int
  entry : Cidr α → Entry
  next : Cidr α → Cidr α → Act
  prev : Cidr α → Cidr α → Act

namespace Steps

variable {α : Type} (s : Steps α) (a b : Cidr α) (c : Globals)

def size : Int := 2 ^ (s.width - b.prefixLen.toNat)

def Pushes (target : Int) (run : Except Fault (Bool × Globals)) : Prop :=
  (0 ≤ target ∧ target < 2 ^ s.width → ∃ x,
    run = .ok (true, c.push (s.entry ⟨x, b.prefixLen⟩)) ∧ s.value x = target) ∧
  (¬(0 ≤ target ∧ target < 2 ^ s.width) → ∃ c', run = .ok (false, c'))

def NextRight : Prop := s.Pushes b c (s.value a.addr + s.size b) (s.next a b c)

def PrevRight : Prop := s.Pushes b c (s.value a.addr - s.size b) (s.prev a b c)

/-- Behind a `next` that succeeds, `prev` pushes the first address again. -/
def Restored : Prop :=
  ∀ c', s.next a b c = .ok (true, c') → ∃ x, c' = c.push (s.entry ⟨x, b.prefixLen⟩) ∧
    s.prev ⟨x, b.prefixLen⟩ b c' = .ok (true, c'.push (s.entry ⟨a.addr, b.prefixLen⟩))

end Steps

/-- The number that `s_addr` stands for. -/
def value4 (x : U32) : Int := (ntohl x).toNat

def bytes6 (x : In6Addr) : List Int := x.toList.map fun b => (b.toNat : Int)

def value6 (x : In6Addr) : Int := wordsValue 8 (bytes6 x)

def steps4 : Steps U32 := ⟨32, value4, .inet, cidrNext4, cidrPrev4⟩

def steps6 : Steps In6Addr := ⟨128, value6, .inet6, cidrNext6, cidrPrev6⟩

section Pushes

variable {α : Type} {s : Steps α} {b : Cidr α} {c c' : Globals} {target : Int} {x : α}
  {run : Except Fault (Bool × Globals)}

theorem push_inj {e e' : Entry} (h : c.push e = c.push e') : e = e' := by
  have hstack := congrArg Globals.stack h
  exact (List.cons.inj hstack).1

theorem pushes_true (hentry : ∀ x y, s.entry x = s.entry y → x = y)
    (hrun : run = .ok (true, c.push (s.entry ⟨x, b.prefixLen⟩))) :
    s.Pushes b c target run ↔ (0 ≤ target ∧ target < 2 ^ s.width) ∧ s.value x = target := by
  constructor
  · rintro ⟨hfits, hnot⟩
    by_cases h : 0 ≤ target ∧ target < 2 ^ s.width
    · obtain ⟨y, hy, hvalue⟩ := hfits h
      rw [hrun] at hy
      have heq := hentry _ _ (push_inj (Prod.mk.inj (Except.ok.inj hy)).2)
      cases heq
      exact ⟨h, hvalue⟩
    · obtain ⟨c', hc'⟩ := hnot h
      rw [hrun] at hc'
      cases hc'
  · rintro ⟨hfits, hvalue⟩
    exact ⟨fun _ => ⟨x, hrun, hvalue⟩, fun h => absurd hfits h⟩

theorem pushes_false (hrun : run = .ok (false, c')) :
    s.Pushes b c target run ↔ ¬(0 ≤ target ∧ target < 2 ^ s.width) := by
  constructor
  · rintro ⟨hfits, -⟩ h
    obtain ⟨y, hy, -⟩ := hfits h
    rw [hrun] at hy
    cases hy
  · intro h
    exact ⟨fun hfits => absurd hfits h, fun _ => ⟨c', hrun⟩⟩

end Pushes

section Inet

variable {x d : U32} {j t : Nat}

theorem ntohl_bytes (x : U32) : ntohl x =
    x.extractLsb' 0 8 ++ x.extractLsb' 8 8 ++ x.extractLsb' 16 8 ++ x.extractLsb' 24 8 := by
  unfold ntohl htonl
  apply BitVec.eq_of_getLsbD_eq
  intro i hi
  simp only [BitVec.getLsbD_append, BitVec.getLsbD_extractLsb', BitVec.getLsbD_or,
    BitVec.getLsbD_and, BitVec.getLsbD_shiftLeft, BitVec.getLsbD_ushiftRight]
  interval_cases i <;> simp

theorem value4_bytes (x : U32) :
    value4 x = (x.toNat % 256 * 2 ^ 24 + x.toNat / 2 ^ 8 % 256 * 2 ^ 16 +
      x.toNat / 2 ^ 16 % 256 * 2 ^ 8 + x.toNat / 2 ^ 24 : Nat) := by
  have hx := x.isLt
  rw [value4, ntohl_bytes]
  simp only [BitVec.toNat_append, BitVec.extractLsb'_toNat, Nat.shiftRight_eq_div_pow]
  rw [← Nat.shiftLeft_add_eq_or_of_lt (by omega), ← Nat.shiftLeft_add_eq_or_of_lt (by omega),
    ← Nat.shiftLeft_add_eq_or_of_lt (by omega)]
  simp only [Nat.shiftLeft_eq]
  omega

/-- The byte of the address with the weight 256 ^ `j`. -/
def byteOf (x : U32) (j : Nat) : Int := value4 x / 256 ^ j % 256

theorem exists_bytes (x : U32) : ∃ b₀ b₁ b₂ b₃ : Nat, b₀ < 256 ∧ b₁ < 256 ∧ b₂ < 256 ∧ b₃ < 256 ∧
    x.toNat = b₀ + 256 * b₁ + 65536 * b₂ + 16777216 * b₃ := by
  have hx := x.isLt
  refine ⟨x.toNat % 256, x.toNat / 256 % 256, x.toNat / 65536 % 256, x.toNat / 16777216, ?_⟩
  omega

theorem value4_of_bytes {b₀ b₁ b₂ b₃ : Nat} (h₀ : b₀ < 256) (h₁ : b₁ < 256) (h₂ : b₂ < 256)
    (h : x.toNat = b₀ + 256 * b₁ + 65536 * b₂ + 16777216 * b₃) :
    value4 x = (16777216 * b₀ + 65536 * b₁ + 256 * b₂ + b₃ : Nat) := by
  rw [value4_bytes, h]
  congr 1
  omega

theorem value_bytes {b₀ b₁ b₂ b₃ : Nat} (h₀ : b₀ < 256) (h₁ : b₁ < 256) (h₂ : b₂ < 256)
    (h₃ : b₃ < 256) :
    ((16777216 * b₀ + 65536 * b₁ + 256 * b₂ + b₃ : Nat) : Int) / 256 ^ 0 % 256 = b₃ ∧
    ((16777216 * b₀ + 65536 * b₁ + 256 * b₂ + b₃ : Nat) : Int) / 256 ^ 1 % 256 = b₂ ∧
    ((16777216 * b₀ + 65536 * b₁ + 256 * b₂ + b₃ : Nat) : Int) / 256 ^ 2 % 256 = b₁ ∧
    ((16777216 * b₀ + 65536 * b₁ + 256 * b₂ + b₃ : Nat) : Int) / 256 ^ 3 % 256 = b₀ := by
  norm_num
  omega

theorem value4_add (hj : j < 4) (ht : 0 < t ∧ t ≤ 128) (hd : d.toNat = t * 256 ^ (3 - j)) :
    (value4 x + t * 256 ^ j < 2 ^ 32 ∧ value4 (x + d) = value4 x + t * 256 ^ j) ↔
      byteOf x j + t < 256 := by
  obtain ⟨b₀, b₁, b₂, b₃, h₀, h₁, h₂, h₃, hx⟩ := exists_bytes x
  have hsum : (x + d).toNat = (x.toNat + d.toNat) % 2 ^ 32 := BitVec.toNat_add x d
  obtain ⟨c₀, c₁, c₂, c₃, g₀, g₁, g₂, g₃, hc⟩ := exists_bytes (x + d)
  rw [hd, hx, hc] at hsum
  rw [byteOf, value4_of_bytes h₀ h₁ h₂ hx, value4_of_bytes g₀ g₁ g₂ hc]
  have hbyte := value_bytes h₀ h₁ h₂ h₃
  interval_cases j
  · rw [hbyte.1]
    norm_num at hsum ⊢
    have e₀ : c₀ = b₀ := by omega
    have e₁ : c₁ = b₁ := by omega
    have e₂ : c₂ = b₂ := by omega
    have e₃ : c₃ = (b₃ + t) % 256 := by omega
    clear hx hc hsum hd hbyte
    omega
  · rw [hbyte.2.1]
    norm_num at hsum ⊢
    have e₀ : c₀ = b₀ := by omega
    have e₁ : c₁ = b₁ := by omega
    have e₂ : c₂ = (b₂ + t) % 256 := by omega
    have e₃ : c₃ = (b₃ + (b₂ + t) / 256) % 256 := by omega
    clear hx hc hsum hd hbyte
    omega
  · rw [hbyte.2.2.1]
    norm_num at hsum ⊢
    have e₀ : c₀ = b₀ := by omega
    have e₁ : c₁ = (b₁ + t) % 256 := by omega
    have e₂ : c₂ = (b₂ + (b₁ + t) / 256) % 256 := by omega
    have e₃ : c₃ = (b₃ + (b₂ + (b₁ + t) / 256) / 256) % 256 := by omega
    clear hx hc hsum hd hbyte
    omega
  · rw [hbyte.2.2.2]
    norm_num at hsum ⊢
    have e₀ : c₀ = (b₀ + t) % 256 := by omega
    have e₁ : c₁ = (b₁ + (b₀ + t) / 256) % 256 := by omega
    have e₂ : c₂ = (b₂ + (b₁ + (b₀ + t) / 256) / 256) % 256 := by omega
    have e₃ : c₃ = (b₃ + (b₂ + (b₁ + (b₀ + t) / 256) / 256) / 256) % 256 := by omega
    clear hx hc hsum hd hbyte
    omega

theorem value4_range (x : U32) : 0 ≤ value4 x ∧ value4 x < 2 ^ 32 := by
  have hlt := (ntohl x).isLt
  rw [value4]
  omega

theorem byte_add {v p : Int} (hp : p ≠ 0) (h : v / p % 256 + t < 256) :
    (v + t * p) / p % 256 = v / p % 256 + t := by
  rw [Int.add_mul_ediv_right _ _ hp]
  omega

theorem value4_sub (hj : j < 4) (ht : 0 < t ∧ t ≤ 128) (hd : d.toNat = t * 256 ^ (3 - j)) :
    (0 ≤ value4 x - t * 256 ^ j ∧ value4 (x - d) = value4 x - t * 256 ^ j) ↔ t ≤ byteOf x j := by
  constructor
  · rintro ⟨-, hvalue⟩
    have hback : value4 x = value4 (x - d) + t * 256 ^ j := by rw [hvalue, Int.sub_add_cancel]
    have hrange : value4 (x - d) + t * 256 ^ j < 2 ^ 32 := hback ▸ (value4_range x).2
    have hsum : value4 (x - d + d) = value4 (x - d) + t * 256 ^ j := by
      rw [BitVec.sub_add_cancel, hback]
    have hroom : byteOf (x - d) j + t < 256 := (value4_add hj ht hd).mp ⟨hrange, hsum⟩
    have hbyte : byteOf x j = byteOf (x - d) j + t := by
      rw [byteOf, hback]
      exact byte_add (pow_ne_zero j (by decide)) hroom
    have hlow : 0 ≤ byteOf (x - d) j := Int.emod_nonneg _ (by decide)
    rw [hbyte]
    exact Int.le_add_of_nonneg_left hlow
  · intro hle
    obtain ⟨b₀, b₁, b₂, b₃, h₀, h₁, h₂, h₃, hx⟩ := exists_bytes x
    have hdiff : (x - d).toNat = (2 ^ 32 - d.toNat + x.toNat) % 2 ^ 32 := BitVec.toNat_sub x d
    have hbyte := value_bytes h₀ h₁ h₂ h₃
    have hxlt := x.isLt
    rw [hd] at hdiff
    rw [byteOf, value4_of_bytes h₀ h₁ h₂ hx] at hle
    rw [value4_of_bytes h₀ h₁ h₂ hx]
    interval_cases j
    · rw [hbyte.1] at hle
      rw [@value4_of_bytes (x - d) b₀ b₁ b₂ (b₃ - t) h₀ h₁ h₂ (by omega)]
      omega
    · rw [hbyte.2.1] at hle
      rw [@value4_of_bytes (x - d) b₀ b₁ (b₂ - t) b₃ h₀ h₁ (by omega) (by omega)]
      omega
    · rw [hbyte.2.2.1] at hle
      rw [@value4_of_bytes (x - d) b₀ (b₁ - t) b₂ b₃ h₀ (by omega) h₂ (by omega)]
      omega
    · rw [hbyte.2.2.2] at hle
      rw [@value4_of_bytes (x - d) (b₀ - t) b₁ b₂ b₃ (by omega) h₁ h₂ (by omega)]
      omega

variable {a b : Cidr U32} {c : Globals}

theorem htonl_bit : ∀ q < 32, (htonl (1#32 <<< q)).toNat = 2 ^ (q % 8) * 256 ^ (3 - q / 8) := by
  decide

def hostLen (width : Nat) (b : U32) : Nat := width - b.toNat

theorem two_pow_split (q : Nat) : (2 : Int) ^ q = 2 ^ (q % 8) * 256 ^ (q / 8) := by
  rw [show (256 : Int) = 2 ^ 8 by decide, ← pow_mul, ← pow_add, Nat.mod_add_div]

theorem part_range (q : Nat) : 0 < 2 ^ (q % 8) ∧ 2 ^ (q % 8) ≤ 128 := by
  refine ⟨Nat.two_pow_pos _, ?_⟩
  have h : q % 8 ≤ 7 := by omega
  exact Nat.pow_le_pow_right (by decide) h

theorem bit4 (hp : 1 ≤ b.prefixLen.toNat ∧ b.prefixLen.toNat ≤ 32) :
    ∃ bit, shiftOne (32 - b.prefixLen) = .ok bit ∧
      (htonl bit).toNat =
        2 ^ (hostLen 32 b.prefixLen % 8) * 256 ^ (3 - hostLen 32 b.prefixLen / 8) := by
  have hsub : (32 - b.prefixLen).toNat = hostLen 32 b.prefixLen := by
    rw [hostLen]
    bv_omega
  have hlt : hostLen 32 b.prefixLen < 32 := by
    rw [hostLen]
    omega
  refine ⟨_, shiftOne_ok (by bv_omega), ?_⟩
  rw [BitVec.shiftLeft_eq', hsub]
  exact htonl_bit _ hlt

theorem size4 (b : Cidr U32) : steps4.size b =
    (2 ^ (hostLen 32 b.prefixLen % 8) : Nat) * 256 ^ (hostLen 32 b.prefixLen / 8) := by
  rw [Steps.size, Nat.cast_pow]
  exact two_pow_split _

theorem next4 (hp : 1 ≤ b.prefixLen.toNat ∧ b.prefixLen.toNat ≤ 32) :
    steps4.NextRight a b c ↔ byteOf a.addr (hostLen 32 b.prefixLen / 8) +
      (2 ^ (hostLen 32 b.prefixLen % 8) : Nat) < 256 := by
  obtain ⟨bit, hbit, hplace⟩ := bit4 hp
  have hrun : cidrNext4 a b c = .ok (true, c.push (.inet ⟨a.addr + htonl bit, b.prefixLen⟩)) := by
    rw [cidrNext4, hbit]
    rfl
  have hj : hostLen 32 b.prefixLen / 8 < 4 := by
    rw [hostLen]
    omega
  have hlow := value4_range a.addr
  have hsize : 0 < steps4.size b := pow_pos (by decide) _
  have hpushes := @pushes_true U32 steps4 b c (value4 a.addr + steps4.size b) _ _
    (fun _ _ => Entry.inet.inj) hrun
  refine hpushes.trans ?_
  rw [← value4_add hj (part_range _) hplace, ← size4]
  constructor
  · rintro ⟨⟨-, hlt⟩, hvalue⟩
    exact ⟨hlt, hvalue⟩
  · rintro ⟨hlt, hvalue⟩
    exact ⟨⟨by omega, hlt⟩, hvalue⟩

theorem prev4 (hp : 1 ≤ b.prefixLen.toNat ∧ b.prefixLen.toNat ≤ 32) :
    steps4.PrevRight a b c ↔ (2 ^ (hostLen 32 b.prefixLen % 8) : Nat) ≤
      byteOf a.addr (hostLen 32 b.prefixLen / 8) := by
  obtain ⟨bit, hbit, hplace⟩ := bit4 hp
  have hrun : cidrPrev4 a b c = .ok (true, c.push (.inet ⟨a.addr - htonl bit, b.prefixLen⟩)) := by
    rw [cidrPrev4, hbit]
    rfl
  have hj : hostLen 32 b.prefixLen / 8 < 4 := by
    rw [hostLen]
    omega
  have hhigh := value4_range a.addr
  have hsize : 0 < steps4.size b := pow_pos (by decide) _
  have hpushes := @pushes_true U32 steps4 b c (value4 a.addr - steps4.size b) _ _
    (fun _ _ => Entry.inet.inj) hrun
  refine hpushes.trans ?_
  rw [← value4_sub hj (part_range _) hplace, ← size4]
  constructor
  · rintro ⟨⟨hlow, -⟩, hvalue⟩
    exact ⟨hlow, hvalue⟩
  · rintro ⟨hlow, hvalue⟩
    refine ⟨⟨hlow, ?_⟩, hvalue⟩
    exact Int.lt_trans (Int.sub_lt_self _ hsize) hhigh.2

theorem restored4 (hp : 1 ≤ b.prefixLen.toNat ∧ b.prefixLen.toNat ≤ 32) :
    steps4.Restored a b c := by
  obtain ⟨bit, hbit, -⟩ := bit4 hp
  intro c' hnext
  have hrun : cidrNext4 a b c = .ok (true, c.push (.inet ⟨a.addr + htonl bit, b.prefixLen⟩)) := by
    rw [cidrNext4, hbit]
    rfl
  cases hrun.symm.trans hnext
  refine ⟨a.addr + htonl bit, rfl, ?_⟩
  change cidrPrev4 _ _ _ = _
  rw [cidrPrev4, hbit]
  change Except.ok (true, Globals.push _ (.inet ⟨a.addr + htonl bit - htonl bit, _⟩)) = _
  rw [BitVec.add_sub_cancel]
  rfl

end Inet

section Inet6

variable {op : U8 → Bool → Bool × U8} {x y : In6Addr} {idx : Nat} {carry : Bool}

theorem length_bytes6 (x : In6Addr) : (bytes6 x).length = 16 := by
  rw [bytes6, List.length_map, Vector.length_toList]

theorem inWords_bytes6 (x : In6Addr) : InWords 8 (bytes6 x) := by
  intro w hw
  obtain ⟨b, -, rfl⟩ := List.mem_map.mp hw
  have hb := b.isLt
  omega

theorem value6_range (x : In6Addr) : 0 ≤ value6 x ∧ value6 x < 2 ^ 128 := by
  have h := wordsValue_range (inWords_bytes6 x)
  rw [length_bytes6] at h
  exact h

theorem value6_inj (h : value6 x = value6 y) : x = y := by
  have hbytes := wordsValue_inj (inWords_bytes6 x) (inWords_bytes6 y)
    (by rw [length_bytes6, length_bytes6]) h
  have hlist : x.toList = y.toList := by
    apply List.map_injective_iff.mpr _ hbytes
    intro b b' hb
    exact BitVec.eq_of_toNat_eq (Int.ofNat.inj hb)
  exact Vector.toList_inj.mp hlist

def front (n : Nat) (x : In6Addr) : Int := wordsValue 8 ((bytes6 x).take n)

theorem front_succ {n : Nat} (hn : n < 16) (x : In6Addr) :
    front (n + 1) x = front n x * 256 + (x[n].toNat : Int) := by
  have hlen : n < (bytes6 x).length := by
    rw [length_bytes6]
    exact hn
  have hbyte : (bytes6 x)[n] = (x[n].toNat : Int) := by simp [bytes6]
  rw [front, List.take_add_one, List.getElem?_eq_getElem hlen, Option.toList_some,
    wordsValue_concat, hbyte]
  rfl

theorem front_all (x : In6Addr) : front 16 x = value6 x := by
  rw [front, value6, List.take_of_length_le (by rw [length_bytes6])]

theorem front_agree {n k : Nat} (hk : n + k ≤ 16) (h : ∀ i, (hi : i < 16) → n ≤ i → y[i] = x[i]) :
    front (n + k) y - front (n + k) x = (front n y - front n x) * 256 ^ k := by
  induction k with
  | zero => rw [Nat.add_zero, pow_zero, Int.mul_one]
  | succ k ih =>
    have hprev := ih (by omega)
    rw [← Nat.add_assoc, front_succ (by omega), front_succ (by omega),
      h (n + k) (by omega) (by omega), pow_succ, ← Int.mul_assoc, ← hprev]
    ring

theorem front_set {n : Nat} (hn : n < 16) (x : In6Addr) (b : U8) : front n (x.set n b) = front n x := by
  rw [front, front, bytes6, bytes6, Vector.toList_set, List.map_set, List.take_set_of_le (Nat.le_refl n)]

theorem carryByte_eq (h : idx < 16) : carryByte (fun _ old carry => .ok (op old carry)) idx carry x =
    .ok ((op x[idx] carry).1, x.set idx (op x[idx] carry).2) := by
  have hin : 0 ≤ (idx : Int) ∧ (idx : Int) < 16 := by omega
  rw [carryByte, byteAt, dif_pos hin]
  simp only [bind, Except.bind]
  rw [setByte, dif_pos hin]
  rfl

/-- A byte with what is carried into it and out of it, where `s` is 1 or -1. -/
def Carries (s : Int) (op : U8 → Bool → Bool × U8) : Prop :=
  ∀ old carry, ((op old carry).2.toNat : Int) + s * 256 * ((op old carry).1.toNat : Int) =
    old.toNat + s * (carry.toNat : Int)

theorem carryLoop_value {s : Int} (hop : Carries s op) (h : idx < 16) (carry : Bool) (x : In6Addr) :
    ∃ out y, carryLoop (fun _ old carry => .ok (op old carry)) idx carry x = .ok (out, y) ∧
      (∀ i, (hi : i < 16) → idx + 1 ≤ i → y[i] = x[i]) ∧
      front (idx + 1) y + s * 256 ^ (idx + 1) * (out.toNat : Int) =
        front (idx + 1) x + s * (carry.toNat : Int) := by
  induction idx generalizing carry x with
  | zero =>
    refine ⟨_, _, carryByte_eq h, ?_, ?_⟩
    · intro i hi hlt
      exact Vector.getElem_set_ne _ _ (by omega)
    · have hcell := hop x[0] carry
      rw [front_succ h, front_succ h, front_set h, Vector.getElem_set_self]
      linear_combination hcell
  | succ idx ih =>
    obtain ⟨out, y, hloop, hagree, hvalue⟩ := ih (by omega) (op x[idx + 1] carry).1
      (x.set (idx + 1) (op x[idx + 1] carry).2)
    refine ⟨out, y, ?_, ?_, ?_⟩
    · rw [carryLoop, carryByte_eq h]
      exact hloop
    · intro i hi hlt
      rw [hagree i hi (by omega)]
      exact Vector.getElem_set_ne _ _ (by omega)
    · have hcell := hop x[idx + 1] carry
      have hbyte : y[idx + 1] = (op x[idx + 1] carry).2 := by
        rw [hagree (idx + 1) h (by omega), Vector.getElem_set_self]
      rw [front_set h] at hvalue
      rw [front_succ h, front_succ h x, hbyte]
      linear_combination 256 * hvalue + hcell

variable {a b : Cidr In6Addr} {c : Globals}

theorem lastByte_eq (hp : 1 ≤ b.prefixLen.toNat ∧ b.prefixLen.toNat ≤ 128) :
    lastByte b.prefixLen + 1 + hostLen 128 b.prefixLen / 8 = 16 := by
  have hsub : (b.prefixLen - 1).toNat = b.prefixLen.toNat - 1 := by bv_omega
  rw [lastByte, BitVec.toNat_udiv, hsub, hostLen]
  change (b.prefixLen.toNat - 1) / 8 % 256 + 1 + (128 - b.prefixLen.toNat) / 8 = 16
  omega

/-- One is added to, or taken from, the byte with the last bit of the prefix. -/
theorem stepPrefix6_value {s : Int} (hop : Carries s op)
    (hp : 1 ≤ b.prefixLen.toNat ∧ b.prefixLen.toNat ≤ 128) :
    ∃ (out : Bool) (y : In6Addr), stepPrefix6 a b op c = .ok (if out then (false, c.push (.inet6 { a with addr := y }))
        else (true, c.push (.inet6 ⟨y, b.prefixLen⟩))) ∧
      value6 y + s * 2 ^ 128 * (out.toNat : Int) =
        value6 a.addr + s * 256 ^ (hostLen 128 b.prefixLen / 8) := by
  have hlast := lastByte_eq hp
  have hne : b.prefixLen ≠ 0 := by
    intro h
    rw [h] at hp
    exact absurd hp.1 (by decide)
  obtain ⟨out, y, hloop, hagree, hvalue⟩ := @carryLoop_value op (lastByte b.prefixLen) s hop (by omega)
    true a.addr
  refine ⟨out, y, ?_, ?_⟩
  · rw [stepPrefix6, if_neg hne, hloop]
    cases out <;> rfl
  · have hfront := front_agree (by omega) hagree (k := hostLen 128 b.prefixLen / 8)
    rw [hlast, front_all, front_all] at hfront
    have hpow : (2 : Int) ^ 128 =
        256 ^ (lastByte b.prefixLen + 1) * 256 ^ (hostLen 128 b.prefixLen / 8) := by
      rw [← pow_add, hlast]
      norm_num
    rw [Bool.toNat_true, Nat.cast_one, Int.mul_one] at hvalue
    rw [hpow]
    linear_combination hfront + 256 ^ (hostLen 128 b.prefixLen / 8) * hvalue

theorem size6 (b : Cidr In6Addr) : steps6.size b =
    (2 ^ (hostLen 128 b.prefixLen % 8) : Nat) * 256 ^ (hostLen 128 b.prefixLen / 8) := by
  rw [Steps.size, Nat.cast_pow]
  exact two_pow_split _

theorem carries_next : Carries 1 fun old carry =>
    (decide (256 ≤ old.toNat + carry.toNat), old + BitVec.ofNat 8 carry.toNat) := by
  intro old carry
  have hold := old.isLt
  have hcarry := carry.toNat_le
  dsimp only
  by_cases h : 256 ≤ old.toNat + carry.toNat
  · rw [decide_eq_true h, BitVec.toNat_add, BitVec.toNat_ofNat, Bool.toNat_true]
    omega
  · rw [decide_eq_false h, BitVec.toNat_add, BitVec.toNat_ofNat, Bool.toNat_false]
    omega

theorem carries_prev : Carries (-1) fun old carry =>
    (decide (old.toNat < carry.toNat), old - BitVec.ofNat 8 carry.toNat) := by
  intro old carry
  have hold := old.isLt
  have hcarry := carry.toNat_le
  dsimp only
  by_cases h : old.toNat < carry.toNat
  · rw [decide_eq_true h, BitVec.toNat_sub, BitVec.toNat_ofNat, Bool.toNat_true]
    omega
  · rw [decide_eq_false h, BitVec.toNat_sub, BitVec.toNat_ofNat, Bool.toNat_false]
    omega

/-- The step of the code is that of the prefix when the prefix is one of whole bytes. -/
theorem step_eq_size (b : Cidr In6Addr) :
    steps6.size b = 256 ^ (hostLen 128 b.prefixLen / 8) ↔ hostLen 128 b.prefixLen % 8 = 0 := by
  have hpos : (256 : Int) ^ (hostLen 128 b.prefixLen / 8) ≠ 0 := pow_ne_zero _ (by decide)
  rw [size6, mul_eq_right₀ hpos, Nat.cast_eq_one, Nat.pow_eq_one]
  exact ⟨fun h => h.resolve_left (by decide), Or.inr⟩

theorem step_le_size (b : Cidr In6Addr) :
    256 ^ (hostLen 128 b.prefixLen / 8) ≤ steps6.size b := by
  rw [size6]
  exact le_mul_of_one_le_left (pow_nonneg (by decide) _) (by exact_mod_cast (part_range _).1)

theorem next6 (hp : 1 ≤ b.prefixLen.toNat ∧ b.prefixLen.toNat ≤ 128) :
    steps6.NextRight a b c ↔ hostLen 128 b.prefixLen % 8 = 0 ∨
      2 ^ 128 ≤ value6 a.addr + 256 ^ (hostLen 128 b.prefixLen / 8) := by
  obtain ⟨out, y, hrun, hvalue⟩ := @stepPrefix6_value _ a b c 1 carries_next hp
  have hx := value6_range a.addr
  have hy := value6_range y
  have hle := step_le_size b
  rw [← step_eq_size]
  cases out with
  | true =>
    rw [Bool.toNat_true] at hvalue
    have hpushes := @pushes_false In6Addr steps6 b c _ (value6 a.addr + steps6.size b) _ hrun
    have hlarge : 2 ^ 128 ≤ value6 a.addr + 256 ^ (hostLen 128 b.prefixLen / 8) := by omega
    refine hpushes.trans ⟨fun _ => Or.inr hlarge, fun _ h => ?_⟩
    have hlt : value6 a.addr + steps6.size b < 2 ^ 128 := h.2
    omega
  | false =>
    rw [Bool.toNat_false] at hvalue
    have hpushes := @pushes_true In6Addr steps6 b c (value6 a.addr + steps6.size b) y _
      (fun _ _ => Entry.inet6.inj) hrun
    refine hpushes.trans ⟨?_, ?_⟩
    · rintro ⟨-, h⟩
      have hsum : value6 y = value6 a.addr + steps6.size b := h
      exact Or.inl (by omega)
    · intro h
      have hsize : steps6.size b = 256 ^ (hostLen 128 b.prefixLen / 8) := by omega
      have hsum : value6 y = value6 a.addr + steps6.size b := by omega
      have hfits : value6 a.addr + steps6.size b < 2 ^ 128 := hsum ▸ hy.2
      exact ⟨⟨by omega, hfits⟩, hsum⟩

theorem prev6 (hp : 1 ≤ b.prefixLen.toNat ∧ b.prefixLen.toNat ≤ 128) :
    steps6.PrevRight a b c ↔ hostLen 128 b.prefixLen % 8 = 0 ∨
      value6 a.addr < 256 ^ (hostLen 128 b.prefixLen / 8) := by
  obtain ⟨out, y, hrun, hvalue⟩ := @stepPrefix6_value _ a b c (-1) carries_prev hp
  have hx := value6_range a.addr
  have hy := value6_range y
  have hle := step_le_size b
  rw [← step_eq_size]
  cases out with
  | true =>
    rw [Bool.toNat_true] at hvalue
    have hpushes := @pushes_false In6Addr steps6 b c _ (value6 a.addr - steps6.size b) _ hrun
    have hsmall : value6 a.addr < 256 ^ (hostLen 128 b.prefixLen / 8) := by omega
    refine hpushes.trans ⟨fun _ => Or.inr hsmall, fun _ h => ?_⟩
    have hlow := h.1
    omega
  | false =>
    rw [Bool.toNat_false] at hvalue
    have hpushes := @pushes_true In6Addr steps6 b c (value6 a.addr - steps6.size b) y _
      (fun _ _ => Entry.inet6.inj) hrun
    refine hpushes.trans ⟨?_, ?_⟩
    · rintro ⟨-, h⟩
      have hdiff : value6 y = value6 a.addr - steps6.size b := h
      exact Or.inl (by omega)
    · intro h
      have hsize : steps6.size b = 256 ^ (hostLen 128 b.prefixLen / 8) := by omega
      have hdiff : value6 y = value6 a.addr - steps6.size b := by omega
      have hfits : value6 a.addr - steps6.size b < 2 ^ 128 := hdiff ▸ hy.2
      exact ⟨⟨by omega, hfits⟩, hdiff⟩

theorem restored6 (hp : 1 ≤ b.prefixLen.toNat ∧ b.prefixLen.toNat ≤ 128) :
    steps6.Restored a b c := by
  intro c' hnext
  obtain ⟨out, y, hrun, hvalue⟩ := @stepPrefix6_value _ a b c 1 carries_next hp
  cases out with
  | true => cases hrun.symm.trans hnext
  | false =>
    cases hrun.symm.trans hnext
    refine ⟨y, rfl, ?_⟩
    obtain ⟨out, z, hback, hvalue'⟩ := @stepPrefix6_value _ ⟨y, b.prefixLen⟩ b
      (c.push (.inet6 ⟨y, b.prefixLen⟩)) (-1) carries_prev hp
    have hx := value6_range a.addr
    have hz := value6_range z
    dsimp only at hvalue'
    rw [Bool.toNat_false] at hvalue
    cases out with
    | true =>
      rw [Bool.toNat_true] at hvalue'
      omega
    | false =>
      rw [Bool.toNat_false] at hvalue'
      obtain rfl : z = a.addr := value6_inj (by omega)
      exact hback

end Inet6

/-- `next` and `prev` of IPv4 are right if and only if the byte with the last bit of the prefix has no
carry and no borrow; those of IPv6 if and only if the prefix has whole bytes, or the step of its bytes
does not fit either. In any case `prev` undoes `next`. -/
theorem next_prev_iff (a b : Cidr U32) (x y : Cidr In6Addr) (c : Globals)
    (hb : 1 ≤ b.prefixLen.toNat ∧ b.prefixLen.toNat ≤ 32)
    (hy : 1 ≤ y.prefixLen.toNat ∧ y.prefixLen.toNat ≤ 128) :
    (steps4.NextRight a b c ↔ byteOf a.addr (hostLen 32 b.prefixLen / 8) +
      (2 ^ (hostLen 32 b.prefixLen % 8) : Nat) < 256) ∧
    (steps4.PrevRight a b c ↔ (2 ^ (hostLen 32 b.prefixLen % 8) : Nat) ≤
      byteOf a.addr (hostLen 32 b.prefixLen / 8)) ∧
    steps4.Restored a b c ∧
    (steps6.NextRight x y c ↔ hostLen 128 y.prefixLen % 8 = 0 ∨
      2 ^ 128 ≤ value6 x.addr + 256 ^ (hostLen 128 y.prefixLen / 8)) ∧
    (steps6.PrevRight x y c ↔ hostLen 128 y.prefixLen % 8 = 0 ∨
      value6 x.addr < 256 ^ (hostLen 128 y.prefixLen / 8)) ∧
    steps6.Restored x y c :=
  ⟨next4 hb, prev4 hb, restored4 hb, next6 hy, prev6 hy, restored6 hy⟩

def emptyStack : Globals := ⟨[], false, false, []⟩

theorem next_prev_iff_example :
    (1 ≤ (24 : U32).toNat ∧ (24 : U32).toNat ≤ 32) ∧ (1 ≤ (64 : U32).toNat ∧ (64 : U32).toNat ≤ 128) ∧
    steps4.NextRight ⟨htonl 0xc0a80001, 24⟩ ⟨0, 24⟩ emptyStack ∧
    steps6.NextRight ⟨Vector.replicate 16 0, 64⟩ ⟨Vector.replicate 16 0, 64⟩ emptyStack := by
  have h := next_prev_iff ⟨htonl 0xc0a80001, 24⟩ ⟨0, 24⟩ ⟨Vector.replicate 16 0, 64⟩
    ⟨Vector.replicate 16 0, 64⟩ emptyStack (by decide) (by decide)
  exact ⟨by decide, by decide, h.1.mpr (by decide), h.2.2.2.1.mpr (Or.inl (by decide))⟩

/-- The address behind 192.168.0.255. -/
theorem next_wraps : ¬ ∀ (a b : Cidr U32) (c : Globals),
    1 ≤ b.prefixLen.toNat ∧ b.prefixLen.toNat ≤ 32 → steps4.NextRight a b c := by
  intro h
  obtain ⟨x, hrun, hvalue⟩ := (h ⟨htonl 0xc0a800ff, 32⟩ ⟨0, 32⟩ emptyStack (by decide)).1 (by decide)
  cases hrun
  exact absurd hvalue (by decide)

end OpenwrtMtk.Owipcalc
