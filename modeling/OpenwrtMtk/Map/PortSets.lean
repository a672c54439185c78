import Mathlib.Data.List.Range
import Mathlib.Data.Nat.Bitwise
import Mathlib.Tactic.Ring

/-!
# Port sets of mapcalc

The ranges that `mapcalc` prints as `RULE_PORTSETS` for a PSID. A port consists of `offset` bits, which
a range keeps, the bits of the PSID and the bits that count within a range.
-/

namespace OpenwrtMtk.Map

set_option autoImplicit false

/-- What `printf("%d-%d ", start, end)` prints. -/
structure PortRange where
  first : Nat
  last : Nat
  deriving DecidableEq

instance : Membership Nat PortRange where
  mem r n := r.first ≤ n ∧ n ≤ r.last

instance (n : Nat) (r : PortRange) : Decidable (n ∈ r) :=
  inferInstanceAs (Decidable (r.first ≤ n ∧ n ≤ r.last))

def portRange (offset psidlen psid k : Nat) : Option PortRange :=
  let start := (k <<< (16 - offset)) ||| (psid >>> offset)
  let last := start + (1 <<< (16 - offset - psidlen)) - 1
  let start := if start = 0 then 1 else start
  if start ≤ last then some ⟨start, last⟩ else none

/-- The values of `k`. -/
def rangeIndices (offset : Nat) : List Nat :=
  let k := if offset ≠ 0 then 1 else 0
  List.range' k ((1 <<< offset) - k)

def portsets (offset psidlen psid : Nat) : List PortRange :=
  (rangeIndices offset).filterMap (portRange offset psidlen psid)

/-- The ranges on the line `RULE_PORTSETS`, where there is one. -/
def rulePortsets (offset psidlen : Nat) (psid : Int) : Option (List PortRange) :=
  if 0 < psidlen ∧ 0 ≤ psid then some (portsets offset psidlen psid.toNat) else none

def leftAligned (psidlen p : Nat) : Nat := p <<< (16 - psidlen)

def firstPort (offset : Nat) : Nat := if offset = 0 then 1 else 2 ^ (16 - offset)

section Ranges

variable {offset psidlen p k n : Nat}

theorem mem_rangeIndices :
    k ∈ rangeIndices offset ↔ (offset ≠ 0 → 1 ≤ k) ∧ k < 2 ^ offset := by
  have hpos : 1 ≤ 2 ^ offset := Nat.one_le_two_pow
  unfold rangeIndices
  rw [Nat.one_shiftLeft, List.mem_range'_1]
  by_cases h : offset ≠ 0
  · rw [if_pos h]
    omega
  · rw [if_neg h]
    omega

theorem start_eq (hsum : offset + psidlen ≤ 16) (hp : p < 2 ^ psidlen) (k : Nat) :
    (k <<< (16 - offset)) ||| (leftAligned psidlen p >>> offset) =
      (k * 2 ^ psidlen + p) * 2 ^ (16 - offset - psidlen) := by
  obtain ⟨m, hm⟩ : ∃ m, 16 = offset + psidlen + m := ⟨16 - (offset + psidlen), by omega⟩
  have hpsid : leftAligned psidlen p >>> offset = p * 2 ^ m := by
    have hsplit : 16 - psidlen = m + offset := by omega
    rw [leftAligned, hsplit, Nat.shiftLeft_add, Nat.shiftLeft_shiftRight, Nat.shiftLeft_eq]
  have hlen : 16 - offset = psidlen + m := by omega
  have hm' : 16 - offset - psidlen = m := by omega
  have hlt : p * 2 ^ m < 2 ^ (psidlen + m) := by
    rw [Nat.pow_add]
    exact Nat.mul_lt_mul_of_pos_right hp (Nat.two_pow_pos m)
  rw [hpsid, hm', hlen, ← Nat.shiftLeft_add_eq_or_of_lt hlt, Nat.shiftLeft_eq, Nat.pow_add]
  ring

theorem portRange_eq_some_iff (hsum : offset + psidlen ≤ 16) (hp : p < 2 ^ psidlen) {r : PortRange} :
    portRange offset psidlen (leftAligned psidlen p) k = some r ↔
      r.first = max 1 ((k * 2 ^ psidlen + p) * 2 ^ (16 - offset - psidlen)) ∧
        r.last + 1 = (k * 2 ^ psidlen + p + 1) * 2 ^ (16 - offset - psidlen) ∧
        r.first ≤ r.last := by
  have hpos := Nat.two_pow_pos (16 - offset - psidlen)
  obtain ⟨first, last⟩ := r
  unfold portRange
  rw [start_eq hsum hp, Nat.one_shiftLeft, Nat.add_mul (k * 2 ^ psidlen + p) 1, Nat.one_mul]
  generalize (k * 2 ^ psidlen + p) * 2 ^ (16 - offset - psidlen) = start
  generalize 2 ^ (16 - offset - psidlen) = size at hpos
  dsimp only
  split
  · split
    · rw [Option.some.injEq, PortRange.mk.injEq]
      omega
    · rw [iff_false_left (by simp)]
      omega
  · split
    · rw [Option.some.injEq, PortRange.mk.injEq]
      omega
    · rw [iff_false_left (by simp)]
      omega

theorem mem_portRange_iff (hsum : offset + psidlen ≤ 16) (hp : p < 2 ^ psidlen) :
    (∃ r, portRange offset psidlen (leftAligned psidlen p) k = some r ∧ n ∈ r) ↔
      1 ≤ n ∧ n / 2 ^ (16 - offset - psidlen) = k * 2 ^ psidlen + p := by
  have hpos := Nat.two_pow_pos (16 - offset - psidlen)
  rw [Nat.div_eq_iff hpos]
  have hrange := fun r => portRange_eq_some_iff (k := k) hsum hp (r := r)
  rw [Nat.add_mul (k * 2 ^ psidlen + p) 1, Nat.one_mul] at hrange
  generalize (k * 2 ^ psidlen + p) * 2 ^ (16 - offset - psidlen) = start at hrange ⊢
  generalize 2 ^ (16 - offset - psidlen) = size at hrange hpos ⊢
  constructor
  · rintro ⟨r, hr, hfirst, hlast⟩
    obtain ⟨hf, hl, -⟩ := (hrange r).mp hr
    omega
  · rintro ⟨hn, hle, hlt⟩
    refine ⟨⟨max 1 start, start + size - 1⟩, (hrange _).mpr ⟨rfl, ?_, ?_⟩, ?_, ?_⟩ <;>
      dsimp only <;> omega

/-- The ports of a PSID: the field behind the `offset` bits is the PSID. -/
theorem mem_portsets_iff (hsum : offset + psidlen ≤ 16) (hp : p < 2 ^ psidlen) :
    (∃ r ∈ portsets offset psidlen (leftAligned psidlen p), n ∈ r) ↔
      firstPort offset ≤ n ∧ n < 2 ^ 16 ∧
        n / 2 ^ (16 - offset - psidlen) % 2 ^ psidlen = p := by
  have hupper : n / 2 ^ (16 - offset - psidlen) / 2 ^ psidlen = n / 2 ^ (16 - offset) := by
    rw [Nat.div_div_eq_div_mul, ← Nat.pow_add, show 16 - offset - psidlen + psidlen = 16 - offset by
      omega]
  have hhigh : n / 2 ^ (16 - offset) < 2 ^ offset ↔ n < 2 ^ 16 := by
    rw [Nat.div_lt_iff_lt_mul (Nat.two_pow_pos _), ← Nat.pow_add,
      show offset + (16 - offset) = 16 by omega]
  have hlow : (1 ≤ n ∧ (offset ≠ 0 → 1 ≤ n / 2 ^ (16 - offset))) ↔ firstPort offset ≤ n := by
    rw [Nat.le_div_iff_mul_le (Nat.two_pow_pos _), Nat.one_mul, firstPort]
    have hpos := Nat.two_pow_pos (16 - offset)
    by_cases h : offset = 0
    · simp [h]
    · simp only [h, ne_eq, not_false_eq_true, true_implies, if_false]
      omega
  constructor
  · rintro ⟨r, hr, hn⟩
    obtain ⟨k, hk, hr⟩ := List.mem_filterMap.mp hr
    obtain ⟨hpos, hdiv⟩ := (mem_portRange_iff hsum hp).mp ⟨r, hr, hn⟩
    obtain ⟨hk0, hk1⟩ := mem_rangeIndices.mp hk
    have hk' : n / 2 ^ (16 - offset) = k := by
      rw [← hupper, hdiv, Nat.mul_comm, Nat.mul_add_div (Nat.two_pow_pos _), Nat.div_eq_of_lt hp,
        Nat.add_zero]
    refine ⟨hlow.mp ⟨hpos, by rw [hk']; exact hk0⟩, hhigh.mp (by rw [hk']; exact hk1), ?_⟩
    rw [hdiv, Nat.mul_add_mod_self_right, Nat.mod_eq_of_lt hp]
  · rintro ⟨hfirst, hlast, hfield⟩
    obtain ⟨hpos, hk0⟩ := hlow.mpr hfirst
    have hdiv : n / 2 ^ (16 - offset - psidlen) = n / 2 ^ (16 - offset) * 2 ^ psidlen + p := by
      rw [← hupper, ← hfield, Nat.mul_comm]
      exact (Nat.div_add_mod _ _).symm
    obtain ⟨r, hr, hn⟩ := (mem_portRange_iff hsum hp).mpr ⟨hpos, hdiv⟩
    exact ⟨r, List.mem_filterMap.mpr ⟨_, mem_rangeIndices.mpr ⟨hk0, hhigh.mpr hlast⟩, hr⟩, hn⟩

theorem portsets_ascending (hsum : offset + psidlen ≤ 16) (hp : p < 2 ^ psidlen) :
    (portsets offset psidlen (leftAligned psidlen p)).Pairwise fun r s => r.last < s.first := by
  apply List.Pairwise.filterMap (R := (· < ·))
  · intro k k' hlt r hr s hs
    obtain ⟨-, hlast, -⟩ := (portRange_eq_some_iff hsum hp).mp hr
    obtain ⟨hfirst, -, -⟩ := (portRange_eq_some_iff hsum hp).mp hs
    have hstart : k * 2 ^ psidlen + p + 1 ≤ k' * 2 ^ psidlen + p := by
      have hmul := Nat.mul_le_mul_right (2 ^ psidlen) (Nat.succ_le_of_lt hlt)
      rw [Nat.succ_mul] at hmul
      have hpos := Nat.two_pow_pos psidlen
      omega
    have hmul := Nat.mul_le_mul_right (2 ^ (16 - offset - psidlen)) hstart
    omega
  · exact List.pairwise_lt_range'

theorem portsets_within (hsum : offset + psidlen ≤ 16) (hp : p < 2 ^ psidlen) {r : PortRange}
    (hr : r ∈ portsets offset psidlen (leftAligned psidlen p)) :
    1 ≤ r.first ∧ r.first ≤ r.last ∧ r.last ≤ 65535 := by
  obtain ⟨k, hk, hrange⟩ := List.mem_filterMap.mp hr
  obtain ⟨hfirst, -, hle⟩ := (portRange_eq_some_iff hsum hp).mp hrange
  have hlast := ((mem_portsets_iff hsum hp).mp ⟨r, hr, hle, Nat.le_refl _⟩).2.1
  omega

end Ranges

/-- The port sets of the PSIDs partition the ports from the first one on. -/
theorem portsets_partition {offset psidlen : Nat} (hpsid : 1 ≤ psidlen)
    (hsum : offset + psidlen ≤ 16) :
    (∀ p, rulePortsets offset psidlen (leftAligned psidlen p) =
      some (portsets offset psidlen (leftAligned psidlen p))) ∧
    (∀ p < 2 ^ psidlen, ∀ q < 2 ^ psidlen, p ≠ q →
      ∀ r ∈ portsets offset psidlen (leftAligned psidlen p),
      ∀ s ∈ portsets offset psidlen (leftAligned psidlen q), ∀ n ∈ r, n ∉ s) ∧
    (∀ p < 2 ^ psidlen,
      (portsets offset psidlen (leftAligned psidlen p)).Pairwise fun r s => r.last < s.first) ∧
    (∀ p < 2 ^ psidlen, ∀ r ∈ portsets offset psidlen (leftAligned psidlen p),
      1 ≤ r.first ∧ r.first ≤ r.last ∧ r.last ≤ 65535) ∧
    ∀ n ≤ 65535, firstPort offset ≤ n →
      ∃! p, p < 2 ^ psidlen ∧ ∃ r ∈ portsets offset psidlen (leftAligned psidlen p), n ∈ r := by
  refine ⟨fun p => if_pos ⟨hpsid, Int.natCast_nonneg _⟩, ?_, fun p hp => portsets_ascending hsum hp,
    fun p hp r hr => portsets_within hsum hp hr, ?_⟩
  · intro p hp q hq hne r hr s hs n hnr hns
    obtain ⟨-, -, hfield⟩ := (mem_portsets_iff hsum hp).mp ⟨r, hr, hnr⟩
    obtain ⟨-, -, hfield'⟩ := (mem_portsets_iff hsum hq).mp ⟨s, hs, hns⟩
    exact hne (hfield.symm.trans hfield')
  · intro n hn hfirst
    have hlt := Nat.mod_lt (n / 2 ^ (16 - offset - psidlen)) (Nat.two_pow_pos psidlen)
    refine ⟨_, ⟨hlt, (mem_portsets_iff hsum hlt).mpr ⟨hfirst, by omega, rfl⟩⟩, ?_⟩
    rintro q ⟨hq, hmem⟩
    exact ((mem_portsets_iff hsum hq).mp hmem).2.2.symm

/-- `offset` 6 and 8 bits of PSID: port 1234 belongs to PSID 52. -/
theorem portsets_partition_example :
    ∃! p, p < 2 ^ 8 ∧ ∃ r ∈ portsets 6 8 (leftAligned 8 p), 1234 ∈ r :=
  (portsets_partition (by decide) (by decide)).2.2.2.2 1234 (by decide) (by decide)

end OpenwrtMtk.Map
