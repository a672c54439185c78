import OpenwrtMtk.Map.Rule

/-!
# The address and the PSID of a rule

The copies by bits are what they are called, for every alignment, as long as they stay in their arrays.
So the embedded address bits of a delegated prefix are divided between the IPv4 address and the PSID.
-/

namespace OpenwrtMtk.Map

open Toolkit

set_option autoImplicit false

section Copies

variable {a b : List U8} {n from_ : Nat}

theorem getMsbD_lowMask {r j : Nat} (hr : r < 8) (hj : j < 8) :
    (lowMask r).getMsbD j = decide (r ≤ j) := by
  have hmasks : ∀ r < 8, ∀ j < 8, (lowMask r).getMsbD j = decide (r ≤ j) := by decide
  exact hmasks r hr j hj

theorem getMsbD_merge {r j : Nat} (x y : U8) (hr : r < 8) (hj : j < 8) :
    ((x &&& lowMask r) ||| (~~~lowMask r &&& y)).getMsbD j = if j < r then y.getMsbD j else x.getMsbD j := by
  rw [BitVec.getMsbD_or, BitVec.getMsbD_and, BitVec.getMsbD_and, BitVec.getMsbD_not,
    getMsbD_lowMask hr hj, decide_eq_true hj, Bool.true_and]
  by_cases h : j < r
  · rw [if_pos h, decide_eq_false (by omega)]
    simp
  · rw [if_neg h, decide_eq_true (by omega)]
    simp

theorem bmemcpy_bits (ha : n ≤ 8 * a.length) (hb : n ≤ 8 * b.length) :
    ∃ x, bmemcpy a b n = .ok x ∧ x.length = a.length ∧
      ∀ i, bit x i = if i < n then bit b i else bit a i := by
  have hsrc : (slice b 0 (n / 8)).length = n / 8 := length_slice (by omega)
  have hwhole : 0 + (slice b 0 (n / 8)).length ≤ a.length := by omega
  have hlen : (overwrite a 0 (slice b 0 (n / 8))).length = a.length := length_overwrite hwhole
  have hfront (i : Nat) : bit (overwrite a 0 (slice b 0 (n / 8))) i =
      if i < 8 * (n / 8) then bit b i else bit a i := by
    rw [bit_overwrite hwhole, hsrc]
    by_cases hi : i < 8 * (n / 8)
    · rw [if_pos (by omega), if_pos hi, bit_slice _ _ _ (by omega)]
      congr 1
      omega
    · rw [if_neg (by omega), if_neg hi]
  rw [bmemcpy]
  by_cases hpart : 0 < n % 8
  · refine ⟨(overwrite a 0 (slice b 0 (n / 8))).set (n / 8)
      (((overwrite a 0 (slice b 0 (n / 8))).getD (n / 8) 0 &&& lowMask (n % 8)) |||
        (~~~lowMask (n % 8) &&& b.getD (n / 8) 0)), ?_, ?_, ?_⟩
    · rw [bind_ok (load_ok (by omega)), bind_ok (store_ok hwhole), if_pos hpart]
      dsimp only
      rw [bind_ok (loadByte_ok (by omega)), bind_ok (loadByte_ok (by omega)),
        store_ok (by rw [List.length_singleton]; omega), set_eq_overwrite _ (by omega)]
    · rw [List.length_set, hlen]
    · intro i
      rw [bit_set (by omega)]
      by_cases hbyte : i / 8 = n / 8
      · rw [if_pos hbyte, getMsbD_merge _ _ (Nat.mod_lt n (by decide)) (Nat.mod_lt i (by decide))]
        by_cases hi : i < n
        · rw [if_pos (by omega), if_pos hi, bit, hbyte]
        · have hold := hfront i
          rw [if_neg (by omega), bit, hbyte] at hold
          rw [if_neg (by omega), if_neg hi, hold]
      · rw [if_neg hbyte, hfront]
        by_cases hi : i < n
        · rw [if_pos (by omega), if_pos hi]
        · rw [if_neg (by omega), if_neg hi]
  · refine ⟨overwrite a 0 (slice b 0 (n / 8)), ?_, hlen, ?_⟩
    · rw [bind_ok (load_ok (by omega)), bind_ok (store_ok hwhole), if_neg hpart]
      rfl
    · intro i
      have hround : 8 * (n / 8) = n := by omega
      rw [hfront, hround]

theorem bmemcpys64_bits {start : Nat} (ha : n ≤ 8 * a.length) (hbuf : start % 8 + n ≤ 63)
    (hb : (start + n) / 8 < b.length) (hsize : start + n < 2 ^ 32) :
    ∃ x, bmemcpys64 a b start n = .ok x ∧ x.length = a.length ∧
      ∀ i, bit x i = if i < n then bit b (start + i) else bit a i := by
  have hto : (start + n) % 2 ^ 32 / 8 = (start + n) / 8 := by rw [Nat.mod_eq_of_lt hsize]
  have hcount : (sizeSub ((start + n) / 8) (start / 8) + 1) % 2 ^ 32 = (start + n) / 8 - start / 8 + 1 := by
    rw [sizeSub_of_le (by omega) (by omega)]
    omega
  have hsrc : (slice b (start / 8) ((start + n) / 8 - start / 8 + 1)).length =
      (start + n) / 8 - start / 8 + 1 := length_slice (by omega)
  have hfits : 0 + (slice b (start / 8) ((start + n) / 8 - start / 8 + 1)).length ≤
      (List.replicate 8 (0 : U8)).length := by
    rw [hsrc, List.length_replicate]
    omega
  have hlen : (overwrite (List.replicate 8 (0 : U8)) 0
      (slice b (start / 8) ((start + n) / 8 - start / 8 + 1))).length = 8 :=
    (length_overwrite hfits).trans List.length_replicate
  obtain ⟨x, hx, hxlen, hbits⟩ := @bmemcpy_bits a (beBytes 8 (beWord 64 (overwrite
    (List.replicate 8 (0 : U8)) 0 (slice b (start / 8) ((start + n) / 8 - start / 8 + 1))) <<<
    (start % 8))) n ha (by rw [length_beBytes]; omega)
  refine ⟨x, ?_, hxlen, ?_⟩
  · rw [bmemcpys64]
    rw [hto, hcount, bind_ok (load_ok (by omega)), bind_ok (store_ok hfits)]
    exact hx
  · intro i
    rw [hbits]
    by_cases hi : i < n
    · rw [if_pos hi, if_pos hi, bit_beBytes _ (by decide), BitVec.getMsbD_shiftLeft,
        getMsbD_beWord (by rw [hlen]), bit_overwrite hfits, hsrc, if_pos (by omega),
        bit_slice _ _ _ (by omega)]
      congr 1
      omega
    · rw [if_neg hi, if_neg hi]

end Copies

section Numbers

theorem asInt_eq {n : Int} (h : -2 ^ 31 ≤ n ∧ n < 2 ^ 31) : asInt n = n := by
  rw [asInt]
  omega

theorem sizeT_natCast {n : Nat} (h : n < 2 ^ 32) : sizeT n = n := by
  rw [sizeT]
  omega

end Numbers

section Derive

variable {sh : Shifts} {o : Options} {d : Delegated} {p4 p6 q m : Nat}

theorem derivePsid_bits (h6 : o.prefix6len = p6) (hq : q ≤ 16) (hsum : p6 + m + q ≤ 127) :
    ∃ w : U16, derivePsid o (some d) ((m + q : Nat) : Int) q (-1) = .ok (w.toNat : Int) ∧
      ∀ i, bit (beBytes 2 w) i = (decide (i < q) && bit d.address.val (p6 + m + i)) := by
  have hlen := d.address.property
  have hstart : asInt (asInt (o.prefix6len + ((m + q : Nat) : Int)) - q) = ((p6 + m : Nat) : Int) := by
    have hinner : asInt (o.prefix6len + ((m + q : Nat) : Int)) = ((p6 + (m + q) : Nat) : Int) := by
      rw [h6, asInt_eq (by omega)]
      omega
    rw [hinner, asInt_eq (by omega)]
    omega
  obtain ⟨x, hx, hxlen, hbits⟩ := @bmemcpys64_bits (List.replicate 2 0) d.address.val q (p6 + m)
    (by rw [List.length_replicate]; omega) (by omega) (by omega) (by omega)
  rw [List.length_replicate] at hxlen
  refine ⟨beWord 16 x, ?_, ?_⟩
  · rw [derivePsid, if_pos (by omega), hstart, sizeT_natCast (by omega), sizeT_natCast (by omega), bind_ok hx]
    rfl
  · intro i
    rw [bit_beBytes _ (by decide), getMsbD_beWord (by rw [hxlen]), hbits]
    by_cases hi : i < q
    · rw [if_pos hi, decide_eq_true hi, Bool.true_and]
    · rw [if_neg hi, decide_eq_false hi, Bool.false_and, bit_replicate_zero]

theorem deriveAddr_bits {k : Nat} (h4 : o.prefix4len = p4) (h6 : o.prefix6len = p6) (hp4 : p4 ≤ 32)
    (hsum : p6 + (32 - p4) ≤ 127) (hk : sh.amount p4 = .ok k) :
    ∃ x len, deriveAddr sh o (some d) ((32 - p4 + q : Nat) : Int) q = .ok (x, len) ∧ x.length = 4 ∧
      ∀ i < 32, bit x i = if i < p4 then bit o.ipv4prefix.val i else bit d.address.val (p6 + (i - p4)) := by
  have hlen := d.address.property
  have hlen4 := o.ipv4prefix.property
  have hcount : asInt (((32 - p4 + q : Nat) : Int) - q) = ((32 - p4 : Nat) : Int) := by
    rw [asInt_eq (by omega)]
    omega
  obtain ⟨x, hx, hxlen, hbits⟩ := @bmemcpys64_bits (List.replicate 4 0) d.address.val (32 - p4) p6
    (by rw [List.length_replicate]; omega) (by omega) (by omega) (by omega)
  rw [List.length_replicate] at hxlen
  obtain ⟨y, hy, hylen, hybits⟩ := @bmemcpy_bits (beBytes 4 (beWord 32 x >>> k)) o.ipv4prefix.val p4
    (by rw [length_beBytes]; omega) (by omega)
  rw [length_beBytes] at hylen
  have hrun : deriveAddr sh o (some d) ((32 - p4 + q : Nat) : Int) q = .ok (y,
      if asInt (o.prefix4len + ((32 - p4 + q : Nat) : Int)) < 32
        then asInt (o.prefix4len + ((32 - p4 + q : Nat) : Int)) else 32) := by
    rw [deriveAddr, if_pos ⟨Or.inl rfl, by omega⟩, hcount, h6, sizeT_natCast (by omega),
      sizeT_natCast (by omega)]
    change (bmemcpys64 _ d.address.val _ _ >>= _) = _
    rw [bind_ok hx, h4, bind_ok hk, sizeT_natCast (by omega)]
    change (bmemcpy _ _ _ >>= _) = _
    rw [bind_ok hy]
    rfl
  refine ⟨y, _, hrun, hylen, ?_⟩
  intro i hi
  rw [hybits]
  by_cases hfront : i < p4
  · rw [if_pos hfront, if_pos hfront]
  · have hamount : k = p4 := by
      rw [sh.amount_of_lt p4 (by omega)] at hk
      exact (Except.ok.inj hk).symm
    rw [if_neg hfront, if_neg hfront, bit_beBytes _ (by decide), BitVec.getMsbD_ushiftRight,
      getMsbD_beWord (by rw [hxlen]), hbits, hamount, decide_eq_true hi, decide_eq_false hfront,
      if_pos (by omega)]
    rfl

end Derive

/-- The bits that are embedded in a delegated prefix behind the prefix of the rule. -/
def eaBits (d : Delegated) (p6 ealen : Nat) : List Bool := ((bits d.address.val).drop p6).take ealen

section EaBits

variable {d : Delegated} {p6 ealen i : Nat}

theorem length_eaBits (h : p6 + ealen ≤ 128) : (eaBits d p6 ealen).length = ealen := by
  rw [eaBits, List.length_take, List.length_drop, length_bits, d.address.property]
  omega

theorem getElem?_eaBits (h : p6 + ealen ≤ 128) (hi : i < ealen) :
    (eaBits d p6 ealen)[i]? = some (bit d.address.val (p6 + i)) := by
  have hlen := d.address.property
  rw [eaBits, List.getElem?_take_of_lt hi, List.getElem?_drop, getElem?_bits (by omega)]

end EaBits

theorem bits_eq_append {x : List U8} {us vs : List Bool} (hlen : 8 * x.length = us.length + vs.length)
    (hu : ∀ i < us.length, us[i]? = some (bit x i))
    (hv : ∀ i < vs.length, vs[i]? = some (bit x (us.length + i))) : bits x = us ++ vs := by
  apply List.ext_getElem?
  intro i
  rcases Nat.lt_or_ge i us.length with hfront | hfront
  · rw [getElem?_bits (by omega), List.getElem?_append_left hfront, hu i hfront]
  · rcases Nat.lt_or_ge i (us.length + vs.length) with hin | hout
    · have hindex : us.length + (i - us.length) = i := by omega
      rw [getElem?_bits (by omega), List.getElem?_append_right hfront, hv _ (by omega), hindex]
    · rw [List.getElem?_eq_none (by rw [length_bits]; omega),
        List.getElem?_eq_none (by rw [List.length_append]; omega)]

/-- The address is the IPv4 prefix and the first of the embedded bits, and the PSID has the others. A
prefix of 32 bits leaves nothing to shift. -/
theorem derive_bits {taken : Int → Nat} (htaken : ∀ n : Nat, n < 32 → taken n = n) {o : Options}
    {d : Delegated} {p4 p6 ealen : Nat} (h4 : o.prefix4len = p4) (h6 : o.prefix6len = p6)
    (hea : ealenOf o (some d) = ealen) (hp4 : p4 ≤ 32) (hno : o.psidlen = -1 ∧ o.psid = -1)
    (hsum : p6 + ealen ≤ min d.mask.val 127) (hlow : 32 - p4 ≤ ealen) (hhigh : ealen ≤ 48 - p4) :
    ∃ r, ∃ w : U16, derive (.ofMachine taken htaken) o (some d) = .ok r ∧
      (r.ipv4addr.length = 4 ∧ r.psid16.length = 2) ∧
      (r.ealen = ealen ∧ r.psidlen = (ealen - (32 - p4) : Nat)) ∧
      bits r.ipv4addr = (bits o.ipv4prefix.val).take p4 ++ (eaBits d p6 ealen).take (32 - p4) ∧
      r.psid = (w.toNat : Int) ∧ bits (beBytes 2 w) = (eaBits d p6 ealen).drop (32 - p4) ++
        List.replicate (48 - p4 - ealen) false := by
  obtain ⟨q, rfl⟩ := Nat.exists_eq_add_of_le hlow
  have hmask := d.mask.isLt
  have hlen := d.address.property
  have hlen4 := o.ipv4prefix.property
  have hpsidlen : psidlenOf o ((32 - p4 + q : Nat) : Int) = (q : Int) := by
    have hrest : asInt (32 - o.prefix4len) = ((32 - p4 : Nat) : Int) := by
      rw [h4, asInt_eq (by omega)]
      omega
    rw [psidlenOf, if_pos (by omega), hrest, asInt_eq (by omega)]
    omega
  obtain ⟨w, hw, hwbits⟩ := @derivePsid_bits o d p6 q (32 - p4) h6 (by omega) (by omega)
  obtain ⟨x, len, hx, hxlen, hxbits⟩ := @deriveAddr_bits (.ofMachine taken htaken) o d p4 p6 q _ h4 h6
    hp4 (by omega) rfl
  have hrun : derive (.ofMachine taken htaken) o (some d) = .ok
      ⟨((32 - p4 + q : Nat) : Int), q, w.toNat, beBytes 2 (((BitVec.ofInt 32 w.toNat).sshiftRight
        (taken (asInt (16 - q)))).setWidth 16), x, len⟩ := by
    rw [derive, hea, hpsidlen, if_pos (by omega)]
    rw [bind_ok hw]
    change (deriveAddr _ o (some d) _ _ >>= _) = _
    rw [bind_ok hx]
    rfl
  refine ⟨_, w, hrun, ⟨hxlen, length_beBytes 2 _⟩, ⟨rfl, ?_⟩, ?_, rfl, ?_⟩
  · dsimp only
    omega
  · have htake : ((bits o.ipv4prefix.val).take p4).length = p4 := by
      rw [List.length_take, length_bits]
      omega
    have hea : ((eaBits d p6 (32 - p4 + q)).take (32 - p4)).length = 32 - p4 := by
      rw [List.length_take, length_eaBits (by omega)]
      omega
    apply bits_eq_append
    · dsimp only
      omega
    · intro i hi
      rw [htake] at hi
      rw [List.getElem?_take_of_lt hi, getElem?_bits (by omega), hxbits i (by omega), if_pos hi]
    · intro i hi
      rw [hea] at hi
      have hindex : p4 + i - p4 = i := Nat.add_sub_cancel_left p4 i
      rw [htake, List.getElem?_take_of_lt hi, getElem?_eaBits (by omega) (by omega),
        hxbits _ (by omega), if_neg (by omega), hindex]
  · have hdrop : ((eaBits d p6 (32 - p4 + q)).drop (32 - p4)).length = q := by
      rw [List.length_drop, length_eaBits (by omega)]
      omega
    apply bits_eq_append
    · rw [length_beBytes, hdrop, List.length_replicate]
      omega
    · intro i hi
      rw [hdrop] at hi
      rw [List.getElem?_drop, getElem?_eaBits (by omega) (by omega), hwbits, decide_eq_true hi,
        Bool.true_and, Nat.add_assoc]
    · intro i hi
      rw [List.length_replicate] at hi
      rw [List.getElem?_replicate_of_lt hi, hwbits, hdrop, decide_eq_false (by omega), Bool.false_and]

section Output

theorem mapM_ok {α β : Type} {f : α → Checked β} {g : α → β} {xs : List α}
    (h : ∀ x ∈ xs, f x = .ok (g x)) : xs.mapM f = .ok (xs.map g) := by
  induction xs with
  | nil => rfl
  | cons x xs ih =>
    rw [List.mapM_cons, bind_ok (h x List.mem_cons_self),
      bind_ok (ih fun y hy => h y (List.mem_cons_of_mem x hy))]
    rfl

theorem deriveAddr6_ok (legacy : Bool) (d : Delegated) {r : Derived}
    (hr : r.ipv4addr.length = 4 ∧ r.psid16.length = 2) : ∃ x, deriveAddr6 legacy d r = .ok x := by
  have hoffset : (if legacy then 9 else 10) ≤ 10 := by
    split <;> omega
  have hmask := d.mask.isLt
  have hlen := d.address.property
  have hzero : (List.replicate 16 (0 : U8)).length = 16 := List.length_replicate
  have hlen₁ : (overwrite (List.replicate 16 (0 : U8)) (if legacy then 9 else 10) r.ipv4addr).length = 16 :=
    (length_overwrite (by omega)).trans hzero
  have hlen₂ : (overwrite (overwrite (List.replicate 16 (0 : U8)) (if legacy then 9 else 10) r.ipv4addr)
      ((if legacy then 9 else 10) + 4) r.psid16).length = 16 :=
    (length_overwrite (by omega)).trans hlen₁
  obtain ⟨x, hx, -⟩ := @bmemcpy_bits (overwrite (overwrite (List.replicate 16 (0 : U8))
    (if legacy then 9 else 10) r.ipv4addr) ((if legacy then 9 else 10) + 4) r.psid16) d.address.val
    d.mask.val (by omega) (by omega)
  refine ⟨x, ?_⟩
  rw [deriveAddr6, bind_ok (store_ok (by omega)), bind_ok (store_ok (by omega))]
  exact hx

theorem derivePortsets_ofMachine {taken : Int → Nat} (htaken : ∀ n : Nat, n < 32 → taken n = n)
    (offset : Int) (r : Derived) :
    ∃ ranges, derivePortsets (.ofMachine taken htaken) offset r = .ok ranges := by
  rw [derivePortsets]
  split
  · have hturns : (rangeIndices offset.toNat).mapM (fun k => do
        let _ ← (Shifts.ofMachine taken htaken).amount (16 - offset)
        let _ ← (Shifts.ofMachine taken htaken).amount (asInt (16 - offset - r.psidlen))
        return portRange offset.toNat r.psidlen.toNat r.psid.toNat k) =
        .ok ((rangeIndices offset.toNat).map
          (portRange offset.toNat r.psidlen.toNat r.psid.toNat)) := mapM_ok fun k _ => rfl
    exact ⟨_, bind_ok hturns⟩
  · exact ⟨none, rfl⟩

end Output

/-- A rule with a delegated prefix is printed with this address and this PSID. -/
theorem calcRule_bits {taken : Int → Nat} (htaken : ∀ n : Nat, n < 32 → taken n = n) {o : Options}
    {legacy : Bool} {arg iface : List U8} {dump : List Iface} {d : Delegated} {p4 p6 ealen : Nat}
    (h4 : o.prefix4len = p4) (h6 : o.prefix6len = p6) (hfound : findPd o arg dump = .ok (some (iface, d)))
    (hea : ealenOf o (some d) = ealen) (hp4 : p4 ≤ 32) (hno : o.psidlen = -1 ∧ o.psid = -1)
    (hsum : p6 + ealen ≤ min d.mask.val 127) (hlow : 32 - p4 ≤ ealen) (hhigh : ealen ≤ 48 - p4) :
    ∃ rule, ∃ w : U16, calcRule (.ofMachine taken htaken) legacy arg dump o = .ok (some rule) ∧
      bits rule.derived.ipv4addr =
        (bits o.ipv4prefix.val).take p4 ++ (eaBits d p6 ealen).take (32 - p4) ∧
      rule.derived.psid = (w.toNat : Int) ∧ bits (beBytes 2 w) = (eaBits d p6 ealen).drop (32 - p4) ++
        List.replicate (48 - p4 - ealen) false := by
  obtain ⟨r, w, hr, hlens, ⟨hrealen, hrpsidlen⟩, haddr, hpsid⟩ := derive_bits htaken h4 h6 hea hp4 hno
    hsum hlow hhigh
  obtain ⟨x, hx⟩ := deriveAddr6_ok legacy d hlens
  obtain ⟨ranges, hranges⟩ := derivePortsets_ofMachine htaken (offsetOf legacy o) r
  refine ⟨⟨o, offsetOf legacy o, r, some (iface, d, x), ranges⟩, w, ?_, haddr, hpsid⟩
  rw [calcRule, bind_ok hfound]
  change (derive _ o (some d) >>= _) = _
  rw [bind_ok hr, if_neg (by omega)]
  dsimp only
  rw [bind_ok hx, bind_ok hranges]
  rfl

def sampleOptions : Options where
  lw4o6 := false
  fmr := false
  ealen := 16
  prefix4len := 24
  prefix6len := 40
  ipv4prefix := ⟨[192, 0, 2, 0], rfl⟩
  ipv6prefix := ⟨[0x20, 0x01, 0x0d, 0xb8, 0x12] ++ List.replicate 11 0, rfl⟩
  offset := -1
  psidlen := -1
  psid := -1

def sampleDelegated : Delegated where
  address := ⟨[0x20, 0x01, 0x0d, 0xb8, 0x12, 0x34, 0x56] ++ List.replicate 9 0, rfl⟩
  mask := 56

theorem calcRule_bits_wan : ∃ rule, ∃ w : U16,
    calcRule (.ofMachine Int.toNat fun n _ => Int.toNat_natCast n) false [0x2a]
      [⟨[0x77], [sampleDelegated]⟩] sampleOptions = .ok (some rule) ∧
    bits rule.derived.ipv4addr = (bits sampleOptions.ipv4prefix.val).take 24 ++
      (eaBits sampleDelegated 40 16).take 8 ∧
    rule.derived.psid = (w.toNat : Int) ∧ bits (beBytes 2 w) = (eaBits sampleDelegated 40 16).drop 8 ++
      List.replicate 8 false := by
  have hfound : findPd sampleOptions [0x2a] [⟨[0x77], [sampleDelegated]⟩] =
      .ok (some ([0x77], sampleDelegated)) := by rfl
  exact @calcRule_bits Int.toNat (fun n _ => Int.toNat_natCast n) sampleOptions false [0x2a] [0x77]
    [⟨[0x77], [sampleDelegated]⟩] sampleDelegated 24 40 16 rfl rfl hfound rfl (by decide) ⟨rfl, rfl⟩
    (by decide) (by decide) (by decide)

end OpenwrtMtk.Map
