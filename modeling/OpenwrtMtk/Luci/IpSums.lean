import OpenwrtMtk.Luci.IpWords

/-!
# Sums and differences of luci.ip

What `add` and `sub` are for, and when they do it. An operand is a number of 32 bits, the text of an
address or an object.
-/

namespace OpenwrtMtk.Luci.Ip

open Toolkit

set_option autoImplicit false

def limbs : Family → Nat
  | .inet4 => 2
  | .inet6 => 8

def addressValue (c : Cidr Int) : Int := wordsValue 16 c.words

/-- `c` is the address with the number `x`. -/
structure Stands (f : Family) (x : Int) (c : Cidr Int) : Prop where
  family : c.family = f
  length : c.words.length = limbs f
  words : InWords 16 c.words
  value : addressValue c = x

structure IsSubnet (c : Cidr Int) : Prop where
  stands : Stands c.family (addressValue c) c
  low : 0 ≤ c.prefixLen
  high : c.prefixLen ≤ maxlen c.family

/-- `x` is an operand of the family with the value `v`. -/
inductive OperandOf (R : Reals) (f : Family) : Operand → Int → Prop where
  | number (n : Nat) (h : n < 2 ^ 32) : OperandOf R f (.number n) n
  | text (s : List U8) (ws : List Int) (p : Rat) (h : objectOf R s = some ⟨f, ws.map Int.cast, p⟩)
      (hlen : ws.length = limbs f) (hws : InWords 16 ws) :
      OperandOf R f (.text s) (wordsValue 16 ws)
  | object (c : Cidr Int) (h : Stands f (addressValue c) c) :
      OperandOf R f (.object c) (addressValue c)

/-- The result is the address with the number `v` and the prefix length of `a`, or nil where there is no
such address. -/
def Yields (a : Cidr Int) (v : Int) (result : Option (Cidr Int)) : Prop :=
  (0 ≤ v ∧ v < 2 ^ (maxlen a.family).toNat →
    ∃ c, result = some c ∧ Stands a.family v c ∧ c.prefixLen = a.prefixLen) ∧
  (¬(0 ≤ v ∧ v < 2 ^ (maxlen a.family).toNat) → result = none)

/-- What `add` and `sub` are for. -/
structure Arithmetic (R : Reals) (a : Cidr Int) (x : Operand) (v : Int) : Prop where
  sum : ∀ inplace, ∃ r self', add R a x inplace = some (r, self') ∧ Yields a (addressValue a + v) r
  difference : ∀ inplace, ∃ r self', sub R a x inplace = some (r, self') ∧
    Yields a (addressValue a - v) r
  restored : ∀ c c', add R a x false = some (some c, c') →
    ∃ c'', sub R c x false = some (some a, c'')
  kept : ∀ self', add R a x true = some (none, self') ∨ sub R a x true = some (none, self') →
    self' = a

section Operands

variable {R : Reals} {a c : Cidr Int} {f : Family} {x : Operand} {v : Int} {ss ws : List Int}

theorem maxlen_limbs (f : Family) : (maxlen f).toNat = 16 * limbs f := by
  cases f <;> rfl

theorem limbs_pos (f : Family) : 2 ≤ limbs f := by
  cases f <;> decide

theorem integerOf_intCast (n : Int) : integerOf (n : Rat) = some n := by
  rw [integerOf, Rat.den_intCast, if_pos rfl, Rat.num_intCast]

theorem mapM_integerOf (ws : List Int) :
    (ws.map (Int.cast : Int → Rat)).mapM integerOf = some ws := by
  induction ws with
  | nil => rfl
  | cons w ws ih =>
    rw [List.map_cons, List.mapM_cons, integerOf_intCast, ih]
    rfl

theorem number_words {n : Nat} (h : n < 2 ^ 32) :
    InWords 16 [rshift n 16, band n 0xffff] ∧
      wordsValue 16 [rshift n 16, band n 0xffff] = n := by
  have hhigh : rshift n 16 = ((n / 2 ^ 16 : Nat) : Int) := by
    rw [rshift, Int.toNat_natCast, show (16 : Int).toNat = 16 from rfl,
      Nat.shiftRight_eq_div_pow]
  have hlow : band n 0xffff = ((n % 2 ^ 16 : Nat) : Int) := by
    rw [band, Int.toNat_natCast]
    exact congrArg Nat.cast (Nat.and_two_pow_sub_one_eq_mod n 16)
  rw [hhigh, hlow]
  constructor
  · intro w hw
    rcases List.mem_cons.mp hw with rfl | hw
    · omega
    · rcases List.mem_singleton.mp hw with rfl
      omega
  · simp only [wordsValue, List.length_cons, List.length_nil]
    omega

theorem array16_words (h : OperandOf R f x v) : ∃ ss, array16 R x f = some ss ∧ InWords 16 ss ∧
    (2 ≤ ss.length ∧ ss.length ≤ limbs f) ∧ wordsValue 16 ss = v := by
  cases h with
  | number n h =>
    obtain ⟨hwords, hvalue⟩ := number_words h
    exact ⟨_, rfl, hwords, ⟨le_refl _, limbs_pos f⟩, hvalue⟩
  | text s ws p h hlen hws =>
    refine ⟨ws, ?_, hws, ⟨hlen ▸ limbs_pos f, hlen.le⟩, rfl⟩
    rw [array16, h]
    dsimp only [Option.bind_eq_bind, Option.bind_some]
    rw [if_pos rfl]
    exact mapM_integerOf ws
  | object c h =>
    refine ⟨c.words, ?_, h.words, ⟨h.length ▸ limbs_pos f, h.length.le⟩, rfl⟩
    rw [array16, if_pos h.family]

theorem stepBy_yields {loop : List Int → List Int → Int → Option (List Int)} {inplace : Bool}
    (h : Yielded (limbs a.family) v (loop a.words.reverse ss.reverse 0)) :
    Yields a v (stepBy loop a ss inplace).1 := by
  unfold Yields
  rw [maxlen_limbs]
  constructor
  · intro hin
    obtain ⟨data, hdata, hlen, hwords, hvalue⟩ := h.1 hin
    rw [stepBy, hdata]
    refine ⟨_, rfl, ⟨rfl, ?_, ?_, ?_⟩, rfl⟩
    · rw [List.length_reverse, hlen]
    · exact inWords_reverse.mpr hwords
    · rw [addressValue, wordsValue_reverse, hvalue]
  · intro hout
    rw [stepBy, h.2 hout]

theorem yielded_of_yields {loop : List Int → List Int → Int → Option (List Int)} {inplace : Bool}
    (h : Yields a v (stepBy loop a ss inplace).1) :
    Yielded (limbs a.family) v (loop a.words.reverse ss.reverse 0) := by
  unfold Yields at h
  rw [maxlen_limbs] at h
  unfold stepBy at h
  cases hloop : loop a.words.reverse ss.reverse 0 with
  | none =>
    rw [hloop] at h
    refine ⟨?_, fun _ => rfl⟩
    intro hin
    obtain ⟨c, hc, -⟩ := h.1 hin
    cases hc
  | some data =>
    rw [hloop] at h
    constructor
    · intro hin
      obtain ⟨c, hc, hstands, -⟩ := h.1 hin
      cases hc
      refine ⟨data, rfl, ?_, inWords_reverse.mp hstands.words, ?_⟩
      · rw [← hstands.length, List.length_reverse]
      · rw [← hstands.value, addressValue, wordsValue_reverse]
    · intro hout
      have hnone := h.2 hout
      cases hnone

theorem yields_iff {loop : List Int → List Int → Int → Option (List Int)} :
    (∀ inplace, Yields a v (stepBy loop a ss inplace).1) ↔
      Yielded (limbs a.family) v (loop a.words.reverse ss.reverse 0) :=
  ⟨fun h => yielded_of_yields (h false), fun h _ => stepBy_yields h⟩

theorem stepBy_kept {loop : List Int → List Int → Int → Option (List Int)}
    {inplace : Bool} (h : (stepBy loop a ss inplace).1 = none) :
    (stepBy loop a ss inplace).2 = a := by
  unfold stepBy at h ⊢
  split at h
  · rfl
  · cases h

theorem lowValue_words (ws : List Int) : lowValue 16 ws.reverse = wordsValue 16 ws := by
  rw [← wordsValue_reverse, List.reverse_reverse]

section Steps

variable (ha : Stands a.family (addressValue a) a) (hss : InWords 16 ss)
  (hlen : ss.length ≤ limbs a.family)

include ha in
theorem words_ne_nil : a.words.reverse ≠ [] := by
  intro hnil
  have hzero := congrArg List.length hnil
  rw [List.length_reverse, ha.length] at hzero
  exact absurd hzero (Nat.ne_of_gt (Nat.lt_of_lt_of_le Nat.zero_lt_two (limbs_pos _)))

include ha hss hlen

theorem add_yields (hno : NoCarry (limbs a.family) (addressValue a) (wordsValue 16 ss))
    (inplace : Bool) :
    Yields a (addressValue a + wordsValue 16 ss) (stepBy addWords a ss inplace).1 := by
  have hyields := addWords_yields (inWords_reverse.mpr ha.words) (inWords_reverse.mpr hss)
    (words_ne_nil ha) (by rw [List.length_reverse, List.length_reverse, ha.length]; exact hlen)
  rw [List.length_reverse, ha.length, lowValue_words, lowValue_words] at hyields
  exact stepBy_yields (hyields hno)

theorem sub_yields (hno : NoBorrow (limbs a.family) (addressValue a) (wordsValue 16 ss))
    (inplace : Bool) :
    Yields a (addressValue a - wordsValue 16 ss) (stepBy subWords a ss inplace).1 := by
  have hyields := subWords_yields (inWords_reverse.mpr ha.words) (inWords_reverse.mpr hss)
    (words_ne_nil ha) (by rw [List.length_reverse, List.length_reverse, ha.length]; exact hlen)
  rw [List.length_reverse, ha.length, lowValue_words, lowValue_words] at hyields
  exact stepBy_yields (hyields hno)

omit hlen in
theorem restored_of_noCarry (hno : NoCarry (limbs a.family) (addressValue a) (wordsValue 16 ss))
    (hsum : (stepBy addWords a ss false).1 = some c) :
    c.family = a.family ∧ (stepBy subWords c ss false).1 = some a := by
  unfold stepBy at hsum
  cases hdata : addWords a.words.reverse ss.reverse 0 with
  | none =>
    rw [hdata] at hsum
    cases hsum
  | some data =>
    rw [hdata] at hsum
    cases hsum
    have hback := subWords_addWords (inWords_reverse.mpr ha.words) (inWords_reverse.mpr hss)
      (by rw [List.length_reverse, ha.length, lowValue_words, lowValue_words]; exact hno) hdata
    refine ⟨rfl, ?_⟩
    rw [stepBy, List.reverse_reverse, hback]
    dsimp only
    rw [List.reverse_reverse]

end Steps

theorem noCarry_two {x y : Int} (h : wordAt 16 x 0 + wordAt 16 y 0 ≤ 0xffff) : NoCarry 2 x y := by
  intro j hj
  have hzero : j = 0 := by omega
  rw [hzero]
  exact h

theorem arithmetic_iff (hwords : array16 R x a.family = some ss) :
    Arithmetic R a x v ↔
      (∀ inplace, Yields a (addressValue a + v) (stepBy addWords a ss inplace).1) ∧
      (∀ inplace, Yields a (addressValue a - v) (stepBy subWords a ss inplace).1) ∧
      ∀ c, (stepBy addWords a ss false).1 = some c →
        ∃ c'', sub R c x false = some (some a, c'') := by
  have hadd : ∀ inplace, add R a x inplace = some (stepBy addWords a ss inplace) := by
    intro inplace
    rw [add, hwords]
    rfl
  have hsub : ∀ inplace, sub R a x inplace = some (stepBy subWords a ss inplace) := by
    intro inplace
    rw [sub, hwords]
    rfl
  constructor
  · intro h
    refine ⟨?_, ?_, ?_⟩
    · intro inplace
      obtain ⟨r, self', heq, hyields⟩ := h.sum inplace
      rw [Option.some.inj ((hadd inplace).symm.trans heq)]
      exact hyields
    · intro inplace
      obtain ⟨r, self', heq, hyields⟩ := h.difference inplace
      rw [Option.some.inj ((hsub inplace).symm.trans heq)]
      exact hyields
    · intro c hc
      apply h.restored c (stepBy addWords a ss false).2
      rw [hadd, ← hc]
  · rintro ⟨hsum, hdiff, hback⟩
    refine ⟨fun inplace => ⟨_, _, hadd inplace, hsum inplace⟩,
      fun inplace => ⟨_, _, hsub inplace, hdiff inplace⟩, ?_, ?_⟩
    · intro c c' hc
      apply hback c
      rw [Option.some.inj ((hadd false).symm.trans hc)]
    · intro self' hnil
      rw [hadd, hsub] at hnil
      rcases hnil with hnil | hnil
      · have hstep := Option.some.inj hnil
        exact (congrArg Prod.snd hstep).symm.trans (stepBy_kept (congrArg Prod.fst hstep))
      · have hstep := Option.some.inj hnil
        exact (congrArg Prod.snd hstep).symm.trans (stepBy_kept (congrArg Prod.fst hstep))

end Operands

/-- Without a carry and without a borrow the operations are right. For IPv4 the sums and the differences
that are right are given exactly; for IPv6 a sum in range that is right has no carry. -/
theorem arithmetic_without_carries (R : Reals) (a : Cidr Int) (x : Operand) (v : Int)
    (ha : IsSubnet a) (hx : OperandOf R a.family x v) :
    (a.family = .inet4 →
      (Arithmetic R a x v ↔ AddsRight (addressValue a) v ∧ SubsRight (addressValue a) v)) ∧
    (NoCarry (limbs a.family) (addressValue a) v ∧ NoBorrow (limbs a.family) (addressValue a) v →
      Arithmetic R a x v) ∧
    (Arithmetic R a x v → addressValue a + v < 2 ^ (maxlen a.family).toNat →
      NoCarry (limbs a.family) (addressValue a) v) := by
  obtain ⟨ss, hwords, hss, ⟨htwo, hlen⟩, rfl⟩ := array16_words hx
  have hstands := ha.stands
  have hback : ∀ c, (stepBy addWords a ss false).1 = some c →
      NoCarry (limbs a.family) (addressValue a) (wordsValue 16 ss) →
      ∃ c'', sub R c x false = some (some a, c'') := by
    intro c hc hno
    obtain ⟨hfamily, hsub⟩ := restored_of_noCarry hstands hss hno hc
    refine ⟨(stepBy subWords c ss false).2, ?_⟩
    rw [sub, hfamily, hwords, ← hsub]
    rfl
  rw [arithmetic_iff hwords]
  refine ⟨?_, ?_, ?_⟩
  · intro hfour
    have hlimbs : limbs a.family = 2 := by rw [hfour]; rfl
    have hreverse := inWords_reverse.mpr hstands.words
    have hdlen : a.words.reverse.length = 2 := by
      rw [List.length_reverse, hstands.length, hlimbs]
    have hslen : ss.reverse.length = 2 := by
      rw [List.length_reverse]
      omega
    have hadds := addWords_two_iff hreverse (inWords_reverse.mpr hss) hdlen hslen
    have hsubs := subWords_two_iff hreverse (inWords_reverse.mpr hss) hdlen hslen
    rw [lowValue_words, lowValue_words] at hadds hsubs
    rw [yields_iff, yields_iff, hlimbs]
    constructor
    · rintro ⟨hsum, hdiff, -⟩
      exact ⟨hadds.mp hsum, hsubs.mp hdiff⟩
    · rintro ⟨hsum, hdiff⟩
      refine ⟨hadds.mpr hsum, hsubs.mpr hdiff, ?_⟩
      intro c hc
      rcases hsum with hfree | ⟨hlarge, hnot⟩
      · apply hback c hc
        rw [hlimbs]
        exact noCarry_two hfree
      · have hyields := yields_iff.mpr (hlimbs.symm ▸ hadds.mpr (.inr ⟨hlarge, hnot⟩)) false
        have hvalue : addressValue a = wordsValue 16 a.words := rfl
        rw [hyields.2 (by rw [maxlen_limbs, hlimbs]; omega)] at hc
        cases hc
  · rintro ⟨hcarry, hborrow⟩
    exact ⟨add_yields hstands hss hlen hcarry, sub_yields hstands hss hlen hborrow,
      fun c hc => hback c hc hcarry⟩
  · rintro ⟨hsum, -, -⟩ hfits
    rw [maxlen_limbs] at hfits
    have hlow : 0 ≤ addressValue a := (wordsValue_range hstands.words).1
    have hlow' : 0 ≤ wordsValue 16 ss := (wordsValue_range hss).1
    obtain ⟨data, hdata, -, -, hvalue⟩ := (yields_iff.mp hsum).1 ⟨by omega, hfits⟩
    have hcarry := fun hin => addWords_carry (inWords_reverse.mpr hstands.words)
      (inWords_reverse.mpr hss) hin hdata
    rw [List.length_reverse, hstands.length, lowValue_words, lowValue_words] at hcarry
    exact hcarry hfits hvalue

def exampleCidr : Cidr Int := ⟨.inet4, [0x0a00, 0xffff], 24⟩

theorem exampleCidr_subnet : IsSubnet exampleCidr := by
  refine ⟨⟨rfl, rfl, ?_, rfl⟩, by decide, by decide⟩
  intro w hw
  rcases List.mem_cons.mp hw with rfl | hw
  · decide
  · rcases List.mem_singleton.mp hw with rfl
    decide

theorem arithmetic_without_carries_example :
    (exampleCidr.family = .inet4 → (Arithmetic wholeReals exampleCidr (.number 1) 1 ↔
      AddsRight (addressValue exampleCidr) 1 ∧ SubsRight (addressValue exampleCidr) 1)) ∧
    (NoCarry (limbs exampleCidr.family) (addressValue exampleCidr) 1 ∧
      NoBorrow (limbs exampleCidr.family) (addressValue exampleCidr) 1 →
        Arithmetic wholeReals exampleCidr (.number 1) 1) ∧
    (Arithmetic wholeReals exampleCidr (.number 1) 1 →
      addressValue exampleCidr + 1 < 2 ^ (maxlen exampleCidr.family).toNat →
        NoCarry (limbs exampleCidr.family) (addressValue exampleCidr) 1) :=
  arithmetic_without_carries wholeReals exampleCidr (.number 1) 1 exampleCidr_subnet
    (.number 1 (by decide))

/-- One more than 10.0.255.255 is 10.0.0.1. -/
theorem carry_lost : ¬ ∀ (R : Reals) (a : Cidr Int) (x : Operand) (v : Int), IsSubnet a →
    OperandOf R a.family x v → Arithmetic R a x v := by
  intro h
  have harith := h wholeReals exampleCidr (.number 1) 1 exampleCidr_subnet
    (.number 1 (by decide))
  obtain ⟨r, self', hadd, hyields⟩ := harith.sum false
  cases hadd
  obtain ⟨c, hc, hstands, -⟩ := hyields.1 (by decide)
  cases hc
  exact absurd hstands.value (by decide)

end OpenwrtMtk.Luci.Ip
