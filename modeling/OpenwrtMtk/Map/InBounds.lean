import OpenwrtMtk.Map.Derived

/-!
# Which rules mapcalc calculates inside its bounds

The lengths of a rule are checked against their own upper bounds only, or stay -1, and what comes of
them is used as counts of bits and as amounts of shifts.
-/

namespace OpenwrtMtk.Map

open Toolkit
open Luci (latin)

set_option autoImplicit false

section Copies

variable {a b : List U8} {n start : Nat}

theorem bmemcmp_ends (ha : n ≤ 8 * a.length) (hb : n ≤ 8 * b.length) : Ends (bmemcmp a b n) := by
  rw [bmemcmp, bind_ok (load_ok (by omega)), bind_ok (load_ok (by omega))]
  split
  · rename_i hpart
    rw [bind_ok (loadByte_ok (by omega)), bind_ok (loadByte_ok (by omega))]
    exact ends_pure _
  · exact ends_pure _

theorem bmemcmp_outside (ha : a.length < n / 8) : bmemcmp a b n = .error .outside := by
  have hload : load a 0 (n / 8) = .error .outside := by
    apply if_neg
    rintro ⟨-, hin⟩
    omega
  rw [bmemcmp, hload]
  rfl

theorem bmemcpy_ends_iff : Ends (bmemcpy a b n) ↔ n ≤ 8 * a.length ∧ n ≤ 8 * b.length := by
  constructor
  · intro h
    rw [bmemcpy, ends_load] at h
    obtain ⟨hload, h⟩ := h
    have hsrc : (slice b 0 (n / 8)).length = n / 8 := length_slice hload
    rw [ends_store, hsrc] at h
    obtain ⟨hstore, h⟩ := h
    have hlen : (overwrite a 0 (slice b 0 (n / 8))).length = a.length :=
      length_overwrite (by rw [hsrc]; exact hstore)
    by_cases hpart : 0 < n % 8
    · rw [if_pos hpart, ends_loadByte, hlen, ends_loadByte] at h
      omega
    · omega
  · rintro ⟨ha, hb⟩
    obtain ⟨x, hx, -⟩ := bmemcpy_bits ha hb
    exact ⟨x, hx⟩

theorem length_bmemcpy {x : List U8} (h : bmemcpy a b n = .ok x) : x.length = a.length := by
  obtain ⟨ha, hb⟩ := bmemcpy_ends_iff.mp ⟨x, h⟩
  obtain ⟨x', hx', hlen, -⟩ := bmemcpy_bits ha hb
  rw [hx'] at h
  cases h
  exact hlen

theorem bmemcpys64_ends_iff (hsize : start + n < 2 ^ 32) : Ends (bmemcpys64 a b start n) ↔
    (start + n) / 8 < b.length ∧ (start + n) / 8 - start / 8 < 8 ∧ n ≤ 8 * a.length ∧ n ≤ 64 := by
  have hto : (start + n) % 2 ^ 32 / 8 = (start + n) / 8 := by rw [Nat.mod_eq_of_lt hsize]
  have hcount : (sizeSub ((start + n) / 8) (start / 8) + 1) % 2 ^ 32 = (start + n) / 8 - start / 8 + 1 := by
    rw [sizeSub_of_le (by omega) (by omega)]
    omega
  rw [bmemcpys64, hto, hcount, ends_load]
  have hbytes : start / 8 + ((start + n) / 8 - start / 8 + 1) ≤ b.length ↔ (start + n) / 8 < b.length := by
    omega
  rw [hbytes]
  apply and_congr_right
  intro hin
  rw [ends_store, length_slice (by omega), List.length_replicate, bmemcpy_ends_iff, length_beBytes]
  omega

end Copies

section Options

/-- What the checks of the options leave possible. -/
structure Options.Possible (o : Options) : Prop where
  ealen : -2 ^ 31 ≤ o.ealen ∧ o.ealen ≤ 48
  prefix4len : -2 ^ 31 ≤ o.prefix4len ∧ o.prefix4len ≤ 32
  prefix6len : -2 ^ 31 ≤ o.prefix6len ∧ o.prefix6len ≤ 112
  offset : -2 ^ 31 ≤ o.offset ∧ o.offset ≤ 16
  psidlen : -2 ^ 31 ≤ o.psidlen ∧ o.psidlen ≤ 16
  psid : -2 ^ 31 ≤ o.psid ∧ o.psid ≤ 65535

variable {libc : Libc} {o o' : Options}

theorem possible_initial : Options.initial.Possible := by
  constructor <;> decide

theorem number_possible {value : Option (List U8)} {max : Int} {set : Int → Options}
    (ho : o.Possible) (hset : ∀ n, -2 ^ 31 ≤ n ∧ n ≤ max → (set n).Possible)
    (h : number libc value max o set = some o') : o'.Possible := by
  cases value with
  | none => cases h
  | some text =>
    rw [number] at h
    dsimp only [bind, Option.bind] at h
    cases hnum : libc.strtoul text with
    | none =>
      rw [hnum] at h
      cases h
      exact ho
    | some intval =>
      rw [hnum] at h
      dsimp only at h
      cases h
      split
      · rename_i hle
        exact hset _ ⟨intval.le_toInt, hle⟩
      · exact ho

theorem applyOption_possible {name : List U8} {value : Option (List U8)} (ho : o.Possible)
    (h : applyOption libc o name value = some o') : o'.Possible := by
  rw [applyOption] at h
  split at h
  · cases h
    exact ⟨ho.ealen, ho.prefix4len, ho.prefix6len, ho.offset, ho.psidlen, ho.psid⟩
  split at h
  · cases h
    exact ⟨ho.ealen, ho.prefix4len, ho.prefix6len, ho.offset, ho.psidlen, ho.psid⟩
  split at h
  · refine number_possible ho ?_ h
    intro n hn
    exact ⟨hn, ho.prefix4len, ho.prefix6len, ho.offset, ho.psidlen, ho.psid⟩
  split at h
  · refine number_possible ho ?_ h
    intro n hn
    exact ⟨ho.ealen, hn, ho.prefix6len, ho.offset, ho.psidlen, ho.psid⟩
  split at h
  · refine number_possible ho ?_ h
    intro n hn
    exact ⟨ho.ealen, ho.prefix4len, hn, ho.offset, ho.psidlen, ho.psid⟩
  split at h
  · obtain ⟨text, -, rfl⟩ := Option.map_eq_some_iff.mp h
    exact ⟨ho.ealen, ho.prefix4len, ho.prefix6len, ho.offset, ho.psidlen, ho.psid⟩
  split at h
  · obtain ⟨text, -, rfl⟩ := Option.map_eq_some_iff.mp h
    exact ⟨ho.ealen, ho.prefix4len, ho.prefix6len, ho.offset, ho.psidlen, ho.psid⟩
  split at h
  · refine number_possible ho ?_ h
    intro n hn
    exact ⟨ho.ealen, ho.prefix4len, ho.prefix6len, hn, ho.psidlen, ho.psid⟩
  split at h
  · refine number_possible ho ?_ h
    intro n hn
    exact ⟨ho.ealen, ho.prefix4len, ho.prefix6len, ho.offset, hn, ho.psid⟩
  split at h
  · refine number_possible ho ?_ h
    intro n hn
    exact ⟨ho.ealen, ho.prefix4len, ho.prefix6len, ho.offset, ho.psidlen, hn⟩
  · cases h
    exact ho

theorem foldlM_possible {texts : List (List U8)} (ho : o.Possible)
    (h : texts.foldlM (fun o text => applyOption libc o (getsubopt text).1 (getsubopt text).2) o =
      some o') : o'.Possible := by
  induction texts generalizing o with
  | nil =>
    cases h
    exact ho
  | cons text texts ih =>
    rw [List.foldlM_cons] at h
    obtain ⟨o₁, happly, h⟩ := Option.bind_eq_some_iff.mp h
    exact ih (applyOption_possible ho happly) h

theorem parseRule_possible {rule : List U8} (h : parseRule libc rule = some o) : o.Possible :=
  foldlM_possible possible_initial h

end Options

section Prefixes

def asked (arg : List U8) (c : Iface) : Bool := decide (arg = latin "*" ∨ arg = c.name)

def candidates (arg : List U8) (dump : List Iface) : List (List U8 × Delegated) :=
  (dump.filter (asked arg)).flatMap fun c => c.prefixes.map fun d => (c.name, d)

def matches6 (o : Options) (d : Delegated) : Bool :=
  decide (o.prefix6len ≤ d.mask.val) &&
    decide (bmemcmp d.address.val o.ipv6prefix.val (sizeT o.prefix6len) = .ok true)

def matching (o : Options) (arg : List U8) (dump : List Iface) : Option (List U8 × Delegated) :=
  (candidates arg dump).find? fun c => matches6 o c.2

variable {o : Options} {arg : List U8}

theorem findPrefix_eq (hlow : 0 ≤ o.prefix6len) (hhigh : o.prefix6len ≤ 112) (ds : List Delegated) :
    findPrefix o ds = .ok (ds.find? (matches6 o)) := by
  have hsize : sizeT o.prefix6len ≤ 112 := by
    rw [sizeT]
    omega
  induction ds with
  | nil => rfl
  | cons d ds ih =>
    have hlen := d.address.property
    have hlen' := o.ipv6prefix.property
    obtain ⟨same, hsame⟩ := @bmemcmp_ends d.address.val o.ipv6prefix.val (sizeT o.prefix6len)
      (by omega) (by omega)
    rw [findPrefix, List.find?_cons, matches6, hsame]
    split
    · rename_i hmask
      rw [decide_eq_true hmask, Bool.true_and, bind_ok rfl]
      cases same with
      | true => rfl
      | false => exact ih
    · rename_i hmask
      rw [decide_eq_false hmask, Bool.false_and]
      exact ih

theorem findPrefix_outside (ho : o.Possible) (hneg : o.prefix6len < 0) (d : Delegated)
    (ds : List Delegated) : findPrefix o (d :: ds) = .error .outside := by
  have hlow := ho.prefix6len.1
  have hlen := d.address.property
  have hsize : 16 < sizeT o.prefix6len / 8 := by
    rw [sizeT]
    omega
  rw [findPrefix, if_pos (by omega), bmemcmp_outside (by omega)]
  rfl

theorem candidates_cons (arg : List U8) (c : Iface) (cs : List Iface) : candidates arg (c :: cs) =
    if asked arg c then (c.prefixes.map fun d => (c.name, d)) ++ candidates arg cs
    else candidates arg cs := by
  cases hasked : asked arg c with
  | true =>
    rw [if_pos rfl, candidates, candidates, List.filter_cons_of_pos hasked, List.flatMap_cons]
  | false =>
    rw [if_neg Bool.false_ne_true, candidates, candidates,
      List.filter_cons_of_neg (by rw [hasked]; exact Bool.false_ne_true)]

def foundOr (name : List U8) (rest : Checked (Option (List U8 × Delegated))) :
    Option Delegated → Checked (Option (List U8 × Delegated))
  | some d => .ok (some (name, d))
  | none => rest

theorem findPd_cons (o : Options) (arg : List U8) (c : Iface) (cs : List Iface) :
    findPd o arg (c :: cs) =
      if asked arg c then findPrefix o c.prefixes >>= foundOr c.name (findPd o arg cs)
      else findPd o arg cs := by
  rw [findPd]
  by_cases hother : arg ≠ latin "*" ∧ arg ≠ c.name
  · have hasked : asked arg c = false := by
      apply decide_eq_false
      rintro (h | h)
      · exact hother.1 h
      · exact hother.2 h
    rw [if_pos hother, hasked, if_neg Bool.false_ne_true]
  · have hasked : asked arg c = true := by
      apply decide_eq_true
      by_contra hnot
      exact hother ⟨fun h => hnot (Or.inl h), fun h => hnot (Or.inr h)⟩
    rw [if_neg hother, hasked, if_pos rfl]
    cases findPrefix o c.prefixes with
    | error f => rfl
    | ok found =>
      cases found with
      | none => rfl
      | some d => rfl

theorem findPd_eq (hlow : 0 ≤ o.prefix6len) (hhigh : o.prefix6len ≤ 112) (dump : List Iface) :
    findPd o arg dump = .ok (matching o arg dump) := by
  induction dump with
  | nil => rfl
  | cons c cs ih =>
    rw [findPd_cons, matching, candidates_cons]
    cases asked arg c with
    | false => exact ih
    | true =>
      rw [if_pos rfl, if_pos rfl, findPrefix_eq hlow hhigh, bind_ok rfl, List.find?_append,
        List.find?_map]
      cases hfind : c.prefixes.find? (matches6 o) with
      | none =>
        have hnone : c.prefixes.find? ((fun x : List U8 × Delegated => matches6 o x.2) ∘
            fun d => (c.name, d)) = none := hfind
        rw [hnone]
        exact ih
      | some d =>
        have hsome : c.prefixes.find? ((fun x : List U8 × Delegated => matches6 o x.2) ∘
            fun d => (c.name, d)) = some d := hfind
        rw [hsome]
        rfl

theorem findPd_none {dump : List Iface} (h : candidates arg dump = []) :
    findPd o arg dump = .ok none := by
  induction dump with
  | nil => rfl
  | cons c cs ih =>
    rw [candidates_cons] at h
    rw [findPd_cons]
    cases hasked : asked arg c with
    | false =>
      rw [hasked] at h
      exact ih h
    | true =>
      rw [hasked, if_pos rfl, List.append_eq_nil_iff, List.map_eq_nil_iff] at h
      rw [if_pos rfl, h.1]
      exact ih h.2

theorem findPd_outside (ho : o.Possible) (hneg : o.prefix6len < 0) {dump : List Iface}
    (h : candidates arg dump ≠ []) : findPd o arg dump = .error .outside := by
  induction dump with
  | nil => exact absurd rfl h
  | cons c cs ih =>
    rw [candidates_cons] at h
    rw [findPd_cons]
    cases hasked : asked arg c with
    | false =>
      rw [hasked] at h
      exact ih h
    | true =>
      rw [if_pos rfl]
      cases hprefixes : c.prefixes with
      | nil =>
        rw [hasked, if_pos rfl, hprefixes] at h
        exact ih h
      | cons d ds =>
        rw [findPrefix_outside ho hneg]
        rfl

end Prefixes

section Safe

variable (legacy : Bool) (o : Options) (pd : Option Delegated)

def psidGiven : Int := if o.psidlen ≤ 0 then -1 else o.psid

/-- The lengths, `pd` being the prefix that is delegated for the rule. -/
def ealenAt : Int := ealenOf o pd

def psidlenAt : Int := psidlenOf o (ealenOf o pd)

def TakesPsid : Prop :=
  pd.isSome ∧ psidGiven o < 0 ∧ psidlenAt o pd ≤ 16 ∧ 0 ≤ psidlenAt o pd ∧ psidlenAt o pd ≤ ealenAt o pd

def TakesAddr : Prop :=
  (pd.isSome ∨ ealenAt o pd = psidlenAt o pd) ∧ psidlenAt o pd ≤ ealenAt o pd

def Printed : Prop :=
  0 ≤ o.prefix4len ∧ 0 ≤ o.prefix6len ∧ 0 ≤ ealenAt o pd ∧ psidlenAt o pd ≤ ealenAt o pd ∧
    (pd.isSome ∨ o.fmr)

structure SafeLengths : Prop where
  psid : TakesPsid o pd → o.prefix6len + ealenAt o pd ≤ 127
  shift : -15 ≤ psidlenAt o pd ∧ psidlenAt o pd ≤ 16
  addr : TakesAddr o pd → (0 ≤ o.prefix6len ∧ o.prefix6len + (ealenAt o pd - psidlenAt o pd) ≤ 127) ∧
    ealenAt o pd - psidlenAt o pd ≤ 32 ∧ 0 ≤ o.prefix4len ∧ o.prefix4len ≤ 31
  ports : Printed o pd → 0 < psidlenAt o pd → (0 ≤ psidGiven o ∨ TakesPsid o pd) →
    offsetOf legacy o + psidlenAt o pd ≤ 16

/-- What the lengths of a rule have to be for the prefixes that are delegated. -/
structure SafeRule (arg : List U8) (dump : List Iface) : Prop where
  prefix6 : candidates arg dump ≠ [] → 0 ≤ o.prefix6len
  lengths : SafeLengths legacy o ((matching o arg dump).map (·.2))

end Safe

section Lengths

variable {legacy : Bool} {o : Options} {pd : Option Delegated}

def Found (o : Options) (pd : Option Delegated) : Prop :=
  ∀ d ∈ pd, 0 ≤ o.prefix6len ∧ o.prefix6len ≤ d.mask.val

theorem asInt_range (n : Int) : -2 ^ 31 ≤ asInt n ∧ asInt n < 2 ^ 31 := by
  rw [asInt]
  omega

theorem ealenAt_le (ho : o.Possible) (hpd : Found o pd) : ealenAt o pd ≤ 128 := by
  have hle := ho.ealen.2
  cases pd with
  | none => exact Int.le_trans hle (by decide)
  | some d =>
    obtain ⟨hlow, hmask⟩ := hpd d rfl
    have hlt := d.mask.isLt
    rw [ealenAt, ealenOf]
    split
    · rw [asInt_eq (by omega)]
      omega
    · omega

theorem psidlenAt_range (ho : o.Possible) : -2 ^ 31 ≤ psidlenAt o pd ∧ psidlenAt o pd < 2 ^ 31 := by
  have hpsidlen := ho.psidlen
  rw [psidlenAt, psidlenOf]
  split
  · exact asInt_range _
  · omega

theorem ends_strict (n : Int) : Ends (Shifts.strict.amount n) ↔ 0 ≤ n ∧ n < 32 := by
  change Ends (if 0 ≤ n ∧ n < 32 then _ else _) ↔ _
  split
  · rename_i h
    exact iff_of_true (ends_ok _) h
  · rename_i h
    exact iff_of_false Ends.error h

theorem ends_psidShift (ho : o.Possible) : Ends (Shifts.strict.amount (asInt (16 - psidlenAt o pd))) ↔
    -15 ≤ psidlenAt o pd ∧ psidlenAt o pd ≤ 16 := by
  have hrange := @psidlenAt_range o pd ho
  rw [ends_strict, asInt]
  omega

theorem derivePsid_ends (ho : o.Possible) (hpd : Found o pd) :
    Ends (derivePsid o pd (ealenAt o pd) (psidlenAt o pd) (psidGiven o)) ↔
      (TakesPsid o pd → o.prefix6len + ealenAt o pd ≤ 127) := by
  have hea := ealenAt_le ho hpd
  have hhigh := ho.prefix6len.2
  cases pd with
  | none =>
    refine iff_of_true (ends_pure _) ?_
    intro htakes
    exact absurd htakes.1 Bool.false_ne_true
  | some d =>
    obtain ⟨hlow, -⟩ := hpd d rfl
    have hlen := d.address.property
    rw [derivePsid]
    by_cases hcond : psidGiven o < 0 ∧ psidlenAt o (some d) ≤ 16 ∧ 0 ≤ psidlenAt o (some d) ∧
        psidlenAt o (some d) ≤ ealenAt o (some d)
    · have htakes : TakesPsid o (some d) := ⟨rfl, hcond⟩
      have hstart : asInt (asInt (o.prefix6len + ealenAt o (some d)) - psidlenAt o (some d)) =
          ((o.prefix6len + ealenAt o (some d) - psidlenAt o (some d)).toNat : Int) := by
        have hinner : asInt (o.prefix6len + ealenAt o (some d)) =
            o.prefix6len + ealenAt o (some d) := asInt_eq (by omega)
        rw [hinner, asInt_eq (by omega)]
        omega
      have hcount : psidlenAt o (some d) = ((psidlenAt o (some d)).toNat : Int) := by omega
      rw [if_pos hcond, hstart, sizeT_natCast (by omega), hcount, sizeT_natCast (by omega), ← hcount,
        ends_bind_of_ends (fun x => ends_pure _), bmemcpys64_ends_iff (by omega), List.length_replicate]
      constructor
      · intro h _
        omega
      · intro h
        have hsum := h htakes
        omega
    · rw [if_neg hcond]
      exact iff_of_true (ends_pure _) fun htakes => absurd htakes.2 hcond

theorem derivePsid_sign {r : Int}
    (h : derivePsid o pd (ealenAt o pd) (psidlenAt o pd) (psidGiven o) = .ok r) :
    0 ≤ r ↔ 0 ≤ psidGiven o ∨ TakesPsid o pd := by
  cases pd with
  | none =>
    cases h
    constructor
    · exact Or.inl
    · rintro (hgiven | htakes)
      · exact hgiven
      · exact absurd htakes.1 Bool.false_ne_true
  | some d =>
    rw [derivePsid] at h
    by_cases hcond : psidGiven o < 0 ∧ psidlenAt o (some d) ≤ 16 ∧ 0 ≤ psidlenAt o (some d) ∧
        psidlenAt o (some d) ≤ ealenAt o (some d)
    · rw [if_pos hcond] at h
      obtain ⟨x, -, hr⟩ := bind_eq_ok.mp h
      cases hr
      exact iff_of_true (Int.natCast_nonneg _) (Or.inr ⟨rfl, hcond⟩)
    · rw [if_neg hcond] at h
      cases h
      constructor
      · exact Or.inl
      · rintro (hgiven | htakes)
        · exact hgiven
        · exact absurd htakes.2 hcond

theorem length_pdAddress (pd : Option Delegated) : (pdAddress pd).length = 16 := by
  cases pd with
  | none => exact List.length_replicate
  | some d => exact d.address.property

theorem deriveAddr_ends (ho : o.Possible) (hpd : Found o pd)
    (hshift : -15 ≤ psidlenAt o pd ∧ psidlenAt o pd ≤ 16) :
    Ends (deriveAddr .strict o pd (ealenAt o pd) (psidlenAt o pd)) ↔
      (TakesAddr o pd → (0 ≤ o.prefix6len ∧ o.prefix6len + (ealenAt o pd - psidlenAt o pd) ≤ 127) ∧
        ealenAt o pd - psidlenAt o pd ≤ 32 ∧ 0 ≤ o.prefix4len ∧ o.prefix4len ≤ 31) := by
  have hea := ealenAt_le ho hpd
  have hlow6 := ho.prefix6len.1
  have hhigh6 := ho.prefix6len.2
  have hlen := length_pdAddress pd
  have hlen4 := o.ipv4prefix.property
  rw [deriveAddr]
  by_cases htakes : TakesAddr o pd
  · have hnone : o.prefix6len < 0 → ealenAt o pd = psidlenAt o pd := by
      intro hneg
      rcases htakes.1 with hsome | heq
      · obtain ⟨d, rfl⟩ := Option.isSome_iff_exists.mp hsome
        exact absurd (hpd d rfl).1 (by omega)
      · exact heq
    have hle := htakes.2
    have hcount : asInt (ealenAt o pd - psidlenAt o pd) =
        ((ealenAt o pd - psidlenAt o pd).toNat : Int) := by
      rw [asInt_eq (by omega)]
      omega
    have hstart : sizeT o.prefix6len + (ealenAt o pd - psidlenAt o pd).toNat < 2 ^ 32 := by
      rw [sizeT]
      omega
    have hcond : (pd.isSome ∨ ealenAt o pd = psidlenAt o pd) ∧ psidlenAt o pd ≤ ealenAt o pd := htakes
    rw [if_pos hcond, hcount, sizeT_natCast (by omega)]
    have hrest : ∀ x : List U8, Ends (do
        let amount ← Shifts.strict.amount o.prefix4len
        let ipv4addr ← bmemcpy (beBytes 4 (beWord 32 x >>> amount)) o.ipv4prefix.val
          (sizeT o.prefix4len)
        return (ipv4addr, if asInt (o.prefix4len + ealenAt o pd) < 32
          then asInt (o.prefix4len + ealenAt o pd) else 32)) ↔ 0 ≤ o.prefix4len ∧ o.prefix4len ≤ 31 := by
      intro x
      rw [ends_bind]
      constructor
      · rintro ⟨amount, hamount, -⟩
        have hin := (ends_strict _).mp ⟨amount, hamount⟩
        omega
      · intro hin
        obtain ⟨amount, hamount⟩ := (ends_strict o.prefix4len).mpr (by omega)
        refine ⟨amount, hamount, ?_⟩
        rw [ends_bind_of_ends (fun y => ends_pure _), bmemcpy_ends_iff, length_beBytes, hlen4, sizeT]
        omega
    have hcopy := @bmemcpys64_ends_iff (List.replicate 4 0) (pdAddress pd) _ _ hstart
    rw [List.length_replicate, hlen] at hcopy
    rw [ends_bind]
    constructor
    · rintro ⟨x, hx, hr⟩ -
      have hin := hcopy.mp ⟨x, hx⟩
      have hp4 := (hrest x).mp hr
      rw [sizeT] at hin
      omega
    · intro h
      obtain ⟨⟨hp6, hsum⟩, hfew, hp4⟩ := h htakes
      have hsize : sizeT o.prefix6len = o.prefix6len.toNat := by
        rw [sizeT]
        omega
      obtain ⟨x, hx⟩ := hcopy.mpr (by rw [hsize]; omega)
      exact ⟨x, hx, (hrest x).mpr hp4⟩
  · have hcond : ¬((pd.isSome ∨ ealenAt o pd = psidlenAt o pd) ∧ psidlenAt o pd ≤ ealenAt o pd) :=
      htakes
    rw [if_neg hcond]
    exact iff_of_true (ends_pure _) fun h => absurd h htakes

theorem deriveAddr_length {r : List U8 × Int} {sh : Shifts} {ealen psidlen : Int}
    (h : deriveAddr sh o pd ealen psidlen = .ok r) : r.1.length = 4 := by
  rw [deriveAddr] at h
  split at h
  · obtain ⟨x, -, h⟩ := bind_eq_ok.mp h
    obtain ⟨amount, -, h⟩ := bind_eq_ok.mp h
    obtain ⟨y, hy, h⟩ := bind_eq_ok.mp h
    cases h
    rw [length_bmemcpy hy, length_beBytes]
  · cases h
    exact List.length_replicate

theorem derive_ends (ho : o.Possible) (hpd : Found o pd) : Ends (derive .strict o pd) ↔
    (TakesPsid o pd → o.prefix6len + ealenAt o pd ≤ 127) ∧
      (-15 ≤ psidlenAt o pd ∧ psidlenAt o pd ≤ 16) ∧
      (TakesAddr o pd → (0 ≤ o.prefix6len ∧ o.prefix6len + (ealenAt o pd - psidlenAt o pd) ≤ 127) ∧
        ealenAt o pd - psidlenAt o pd ≤ 32 ∧ 0 ≤ o.prefix4len ∧ o.prefix4len ≤ 31) := by
  have hpsid := derivePsid_ends ho hpd
  have hshift := @ends_psidShift o pd ho
  change Ends (derivePsid o pd (ealenAt o pd) (psidlenAt o pd) (psidGiven o) >>= fun psid => do
    let amount ← Shifts.strict.amount (asInt (16 - psidlenAt o pd))
    let r ← deriveAddr .strict o pd (ealenAt o pd) (psidlenAt o pd)
    return (⟨ealenAt o pd, psidlenAt o pd, psid,
      beBytes 2 (((BitVec.ofInt 32 psid).sshiftRight amount).setWidth 16), r.1, r.2⟩ : Derived)) ↔ _
  rw [ends_bind]
  constructor
  · rintro ⟨psid, hp, h⟩
    obtain ⟨amount, hamount, h⟩ := ends_bind.mp h
    have hin := hshift.mp ⟨amount, hamount⟩
    rw [ends_bind_of_ends (fun r => ends_pure _)] at h
    exact ⟨hpsid.mp ⟨psid, hp⟩, hin, (deriveAddr_ends ho hpd hin).mp h⟩
  · rintro ⟨hp, hin, haddr⟩
    obtain ⟨psid, hp⟩ := hpsid.mpr hp
    obtain ⟨amount, hamount⟩ := hshift.mpr hin
    refine ⟨psid, hp, ends_bind.mpr ⟨amount, hamount, ?_⟩⟩
    rw [ends_bind_of_ends (fun r => ends_pure _)]
    exact (deriveAddr_ends ho hpd hin).mpr haddr

theorem derive_facts {r : Derived} (h : derive .strict o pd = .ok r) :
    (r.ealen = ealenAt o pd ∧ r.psidlen = psidlenAt o pd) ∧
      (0 ≤ r.psid ↔ 0 ≤ psidGiven o ∨ TakesPsid o pd) ∧
      (r.ipv4addr.length = 4 ∧ r.psid16.length = 2) := by
  rw [derive] at h
  obtain ⟨psid, hpsid, h⟩ := bind_eq_ok.mp h
  obtain ⟨amount, -, h⟩ := bind_eq_ok.mp h
  obtain ⟨x, hx, h⟩ := bind_eq_ok.mp h
  cases h
  exact ⟨⟨rfl, rfl⟩, derivePsid_sign hpsid, deriveAddr_length hx, length_beBytes 2 _⟩

theorem offsetOf_range (ho : o.Possible) : 0 ≤ offsetOf legacy o ∧ offsetOf legacy o ≤ 16 := by
  have hoffset := ho.offset
  rw [offsetOf]
  split
  · split
    · decide
    · split <;> decide
  · omega

theorem ends_mapM {α β : Type} {f : α → Checked β} {C : Prop} (h : ∀ x, Ends (f x) ↔ C) {xs : List α}
    (hne : xs ≠ []) : Ends (xs.mapM f) ↔ C := by
  constructor
  · intro hends
    cases xs with
    | nil => exact absurd rfl hne
    | cons x xs =>
      rw [List.mapM_cons] at hends
      obtain ⟨y, hy, -⟩ := ends_bind.mp hends
      exact (h x).mp ⟨y, hy⟩
  · intro hC
    choose g hg using fun x => (h x).mpr hC
    exact ⟨xs.map g, mapM_ok fun x _ => hg x⟩

theorem rangeIndices_ne_nil (offset : Nat) : rangeIndices offset ≠ [] := by
  have hmem : (if offset ≠ 0 then 1 else 0) ∈ rangeIndices offset := by
    apply mem_rangeIndices.mpr
    by_cases h : offset = 0
    · subst h
      decide
    · rw [if_pos h]
      exact ⟨fun _ => Nat.le_refl 1, Nat.one_lt_two_pow h⟩
  exact List.ne_nil_of_mem hmem

theorem derivePortsets_ends {r : Derived} {offset : Int} (hoffset : 0 ≤ offset ∧ offset ≤ 16)
    (hlen : r.psidlen ≤ 16) : Ends (derivePortsets .strict offset r) ↔
      (0 < r.psidlen → 0 ≤ r.psid → offset + r.psidlen ≤ 16) := by
  rw [derivePortsets]
  by_cases hcond : 0 < r.psidlen ∧ 0 ≤ r.psid
  · obtain ⟨amount, hamount⟩ := (ends_strict offset).mpr (by omega)
    have hturn (k : Nat) : Ends (do
        let _ ← Shifts.strict.amount (16 - offset)
        let _ ← Shifts.strict.amount (asInt (16 - offset - r.psidlen))
        return portRange offset.toNat r.psidlen.toNat r.psid.toNat k) ↔ offset + r.psidlen ≤ 16 := by
      obtain ⟨first, hfirst⟩ := (ends_strict (16 - offset)).mpr (by omega)
      rw [bind_ok hfirst, ends_bind_of_ends (fun _ => ends_pure _), ends_strict, asInt_eq (by omega)]
      omega
    rw [if_pos hcond, bind_ok hamount, ends_bind_of_ends (fun _ => ends_pure _),
      ends_mapM hturn (rangeIndices_ne_nil _)]
    exact ⟨fun h _ _ => h, fun h => h hcond.1 hcond.2⟩
  · rw [if_neg hcond]
    exact iff_of_true (ends_pure _) fun hpos hsign => absurd ⟨hpos, hsign⟩ hcond

end Lengths

section Rules

variable {legacy : Bool} {o : Options} {arg : List U8} {dump : List Iface}

def ruleBehind (legacy : Bool) (o : Options) (r : Derived) :
    Option (List U8 × Delegated) → Checked (Option Rule)
  | none =>
    if !o.fmr then return none
    else do
      let portsets ← derivePortsets .strict (offsetOf legacy o) r
      return some ⟨o, offsetOf legacy o, r, none, portsets⟩
  | some (iface, d) => do
    let ipv6addr ← deriveAddr6 legacy d r
    let portsets ← derivePortsets .strict (offsetOf legacy o) r
    return some ⟨o, offsetOf legacy o, r, some (iface, d, ipv6addr), portsets⟩

theorem ruleBehind_ends {found : Option (List U8 × Delegated)} {r : Derived}
    (hfmr : found.isSome = true ∨ o.fmr = true)
    (haddr6 : ∀ d : Delegated, ∃ x, deriveAddr6 legacy d r = .ok x) :
    Ends (ruleBehind legacy o r found) ↔ Ends (derivePortsets .strict (offsetOf legacy o) r) := by
  cases found with
  | none =>
    have hrun : ruleBehind legacy o r none = (derivePortsets .strict (offsetOf legacy o) r >>=
        fun sets => pure (some ⟨o, offsetOf legacy o, r, none, sets⟩)) := by
      rw [ruleBehind, hfmr.resolve_left Bool.false_ne_true]
      rfl
    rw [hrun]
    exact ends_bind_of_ends fun sets => ends_pure _
  | some fd =>
    obtain ⟨iface, d⟩ := fd
    obtain ⟨x, hx⟩ := haddr6 d
    rw [ruleBehind, bind_ok hx]
    exact ends_bind_of_ends fun sets => ends_pure _

theorem calcRule_found (ho : o.Possible) {found : Option (List U8 × Delegated)}
    (hfound : findPd o arg dump = .ok found) (hpd : Found o (found.map (·.2))) :
    Ends (calcRule .strict legacy arg dump o) ↔ SafeLengths legacy o (found.map (·.2)) := by
  have hderive := derive_ends ho hpd
  have hoffset := @offsetOf_range legacy o ho
  rw [calcRule, bind_ok hfound, ends_bind]
  have hports {r : Derived} (hr : derive .strict o (found.map (·.2)) = .ok r)
      (hshift : psidlenAt o (found.map (·.2)) ≤ 16) :
      Ends (if o.prefix4len < 0 ∨ o.prefix6len < 0 ∨ r.ealen < 0 ∨ r.ealen < r.psidlen then
          (pure none : Checked (Option Rule)) else ruleBehind legacy o r found) ↔
        (Printed o (found.map (·.2)) → 0 < psidlenAt o (found.map (·.2)) →
          (0 ≤ psidGiven o ∨ TakesPsid o (found.map (·.2))) →
          offsetOf legacy o + psidlenAt o (found.map (·.2)) ≤ 16) := by
    obtain ⟨⟨hea, hpsidlen⟩, hsign, hlens⟩ := derive_facts hr
    have hsets := derivePortsets_ends (r := r) hoffset (by rw [hpsidlen]; exact hshift)
    rw [hpsidlen, hsign] at hsets
    rw [hea, hpsidlen]
    by_cases hskip : o.prefix4len < 0 ∨ o.prefix6len < 0 ∨ ealenAt o (found.map (·.2)) < 0 ∨
        ealenAt o (found.map (·.2)) < psidlenAt o (found.map (·.2))
    · rw [if_pos hskip]
      refine iff_of_true (ends_pure _) ?_
      rintro ⟨h4, h6, hlow, hle, -⟩
      omega
    · have hkept : 0 ≤ o.prefix4len ∧ 0 ≤ o.prefix6len ∧ 0 ≤ ealenAt o (found.map (·.2)) ∧
          psidlenAt o (found.map (·.2)) ≤ ealenAt o (found.map (·.2)) := by omega
      rw [if_neg hskip]
      by_cases hfmr : (found.map (·.2)).isSome = true ∨ o.fmr = true
      · have hprinted : Printed o (found.map (·.2)) :=
          ⟨hkept.1, hkept.2.1, hkept.2.2.1, hkept.2.2.2, hfmr⟩
        rw [Option.isSome_map] at hfmr
        rw [ruleBehind_ends hfmr fun d => deriveAddr6_ok legacy d hlens, hsets]
        exact ⟨fun h _ => h, fun h => h hprinted⟩
      · have hnone : found = none := by
          rw [Option.isSome_map] at hfmr
          exact Option.not_isSome_iff_eq_none.mp fun h => hfmr (Or.inl h)
        have hoff : o.fmr = false := Bool.eq_false_iff.mpr fun h => hfmr (Or.inr h)
        subst hnone
        rw [ruleBehind, hoff]
        refine iff_of_true (ends_pure _) ?_
        rintro ⟨-, -, -, -, hprinted⟩
        exact absurd hprinted hfmr
  constructor
  · rintro ⟨r, hr, h⟩
    obtain ⟨hpsid, hshift, haddr⟩ := hderive.mp ⟨r, hr⟩
    exact ⟨hpsid, hshift, haddr, (hports hr hshift.2).mp h⟩
  · intro h
    obtain ⟨r, hr⟩ := hderive.mpr ⟨h.psid, h.shift, h.addr⟩
    exact ⟨r, hr, (hports hr h.shift.2).mpr h.ports⟩

theorem calcRule_ends_iff (ho : o.Possible) :
    Ends (calcRule .strict legacy arg dump o) ↔ SafeRule legacy o arg dump := by
  by_cases hlow : 0 ≤ o.prefix6len
  · have hpd : Found o ((matching o arg dump).map (·.2)) := by
      intro d hd
      obtain ⟨c, hc, rfl⟩ := Option.map_eq_some_iff.mp hd
      have hmatch := List.find?_some hc
      rw [matches6, Bool.and_eq_true, decide_eq_true_iff] at hmatch
      exact ⟨hlow, hmatch.1⟩
    rw [calcRule_found ho (findPd_eq hlow ho.prefix6len.2 dump) hpd]
    exact ⟨fun h => ⟨fun _ => hlow, h⟩, fun h => h.lengths⟩
  · by_cases hnone : candidates arg dump = []
    · have hmatching : matching o arg dump = none := by
        rw [matching, hnone]
        rfl
      have hpd : Found o ((none : Option (List U8 × Delegated)).map (·.2)) := by
        intro d hd
        cases hd
      rw [calcRule_found ho (findPd_none hnone) hpd]
      constructor
      · intro h
        refine ⟨fun hne => absurd hnone hne, ?_⟩
        rw [hmatching]
        exact h
      · intro h
        have hlengths := h.lengths
        rw [hmatching] at hlengths
        exact hlengths
    · rw [calcRule, findPd_outside ho (Int.lt_of_not_ge hlow) hnone]
      exact iff_of_false Ends.error fun h => absurd (h.prefix6 hnone) hlow

/-- The accesses and shifts for a rule are all in range. A rule that is read through a null pointer is not
calculated. -/
def RuleInBounds (libc : Libc) (legacy : Bool) (arg : List U8) (dump : List Iface) (rule : List U8) : Prop :=
  ∀ o, parseRule libc rule = some o → Ends (calcRule .strict legacy arg dump o)

theorem ruleInBounds_iff (libc : Libc) (legacy : Bool) (arg : List U8) (dump : List Iface)
    (rule : List U8) : RuleInBounds libc legacy arg dump rule ↔
      ∀ o, parseRule libc rule = some o → SafeRule legacy o arg dump := by
  constructor
  · intro h o ho
    exact (calcRule_ends_iff (parseRule_possible ho)).mp (h o ho)
  · intro h o ho
    exact (calcRule_ends_iff (parseRule_possible ho)).mpr (h o ho)

/-- A rule that says nothing, without a delegated prefix: no bits are copied from the one before the first
bit of the prefix. -/
theorem empty_rule_out : ¬ ∀ (libc : Libc) (legacy : Bool) (arg : List U8) (dump : List Iface)
    (rule : List U8), RuleInBounds libc legacy arg dump rule := by
  intro hclaim
  have hsafe := (calcRule_ends_iff possible_initial).mp
    (hclaim ⟨fun _ => none, fun _ => none, fun _ => none⟩ false [] [] [] Options.initial rfl)
  have haddr := hsafe.lengths.addr ⟨Or.inr (by decide), by decide⟩
  exact absurd haddr.1.1 (by decide)

end Rules

end OpenwrtMtk.Map
