import OpenwrtMtk.Nfc.RecordHeader

/-!
# Which handover messages are parsed inside their bytes

The parsers check no length against that of the message. A message is parsed inside its bytes if and
only if every record that the parser comes to has the bytes of its header, is not cut short where its
type is compared and has the bytes of its payload that are read.
-/

namespace OpenwrtMtk.Nfc.Access

open Toolkit Relation

set_option autoImplicit false

/-! ### Attributes -/

section Attributes

variable {data : List U8} {tokenLength : U16} {i j : Nat}

def wordAt (data : List U8) (i : Nat) : U16 := data.getD i 0 ++ data.getD (i + 1) 0

theorem swappedAt_ok (h : i + 2 ≤ data.length) : swappedAt data i = .ok (wordAt data i) := by
  have hbyte : ∀ k, k < 2 → (slice data i 2).getD k 0 = data.getD (i + k) 0 := by
    intro k hk
    rw [List.getD_eq_getElem?_getD, getElem?_slice, if_pos hk, List.getD_eq_getElem?_getD]
  rw [swappedAt, bind_ok (load_ok h), hbyte 0 (by decide), hbyte 1 (by decide)]
  rfl

theorem ends_swappedAt {β : Type} {f : U16 → Checked β} : Ends (swappedAt data i >>= f) ↔
    i + 2 ≤ data.length ∧ Ends (f (wordAt data i)) := by
  constructor
  · intro h
    obtain ⟨w, hw, hf⟩ := ends_bind.mp h
    obtain ⟨hin, _⟩ := ends_load.mp ⟨w, hw⟩
    rw [swappedAt_ok hin] at hw
    cases hw
    exact ⟨hin, hf⟩
  · rintro ⟨hin, hf⟩
    rw [bind_ok (swappedAt_ok hin)]
    exact hf

/-- The type of the attribute at `i` is in the data, and so is its length when that is read. -/
def AttributeFits (data : List U8) (tokenLength : U16) (i : Nat) : Prop :=
  i < tokenLength.toNat → i + 2 ≤ data.length ∧
    (dataTypeOf (wordAt data i) = none → (i + 2) % 2 ^ 16 + 2 ≤ data.length)

/-- The attribute at `i` is skipped, and the next one is at `j`. -/
def AttributeSkips (data : List U8) (tokenLength : U16) (i j : Nat) : Prop :=
  i < tokenLength.toNat ∧ dataTypeOf (wordAt data i) = none ∧
    j = nextIndex i (wordAt data ((i + 2) % 2 ^ 16))

def AttributesFit (data : List U8) (tokenLength : U16) : Prop :=
  Passes (AttributeFits data tokenLength) (AttributeSkips data tokenLength) 0

theorem attributeTurn_ends : Ends (attributeTurn data tokenLength i) ↔
    AttributeFits data tokenLength i := by
  unfold attributeTurn AttributeFits
  by_cases h : i < tokenLength.toNat
  · rw [if_pos h, ends_swappedAt]
    constructor
    · rintro ⟨hin, hrest⟩ _
      refine ⟨hin, fun hnone => ?_⟩
      rw [hnone] at hrest
      exact (ends_swappedAt.mp hrest).1
    · intro hfits
      obtain ⟨hin, hrest⟩ := hfits h
      refine ⟨hin, ?_⟩
      cases htype : dataTypeOf (wordAt data i) with
      | some dataType => exact ends_ok _
      | none => exact ends_swappedAt.mpr ⟨hrest htype, ends_ok _⟩
  · rw [if_neg h]
    exact ⟨fun _ hin => absurd hin h, fun _ => ends_ok _⟩

theorem attributeTurn_leads : Leads (attributeTurn data tokenLength) i j ↔
    AttributeFits data tokenLength i ∧ AttributeSkips data tokenLength i j := by
  constructor
  · rintro ⟨a, hturn⟩
    have hfits := attributeTurn_ends.mp ⟨_, hturn⟩
    refine ⟨hfits, ?_⟩
    unfold attributeTurn at hturn
    by_cases h : i < tokenLength.toNat
    · obtain ⟨hin, hrest⟩ := hfits h
      rw [if_pos h, bind_ok (swappedAt_ok hin)] at hturn
      cases htype : dataTypeOf (wordAt data i) with
      | some dataType =>
        rw [htype] at hturn
        cases hturn
      | none =>
        rw [htype] at hturn
        dsimp only at hturn
        rw [bind_ok (swappedAt_ok (hrest htype))] at hturn
        cases hturn
        exact ⟨h, htype, rfl⟩
    · rw [if_neg h] at hturn
      cases hturn
  · rintro ⟨hfits, h, htype, rfl⟩
    obtain ⟨hin, hrest⟩ := hfits h
    refine ⟨(), ?_⟩
    unfold attributeTurn
    rw [if_pos h, bind_ok (swappedAt_ok hin), htype]
    dsimp only
    rw [bind_ok (swappedAt_ok (hrest htype))]

theorem radioPayloadParse_ends {radioType : U8} :
    Ends (radioPayloadParse radioType data tokenLength) ↔
      (radioType = RadioType.wifiWps.code → AttributesFit data tokenLength) := by
  unfold radioPayloadParse
  by_cases h : radioType = RadioType.wifiWps.code
  · have hbound : ∀ i j, AttributeSkips data tokenLength i j → i < 2 ^ 16 :=
      fun i j hskip => Nat.lt_trans hskip.1 tokenLength.isLt
    rw [if_pos h]
    refine (ends_bind_of_ends fun r => ends_ok _).trans ?_
    rw [ends_walk (fun _ => attributeTurn_ends) (fun _ _ => attributeTurn_leads) hbound
        (Nat.lt_succ_self _)]
    exact ⟨fun hpass _ => hpass, fun hpass => hpass h⟩
  · rw [if_neg h]
    exact ⟨fun _ hcode => absurd hcode h, fun _ => ends_ok _⟩

theorem attributesFit_zero (data : List U8) : AttributesFit data 0 := by
  have hnot : ∀ i, ¬i < (0 : U16).toNat := fun i => Nat.not_lt_zero i
  constructor
  · intro i _ hin
    exact absurd hin (hnot i)
  · intro i _ hcycle
    obtain ⟨j, hskip, _⟩ := TransGen.head'_iff.mp hcycle
    exact absurd hskip.1 (hnot i)

end Attributes

/-! ### Comparisons -/

section Compare

variable {xs name : List U8} {n : Nat}

theorem memcmpEq_true {ys : List U8} (h : memcmpEq xs ys n = some true) :
    xs.take n = ys.take n := by
  induction n generalizing xs ys with
  | zero => rfl
  | succ n ih =>
    cases xs with
    | nil =>
      unfold memcmpEq at h
      cases h
    | cons x xs =>
      cases ys with
      | nil => cases h
      | cons y ys =>
        rw [memcmpEq] at h
        by_cases heq : x = y
        · rw [if_pos heq] at h
          rw [List.take_succ_cons, List.take_succ_cons, heq, ih h]
        · rw [if_neg heq] at h
          cases h

theorem begins_of_memcmpEq (h : memcmpEq xs name name.length = some true) : name <+: xs := by
  have htake := memcmpEq_true h
  rw [List.take_length] at htake
  rw [← htake]
  exact List.take_prefix _ _

theorem memcmpEq_of_begins (h : name <+: xs) : memcmpEq xs name name.length = some true := by
  induction name generalizing xs with
  | nil =>
    unfold memcmpEq
    rfl
  | cons y name ih =>
    cases xs with
    | nil => exact absurd (List.prefix_nil.mp h) (List.cons_ne_nil y name)
    | cons x xs =>
      obtain ⟨rfl, hrest⟩ := List.cons_prefix_cons.mp h
      rw [List.length_cons, memcmpEq, if_pos rfl]
      exact ih hrest

theorem memcmpEq_name_eq_none :
    memcmpEq xs name name.length = none ↔ CutShort xs name name.length := by
  rw [memcmpEq_eq_none]
  constructor
  · rintro (h | h)
    · exact h
    · exact absurd h.2 (Nat.lt_irrefl _)
  · exact Or.inl

theorem mime_of_begins (r r' : RadioType) (h : r.mime <+: r'.mime) : r.mime = r'.mime := by
  have hall : (r.mime.isPrefixOf r'.mime = true) → r.mime = r'.mime := by
    cases r <;> cases r' <;> decide
  exact hall (List.isPrefixOf_iff_prefix.mpr h)

theorem not_cutShort_of_begins {r r' : RadioType} (h : r.mime <+: xs) :
    ¬CutShort xs r'.mime r'.mime.length := by
  rintro ⟨hpre, hlt⟩
  have heq := mime_of_begins r r' (h.trans hpre)
  have hle := h.length_le
  rw [heq] at hle
  omega

theorem findRadio_eq_none (rs : List RadioType) :
    findRadio xs rs = none ↔ ∃ r ∈ rs, CutShort xs r.mime r.mime.length := by
  induction rs with
  | nil =>
    constructor
    · intro h
      cases h
    · rintro ⟨r, hr, _⟩
      cases hr
  | cons r rs ih =>
    rw [findRadio]
    cases hcmp : memcmpEq xs r.mime r.mime.length with
    | none =>
      have hcut := memcmpEq_name_eq_none.mp hcmp
      exact ⟨fun _ => ⟨r, List.mem_cons_self, hcut⟩, fun _ => rfl⟩
    | some same =>
      have hfirst : ¬CutShort xs r.mime r.mime.length := by
        intro hcut
        rw [memcmpEq_name_eq_none.mpr hcut] at hcmp
        cases hcmp
      cases same with
      | true =>
        have hbegins := begins_of_memcmpEq hcmp
        constructor
        · intro h
          cases h
        · rintro ⟨r', _, hcut⟩
          exact absurd hcut (not_cutShort_of_begins hbegins)
      | false =>
        refine Iff.trans ih ?_
        constructor
        · rintro ⟨r', hr', hcut⟩
          exact ⟨r', List.mem_cons_of_mem r hr', hcut⟩
        · rintro ⟨r', hr', hcut⟩
          rcases List.mem_cons.mp hr' with rfl | hr'
          · exact absurd hcut hfirst
          · exact ⟨r', hr', hcut⟩

theorem mem_radios (r : RadioType) : r ∈ radios := by
  cases r <;> decide

theorem findRadio_radios_ne_none :
    findRadio xs radios ≠ none ↔ ∀ r : RadioType, ¬CutShort xs r.mime r.mime.length := by
  rw [ne_eq, findRadio_eq_none]
  constructor
  · intro h r hcut
    exact h ⟨r, mem_radios r, hcut⟩
  · rintro h ⟨r, _, hcut⟩
    exact h r hcut

theorem findRadio_code {rs : List RadioType} {code : U8} (h : findRadio xs rs = some code) :
    code = 0xff ∨ ∃ r ∈ rs, code = r.code := by
  induction rs with
  | nil =>
    cases h
    exact .inl rfl
  | cons r rs ih =>
    rw [findRadio] at h
    cases hcmp : memcmpEq xs r.mime r.mime.length with
    | none =>
      rw [hcmp] at h
      cases h
    | some same =>
      rw [hcmp] at h
      cases same with
      | true =>
        cases h
        exact .inr ⟨r, List.mem_cons_self, rfl⟩
      | false =>
        rcases ih h with hcode | ⟨r', hr', hcode⟩
        · exact .inl hcode
        · exact .inr ⟨r', List.mem_cons_of_mem r hr', hcode⟩

theorem findRadio_wifiWps {code : U8} (h : findRadio xs radios = some code) :
    code = RadioType.wifiWps.code ↔ mimeWsc <+: xs := by
  rw [radios, findRadio] at h
  cases hcmp : memcmpEq xs RadioType.wifiWps.mime RadioType.wifiWps.mime.length with
  | none =>
    rw [hcmp] at h
    cases h
  | some same =>
    rw [hcmp] at h
    cases same with
    | true =>
      cases h
      exact ⟨fun _ => begins_of_memcmpEq hcmp, fun _ => rfl⟩
    | false =>
      constructor
      · intro hcode
        rcases findRadio_code h with rfl | ⟨r, hr, rfl⟩
        · exact absurd hcode (by decide)
        · have hnot : ∀ r ∈ [RadioType.bt, .wifiDirect, .wifiFc],
              r.code ≠ RadioType.wifiWps.code := by decide
          exact absurd hcode (hnot r hr)
      · intro hbegins
        have hsame : memcmpEq xs RadioType.wifiWps.mime RadioType.wifiWps.mime.length = some true :=
          memcmpEq_of_begins hbegins
        rw [hsame] at hcmp
        cases hcmp

end Compare

/-! ### Carriers -/

section Carriers

variable {message : List U8} {checkLength : U32} {o o' : Outputs} {idx num : Nat}

/-- The bytes from `off` on that a copy takes. -/
def Within (message : List U8) (off n : Nat) : Prop := off + n ≤ message.length

/-- The record of the carriers is in the message, and so are the attributes of a Wi-Fi token. -/
structure CarrierFits (message : List U8) (checkLength : U32) : Prop where
  header : HeaderFits message checkLength.toInt
  named : ∀ r : RadioType, ¬CutShort
    (message.drop (recordAt message checkLength.toInt.toNat).type) r.mime r.mime.length
  payload : (recordAt message checkLength.toInt.toNat).payloadLength ≠ 0 →
    Within message (recordAt message checkLength.toInt.toNat).payloadData
      (recordAt message checkLength.toInt.toNat).payloadLength.toNat
  attributes : mimeWsc <+: message.drop (recordAt message checkLength.toInt.toNat).type →
    AttributesFit
      (slice message (recordAt message checkLength.toInt.toNat).payloadData
        (recordAt message checkLength.toInt.toNat).payloadLength.toNat)
      ((recordAt message checkLength.toInt.toNat).payloadLength.setWidth 16)

def Untouched (ndef : RecordAt) (o : Outputs) : Prop :=
  ndef.payloadLength = 0 → ∀ idx, o.outLength.getD idx 0 = 0

theorem payloadOf_zero {ndef : RecordAt} (h : ndef.payloadLength = 0) (ho : Untouched ndef o) :
    payloadOf message ndef idx o = .ok (o.outData.getD idx [], ndef.payloadLength.setWidth 16) := by
  unfold payloadOf
  rw [if_neg (not_not_intro h), ho h idx, h]
  rfl

theorem payloadOf_ok {ndef : RecordAt} (h : ndef.payloadLength ≠ 0)
    (hin : Within message ndef.payloadData ndef.payloadLength.toNat) :
    payloadOf message ndef idx o =
      .ok (slice message ndef.payloadData ndef.payloadLength.toNat,
        ndef.payloadLength.setWidth 16) := by
  unfold payloadOf
  rw [if_pos h, bind_ok (load_ok hin)]

theorem within_of_payloadOf {ndef : RecordAt} (h : Ends (payloadOf message ndef idx o)) :
    ndef.payloadLength ≠ 0 → Within message ndef.payloadData ndef.payloadLength.toNat := by
  intro hpayload
  unfold payloadOf at h
  rw [if_pos hpayload] at h
  exact (ends_load.mp h).1

theorem attributes_of_payloadOf {ndef : RecordAt} {r : List U8 × U16} (ho : Untouched ndef o)
    (h : payloadOf message ndef idx o = .ok r) :
    AttributesFit r.1 r.2 ↔ AttributesFit
      (slice message ndef.payloadData ndef.payloadLength.toNat)
      (ndef.payloadLength.setWidth 16) := by
  by_cases hpayload : ndef.payloadLength = 0
  · rw [payloadOf_zero hpayload ho] at h
    cases h
    rw [hpayload]
    exact ⟨fun _ => attributesFit_zero _, fun _ => attributesFit_zero _⟩
  · rw [payloadOf_ok hpayload (within_of_payloadOf ⟨r, h⟩ hpayload)] at h
    cases h
    exact Iff.rfl

theorem carrierStep_ends (ho : Untouched (recordAt message checkLength.toInt.toNat) o) :
    Ends (carrierStep message checkLength o idx) ↔ CarrierFits message checkLength := by
  unfold carrierStep
  rw [ends_parse, ends_orOutside]
  constructor
  · rintro ⟨hheader, found, hfound, hrest⟩
    obtain ⟨r, hr, hrest⟩ := ends_bind.mp hrest
    obtain ⟨dataType, hdata, _⟩ := ends_bind.mp hrest
    refine ⟨hheader, ?_, within_of_payloadOf ⟨r, hr⟩, ?_⟩
    · apply findRadio_radios_ne_none.mp
      rw [hfound]
      nofun
    · intro hbegins
      rw [← attributes_of_payloadOf ho hr]
      exact radioPayloadParse_ends.mp ⟨dataType, hdata⟩ ((findRadio_wifiWps hfound).mpr hbegins)
  · intro h
    obtain ⟨found, hfound⟩ := Option.ne_none_iff_exists'.mp (findRadio_radios_ne_none.mpr h.named)
    have hpayload : ∃ r, payloadOf message (recordAt message checkLength.toInt.toNat) idx o =
        .ok r := by
      by_cases hzero : (recordAt message checkLength.toInt.toNat).payloadLength = 0
      · exact ⟨_, payloadOf_zero hzero ho⟩
      · exact ⟨_, payloadOf_ok hzero (h.payload hzero)⟩
    obtain ⟨r, hr⟩ := hpayload
    have hdata : Ends (radioPayloadParse found r.1 r.2) := by
      rw [radioPayloadParse_ends]
      intro hcode
      rw [attributes_of_payloadOf ho hr]
      exact h.attributes ((findRadio_wifiWps hfound).mp hcode)
    obtain ⟨dataType, hdata⟩ := hdata
    refine ⟨h.header, found, hfound, ?_⟩
    rw [bind_ok hr]
    dsimp only
    rw [bind_ok hdata]
    exact ends_ok _

theorem carrierStep_untouched {ndef : RecordAt}
    (hndef : recordAt message checkLength.toInt.toNat = ndef) (ho : Untouched ndef o)
    (h : carrierStep message checkLength o idx = .ok o') : Untouched ndef o' := by
  unfold carrierStep at h
  have hends : Ends (parse message checkLength.toInt >>= _) := ⟨o', h⟩
  rw [parse_ok (ends_parse.mp hends).1, hndef] at h
  obtain ⟨_, hrecord, h⟩ := bind_eq_ok.mp h
  cases hrecord
  obtain ⟨found, _, h⟩ := bind_eq_ok.mp h
  intro hzero i
  rw [payloadOf_zero hzero ho, hzero] at h
  obtain ⟨_, hpayload, h⟩ := bind_eq_ok.mp h
  cases hpayload
  obtain ⟨dataType, _, h⟩ := bind_eq_ok.mp h
  cases h
  have hold := ho hzero i
  rw [List.getD_eq_getElem?_getD] at hold
  rw [List.getD_eq_getElem?_getD, List.getElem?_set]
  by_cases hi : idx = i
  · rw [if_pos hi]
    split
    · rfl
    · rfl
  · rw [if_neg hi]
    exact hold

/-- Every turn parses the same record, so that the first of them decides. -/
theorem parseCarriers_ends (num : Nat)
    (ho : Untouched (recordAt message checkLength.toInt.toNat) o) :
    Ends (parseCarriers message checkLength num o) ↔
      (num ≠ 0 → CarrierFits message checkLength) := by
  unfold parseCarriers
  by_cases hnum : num = 0
  · rw [if_pos hnum]
    exact ⟨fun _ h => absurd hnum h, fun _ => ends_ok _⟩
  · rw [if_neg hnum]
    refine (ends_bind_of_ends fun o => ends_ok _).trans ?_
    have hrange : List.range num ≠ [] := fun h => hnum (List.range_eq_nil.mp h)
    have hsteps := ends_foldlM (g := carrierStep message checkLength)
      (Untouched (recordAt message checkLength.toInt.toNat)) (fun o idx ho => carrierStep_ends ho)
      (fun o idx o' ho => carrierStep_untouched rfl ho) (List.range num)
      (b := { o with num := BitVec.ofNat 8 num }) ho
    rw [hsteps]
    exact ⟨fun h _ => h hrange, fun h _ => h hnum⟩

def CopiesFit (message : List U8) (ndef : RecordAt) (o : Outputs) : Prop :=
  ∀ copied ∈ o.outData, copied = [] ∨ ndef.type + copied.length ≤ message.length

theorem carrierStep_copies
    (ho : CopiesFit message (recordAt message checkLength.toInt.toNat) o)
    (h : carrierStep message checkLength o idx = .ok o') :
    CopiesFit message (recordAt message checkLength.toInt.toNat) o' := by
  unfold carrierStep at h
  have hends : Ends (parse message checkLength.toInt >>= _) := ⟨o', h⟩
  rw [parse_ok (ends_parse.mp hends).1] at h
  obtain ⟨_, hrecord, h⟩ := bind_eq_ok.mp h
  cases hrecord
  obtain ⟨found, _, h⟩ := bind_eq_ok.mp h
  obtain ⟨r, hr, h⟩ := bind_eq_ok.mp h
  obtain ⟨dataType, _, h⟩ := bind_eq_ok.mp h
  cases h
  have hr1 : r.1 = [] ∨
      (recordAt message checkLength.toInt.toNat).type + r.1.length ≤ message.length := by
    by_cases hzero : (recordAt message checkLength.toInt.toNat).payloadLength = 0
    · unfold payloadOf at hr
      rw [if_neg (not_not_intro hzero)] at hr
      cases hr
      by_cases hidx : idx < o.outData.length
      · have hmem : o.outData.getD idx [] ∈ o.outData := by
          rw [List.getD_eq_getElem?_getD, List.getElem?_eq_getElem hidx]
          exact List.getElem_mem hidx
        exact ho _ hmem
      · left
        rw [List.getD_eq_getElem?_getD, List.getElem?_eq_none (Nat.le_of_not_lt hidx)]
        rfl
    · have hin := within_of_payloadOf ⟨r, hr⟩ hzero
      rw [payloadOf_ok hzero hin] at hr
      cases hr
      right
      have htype : (recordAt message checkLength.toInt.toNat).type ≤
          (recordAt message checkLength.toInt.toNat).payloadData := by
        unfold recordAt recordOf
        dsimp only
        omega
      have hlength : (slice message (recordAt message checkLength.toInt.toNat).payloadData
          (recordAt message checkLength.toInt.toNat).payloadLength.toNat).length ≤
            (recordAt message checkLength.toInt.toNat).payloadLength.toNat := by
        rw [slice]
        exact List.length_take_le _ _
      have hin' := hin
      unfold Within at hin'
      dsimp only
      omega
  intro copied hmem
  rcases List.mem_or_eq_of_mem_set hmem with hmem | rfl
  · exact ho copied hmem
  · exact hr1

theorem parseCarriers_copies {r : Int × Outputs}
    (ho : CopiesFit message (recordAt message checkLength.toInt.toNat) o)
    (h : parseCarriers message checkLength num o = .ok r) :
    CopiesFit message (recordAt message checkLength.toInt.toNat) r.2 := by
  unfold parseCarriers at h
  by_cases hnum : num = 0
  · rw [if_pos hnum] at h
    cases h
    exact ho
  · rw [if_neg hnum] at h
    obtain ⟨o', hfold, h⟩ := bind_eq_ok.mp h
    cases h
    exact foldlM_keeps (CopiesFit message (recordAt message checkLength.toInt.toNat))
      (fun o idx o' ho => carrierStep_copies ho) (b := { o with num := BitVec.ofNat 8 num }) ho hfold

/-! ### References -/

/-- The references in the payload from `acIdx` on. -/
def RefsFit (message : List U8) (Reads : RecordAt → Prop) (isAc : RecordAt → Option Bool)
    (payload : Nat) (acLength : U32) : Nat → U32 → Prop
  | 0, _ => True
  | turns + 1, acIdx => acIdx.slt acLength = true →
    HeaderFits message (payload + acIdx.toInt) ∧
    Reads (recordAt message (payload + acIdx.toInt).toNat) ∧
    (isAc (recordAt message (payload + acIdx.toInt).toNat) = some true →
      Within message (recordAt message (payload + acIdx.toInt).toNat).payloadData 3) ∧
    RefsFit message Reads isAc payload acLength turns
      (nextAc acIdx (recordAt message (payload + acIdx.toInt).toNat))

variable {Reads : RecordAt → Prop} {isAc : RecordAt → Option Bool} {ac : RecordAt}
  {payload turns : Nat} {acLength acIdx : U32}

theorem storeAc_ends (idx : Nat) (o : Outputs) (hreads : ∀ r, isAc r ≠ none ↔ Reads r) :
    Ends (storeAc message isAc ac idx o) ↔
      Reads ac ∧ (isAc ac = some true → Within message ac.payloadData 3) := by
  unfold storeAc Within
  rw [ends_orOutside_if (ends_ok _), hreads, ends_loadByte]
  refine and_congr Iff.rfl (imp_congr Iff.rfl ?_)
  rw [ends_loadByte]
  constructor
  · rintro ⟨_, hlast, _⟩
    omega
  · intro h
    exact ⟨by omega, by omega, ends_ok _⟩

theorem storeAc_copied (h : storeAc message isAc ac idx o = .ok o') :
    o'.outData = o.outData ∧ o'.outLength = o.outLength := by
  unfold storeAc at h
  obtain ⟨same, _, h⟩ := bind_eq_ok.mp h
  cases same with
  | false =>
    cases h
    exact ⟨rfl, rfl⟩
  | true =>
    obtain ⟨radio, _, h⟩ := bind_eq_ok.mp h
    obtain ⟨carrierId, _, h⟩ := bind_eq_ok.mp h
    cases h
    exact ⟨rfl, rfl⟩

theorem acLoop_ends (idx : Nat) (o : Outputs) (hreads : ∀ r, isAc r ≠ none ↔ Reads r) :
    Ends (acLoop message isAc payload acLength turns acIdx idx o) ↔
      RefsFit message Reads isAc payload acLength turns acIdx := by
  induction turns generalizing acIdx idx o with
  | zero => exact ⟨fun _ => trivial, fun _ => ends_ok _⟩
  | succ turns ih =>
    unfold acLoop RefsFit
    by_cases h : acIdx.slt acLength = true
    · rw [if_pos h, ends_parse, ends_bind]
      constructor
      · rintro ⟨hheader, o', hstore, hrest⟩ _
        have hac := (storeAc_ends idx o hreads).mp ⟨o', hstore⟩
        exact ⟨hheader, hac.1, hac.2, (ih _ _).mp hrest⟩
      · intro hfits
        obtain ⟨hheader, hread, hac, hrest⟩ := hfits h
        obtain ⟨o', hstore⟩ := (storeAc_ends idx o hreads).mpr ⟨hread, hac⟩
        exact ⟨hheader, o', hstore, (ih _ _).mpr hrest⟩
    · rw [if_neg h]
      exact ⟨fun _ hslt => absurd hslt h, fun _ => ends_ok _⟩

theorem acLoop_counts {r : Nat × Outputs}
    (h : acLoop message isAc payload acLength turns acIdx idx o = .ok r) :
    idx ≤ r.1 ∧ r.2.outData = o.outData ∧ r.2.outLength = o.outLength := by
  induction turns generalizing acIdx idx o with
  | zero =>
    cases h
    exact ⟨Nat.le_refl _, rfl, rfl⟩
  | succ turns ih =>
    unfold acLoop at h
    by_cases hslt : acIdx.slt acLength = true
    · rw [if_pos hslt] at h
      obtain ⟨ac, _, h⟩ := bind_eq_ok.mp h
      obtain ⟨o', hstore, h⟩ := bind_eq_ok.mp h
      obtain ⟨hcount, hdata, hlength⟩ := ih h
      obtain ⟨hdata', hlength'⟩ := storeAc_copied hstore
      exact ⟨by omega, hdata.trans hdata', hlength.trans hlength'⟩
    · rw [if_neg hslt] at h
      cases h
      exact ⟨Nat.le_refl _, rfl, rfl⟩

theorem acLoop_num {r : Nat × Outputs}
    (h : acLoop message isAc payload acLength (turns + 1) acIdx 0 o = .ok r) :
    r.1 ≠ 0 ↔ acIdx.slt acLength = true := by
  unfold acLoop at h
  by_cases hslt : acIdx.slt acLength = true
  · rw [if_pos hslt] at h
    obtain ⟨ac, _, h⟩ := bind_eq_ok.mp h
    obtain ⟨o', _, h⟩ := bind_eq_ok.mp h
    have hcount := (acLoop_counts h).1
    exact ⟨fun _ => hslt, fun _ => by omega⟩
  · rw [if_neg hslt] at h
    cases h
    exact ⟨fun hne => absurd rfl hne, fun h => absurd h hslt⟩

def PartsFit (message : List U8) (Reads : RecordAt → Prop) (isAc : RecordAt → Option Bool)
    (ndef : RecordAt) (acIdx : U32) : Prop :=
  RefsFit message Reads isAc ndef.payloadData ndef.payloadLength radioEnd acIdx ∧
    (acIdx.slt ndef.payloadLength = true → CarrierFits message (Access.checkLength ndef))

theorem parts_ends (message : List U8) (ndef : RecordAt) (acIdx : U32) {o : Outputs}
    (hreads : ∀ r, isAc r ≠ none ↔ Reads r) (ho : ∀ idx, o.outLength.getD idx 0 = 0) :
    Ends (acLoop message isAc ndef.payloadData ndef.payloadLength radioEnd acIdx 0 o >>= fun r =>
        parseCarriers message (Access.checkLength ndef) r.1 r.2) ↔
      PartsFit message Reads isAc ndef acIdx := by
  unfold PartsFit
  rw [← acLoop_ends 0 o hreads, ends_bind]
  constructor
  · rintro ⟨r, hr, hcarriers⟩
    refine ⟨⟨r, hr⟩, fun hslt => ?_⟩
    rw [parseCarriers_ends r.1 fun _ => (acLoop_counts hr).2.2 ▸ ho] at hcarriers
    exact hcarriers ((acLoop_num hr).mpr hslt)
  · rintro ⟨⟨r, hr⟩, hcarriers⟩
    refine ⟨r, hr, ?_⟩
    rw [parseCarriers_ends r.1 fun _ => (acLoop_counts hr).2.2 ▸ ho]
    exact fun hnum => hcarriers ((acLoop_num hr).mp hnum)

end Carriers

/-! ### Select and request messages -/

section Messages

variable {message name : List U8}

def SelectReads (message name : List U8) (r : RecordAt) : Prop :=
  ¬CutShort (message.drop r.type) name r.typeLength.toNat

/-- A request message compares the bytes of the type length, which may be more than the name has. -/
def RequestReads (message name : List U8) (r : RecordAt) : Prop :=
  ¬CutShort (message.drop r.type) name r.typeLength.toNat ∧
    ¬CutShort name (message.drop r.type) r.typeLength.toNat

theorem selectIs_reads (hzero : 0 ∉ name) (r : RecordAt) :
    selectIs message name r ≠ none ↔ SelectReads message name r :=
  not_congr (strncmpEq_eq_none hzero _ _)

theorem requestIs_reads (r : RecordAt) :
    requestIs message name r ≠ none ↔ RequestReads message name r := by
  unfold requestIs RequestReads
  rw [ne_eq, memcmpEq_eq_none, not_or]

def Announced (message : List U8) (is : Option Bool) : Prop :=
  is = some true ∧ message.getD (recordAt message 0).payloadData 0 = hoVersion

structure SelectFits (message : List U8) : Prop where
  header : HeaderFits message 0
  named : SelectReads message typeHs (recordAt message 0)
  version : selectIs message typeHs (recordAt message 0) = some true →
    (recordAt message 0).payloadData < message.length
  parts : Announced message (selectIs message typeHs (recordAt message 0)) →
    PartsFit message (SelectReads message typeAc) (selectIs message typeAc) (recordAt message 0) 1

def crAt (message : List U8) : RecordAt :=
  recordAt message ((recordAt message 0).payloadData + 1)

structure RequestFits (message : List U8) : Prop where
  header : HeaderFits message 0
  named : RequestReads message typeHr (recordAt message 0)
  version : requestIs message typeHr (recordAt message 0) = some true →
    (recordAt message 0).payloadData < message.length
  resolution : Announced message (requestIs message typeHr (recordAt message 0)) →
    (1 : U32).slt (recordAt message 0).payloadLength = true →
      HeaderFits message ((recordAt message 0).payloadData + 1) ∧
        RequestReads message typeCr (crAt message)
  parts : Announced message (requestIs message typeHr (recordAt message 0)) →
    (1 : U32).slt (recordAt message 0).payloadLength = true →
      requestIs message typeCr (crAt message) = some true →
        Within message (crAt message).payloadData 2 ∧
          PartsFit message (RequestReads message typeAc) (requestIs message typeAc)
            (recordAt message 0) (nextAc 1 (crAt message))

theorem clearOutputs_outLength (idx : Nat) : clearOutputs.outLength.getD idx 0 = 0 := by
  rw [List.getD_eq_getElem?_getD]
  change (List.replicate radioEnd (0 : U16))[idx]?.getD 0 = 0
  rw [List.getElem?_replicate]
  split
  · rfl
  · rfl

theorem selectParse_ends (hlength : 0 < message.length) :
    Ends (selectParse message) ↔ SelectFits message := by
  unfold selectParse
  rw [if_neg (by omega), ends_parse, ends_orOutside_if (ends_ok _),
    selectIs_reads (by decide : 0 ∉ typeHs), ends_loadByte]
  change HeaderFits message 0 ∧ SelectReads message typeHs (recordAt message 0) ∧
    (selectIs message typeHs (recordAt message 0) = some true →
      (recordAt message 0).payloadData < message.length ∧
        Ends (if message.getD (recordAt message 0).payloadData 0 = hoVersion then _ else _)) ↔ _
  have hreads : ∀ r, selectIs message typeAc r ≠ none ↔ SelectReads message typeAc r :=
    selectIs_reads (by decide)
  have hparts := parts_ends message (recordAt message 0) 1 hreads clearOutputs_outLength
  constructor
  · rintro ⟨hheader, hnamed, hrest⟩
    refine ⟨hheader, hnamed, fun his => (hrest his).1, ?_⟩
    rintro ⟨his, hversion⟩
    have hends := (hrest his).2
    rw [if_pos hversion] at hends
    exact hparts.mp hends
  · intro h
    refine ⟨h.header, h.named, fun his => ⟨h.version his, ?_⟩⟩
    by_cases hversion : message.getD (recordAt message 0).payloadData 0 = hoVersion
    · rw [if_pos hversion]
      exact hparts.mpr (h.parts ⟨his, hversion⟩)
    · rw [if_neg hversion]
      exact ends_ok _

section Resolution

variable {payload : Nat} {acLength : U32}

theorem crStep_ends : Ends (crStep message payload acLength) ↔
    ((1 : U32).slt acLength = true → HeaderFits message (payload + 1) ∧
      RequestReads message typeCr (recordAt message (payload + 1)) ∧
      (requestIs message typeCr (recordAt message (payload + 1)) = some true →
        Within message (recordAt message (payload + 1)).payloadData 2)) := by
  unfold crStep
  by_cases h : (1 : U32).slt acLength = true
  · rw [if_pos h, ends_parse, ends_orOutside_if (ends_ok _), requestIs_reads, ends_load]
    constructor
    · rintro ⟨hheader, hreads, hrest⟩ _
      exact ⟨hheader, hreads, fun his => (hrest his).1⟩
    · intro hfits
      obtain ⟨hheader, hreads, hrest⟩ := hfits h
      exact ⟨hheader, hreads, fun his => ⟨hrest his, ends_ok _⟩⟩
  · rw [if_neg h]
    exact ⟨fun _ hslt => absurd hslt h, fun _ => ends_ok _⟩

theorem crStep_result {r : Option (U32 × U16)} (h : crStep message payload acLength = .ok r) :
    (r = none ∧ ¬((1 : U32).slt acLength = true ∧
      requestIs message typeCr (recordAt message (payload + 1)) = some true)) ∨
    ∃ random, r = some (nextAc 1 (recordAt message (payload + 1)), random) ∧
      (1 : U32).slt acLength = true ∧
      requestIs message typeCr (recordAt message (payload + 1)) = some true := by
  have hfits := crStep_ends.mp ⟨r, h⟩
  unfold crStep at h
  by_cases hslt : (1 : U32).slt acLength = true
  · rw [if_pos hslt, parse_ok (hfits hslt).1] at h
    obtain ⟨_, hrecord, h⟩ := bind_eq_ok.mp h
    cases hrecord
    obtain ⟨same, hsame, h⟩ := bind_eq_ok.mp h
    have his : requestIs message typeCr (recordAt message (payload + 1)) = some same :=
      orOutside_eq_ok.mp hsame
    cases same with
    | true =>
      obtain ⟨bytes, _, h⟩ := bind_eq_ok.mp h
      cases h
      exact .inr ⟨_, rfl, hslt, his⟩
    | false =>
      cases h
      refine .inl ⟨rfl, fun hboth => ?_⟩
      rw [his] at hboth
      cases hboth.2
  · rw [if_neg hslt] at h
    cases h
    exact .inl ⟨rfl, fun hboth => hslt hboth.1⟩

end Resolution

theorem requestParse_ends (hlength : 0 < message.length) :
    Ends (requestParse message) ↔ RequestFits message := by
  unfold requestParse
  rw [if_neg (by omega), ends_parse, ends_orOutside_if (ends_ok _), requestIs_reads, ends_loadByte]
  change HeaderFits message 0 ∧ RequestReads message typeHr (recordAt message 0) ∧
    (requestIs message typeHr (recordAt message 0) = some true →
      (recordAt message 0).payloadData < message.length ∧
        Ends (if message.getD (recordAt message 0).payloadData 0 = hoVersion then
          crStep message (recordAt message 0).payloadData (recordAt message 0).payloadLength >>= _
        else _)) ↔ _
  have hreads : ∀ r, requestIs message typeAc r ≠ none ↔ RequestReads message typeAc r :=
    requestIs_reads
  have hparts := fun receivedRandom : U16 =>
    parts_ends message (recordAt message 0) (nextAc 1 (crAt message))
      (o := { clearOutputs with receivedRandom }) hreads clearOutputs_outLength
  constructor
  · rintro ⟨hheader, hnamed, hrest⟩
    refine ⟨hheader, hnamed, fun his => (hrest his).1, ?_, ?_⟩
    · rintro ⟨his, hversion⟩ hslt
      have hends := (hrest his).2
      rw [if_pos hversion] at hends
      obtain ⟨r, hr, _⟩ := ends_bind.mp hends
      have hcr := crStep_ends.mp ⟨r, hr⟩ hslt
      exact ⟨hcr.1, hcr.2.1⟩
    · rintro ⟨his, hversion⟩ hslt hcr
      have hends := (hrest his).2
      rw [if_pos hversion] at hends
      obtain ⟨r, hr, hends⟩ := ends_bind.mp hends
      refine ⟨(crStep_ends.mp ⟨r, hr⟩ hslt).2.2 hcr, ?_⟩
      rcases crStep_result hr with ⟨_, hnot⟩ | ⟨random, rfl, _⟩
      · exact absurd ⟨hslt, hcr⟩ hnot
      · exact (hparts random).mp hends
  · intro h
    refine ⟨h.header, h.named, fun his => ⟨h.version his, ?_⟩⟩
    by_cases hversion : message.getD (recordAt message 0).payloadData 0 = hoVersion
    · rw [if_pos hversion]
      have hannounced : Announced message (requestIs message typeHr (recordAt message 0)) :=
        ⟨his, hversion⟩
      have hcr : Ends (crStep message (recordAt message 0).payloadData
          (recordAt message 0).payloadLength) := by
        rw [crStep_ends]
        intro hslt
        obtain ⟨hheader, hnamed⟩ := h.resolution hannounced hslt
        exact ⟨hheader, hnamed, fun hcr => (h.parts hannounced hslt hcr).1⟩
      obtain ⟨r, hr⟩ := hcr
      rw [bind_ok hr]
      rcases crStep_result hr with ⟨rfl, _⟩ | ⟨random, rfl, hslt, hcr⟩
      · exact ends_ok _
      · exact (hparts random).mpr (h.parts hannounced hslt hcr).2
    · rw [if_neg hversion]
      exact ends_ok _

/-! ### What is copied -/

section Copies

def carriersAt (message : List U8) : RecordAt :=
  recordAt message (checkLength (recordAt message 0)).toInt.toNat

theorem copiesFit_clear {ndef : RecordAt} {o : Outputs} (h : o.outData = clearOutputs.outData) :
    CopiesFit message ndef o := by
  intro copied hmem
  rw [h] at hmem
  exact .inl (List.eq_of_mem_replicate hmem)

theorem parts_copies {isAc : RecordAt → Option Bool} {acIdx : U32} {o : Outputs}
    {r : Int × Outputs} (ho : o.outData = clearOutputs.outData)
    (h : (acLoop message isAc (recordAt message 0).payloadData (recordAt message 0).payloadLength
      radioEnd acIdx 0 o >>= fun r =>
        parseCarriers message (checkLength (recordAt message 0)) r.1 r.2) = .ok r) :
    CopiesFit message (carriersAt message) r.2 := by
  obtain ⟨n, hloop, h⟩ := bind_eq_ok.mp h
  exact parseCarriers_copies (copiesFit_clear ((acLoop_counts hloop).2.1.trans ho)) h

theorem first_eq {r : Int × Outputs} {f : RecordAt → Checked (Int × Outputs)}
    (h : (parse message 0 >>= f) = .ok r) : f (recordAt message 0) = .ok r := by
  have hheader := (ends_parse.mp ⟨r, h⟩).1
  rw [parse_ok hheader] at h
  exact h

theorem selectParse_copies {r : Int × Outputs} (h : selectParse message = .ok r) :
    CopiesFit message (carriersAt message) r.2 := by
  unfold selectParse at h
  split at h
  · cases h
    exact copiesFit_clear rfl
  · obtain ⟨same, _, h⟩ := bind_eq_ok.mp (first_eq h)
    split at h
    · obtain ⟨hoVer, _, h⟩ := bind_eq_ok.mp h
      split at h
      · exact parts_copies rfl h
      · cases h
        exact copiesFit_clear rfl
    · cases h
      exact copiesFit_clear rfl

theorem requestParse_copies {r : Int × Outputs} (h : requestParse message = .ok r) :
    CopiesFit message (carriersAt message) r.2 := by
  unfold requestParse at h
  split at h
  · cases h
    exact copiesFit_clear rfl
  · obtain ⟨same, _, h⟩ := bind_eq_ok.mp (first_eq h)
    split at h
    · obtain ⟨hoVer, _, h⟩ := bind_eq_ok.mp h
      split at h
      · obtain ⟨cr, _, h⟩ := bind_eq_ok.mp h
        cases cr with
        | none =>
          cases h
          exact copiesFit_clear rfl
        | some cr => exact parts_copies (o := { clearOutputs with receivedRandom := cr.2 }) rfl h
      · cases h
        exact copiesFit_clear rfl
    · cases h
      exact copiesFit_clear rfl

end Copies

end Messages

end OpenwrtMtk.Nfc.Access
