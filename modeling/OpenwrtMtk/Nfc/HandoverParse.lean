import OpenwrtMtk.Lib.Reader
import OpenwrtMtk.Nfc.Handover

/-!
# Parsing a handover message

The references to the carriers are found one after the other. The carriers are not: every turn of
the loop over them parses the record of the first one, so that all of them come out as the first.
-/

namespace OpenwrtMtk.Nfc

open Toolkit

set_option autoImplicit false

section References

variable {marksFirst : Bool} {carriers : List Carrier} {isAc : NdefRecord → Option Bool}
  {payload rest : List U8} {base k fuel : Nat} {o o' : Outputs}

def acParsed (flags : U8) (idx : Nat) (power : U8) (rest : List U8) : NdefRecord :=
  { acRecord flags idx power with
    type := 0x61 :: 0x63 :: ([power, 1, refData idx, 0] ++ rest)
    payloadData := [power, 1, refData idx, 0] ++ rest }

theorem slt_ofNat {m n : Nat} (hm : m < 2 ^ 31) (hn : n < 2 ^ 31) :
    (BitVec.ofNat 32 m).slt (BitVec.ofNat 32 n) = decide (m < n) := by
  have hint : ∀ l : Nat, l < 2 ^ 31 → (BitVec.ofNat 32 l).toInt = l := by
    intro l hl
    have htoNat : (BitVec.ofNat 32 l).toNat = l := by
      rw [BitVec.toNat_ofNat, Nat.mod_eq_of_lt (by omega)]
    rw [BitVec.toInt_eq_toNat_of_lt (by omega), htoNat]
  rw [BitVec.slt, hint m hm, hint n hn]
  simp

theorem offsetBy_ofNat {n : Nat} (hn : n < 2 ^ 31) :
    offsetBy payload (BitVec.ofNat 32 n) = some (payload.drop n) := by
  have htoNat : (BitVec.ofNat 32 n).toNat = n := by
    rw [BitVec.toNat_ofNat, Nat.mod_eq_of_lt (by omega)]
  have hmsb : (BitVec.ofNat 32 n).msb = false := by
    rw [BitVec.msb_eq_decide, htoNat, decide_eq_false_iff_not]
    omega
  rw [offsetBy, hmsb, if_neg Bool.false_ne_true, htoNat]

/-- The references from `base` on, and what is behind them. -/
def RefersFrom (marksFirst : Bool) (carriers : List Carrier) (payload : List U8) (base : Nat)
    (rest : List U8) : Prop :=
  payload.drop base = (acRecords marksFirst carriers).flatMap NdefRecord.encode ++ rest

theorem RefersFrom.drop (h : RefersFrom marksFirst carriers payload base rest)
    (hk : k ≤ carriers.length) :
    payload.drop (base + 9 * k) =
      ((acRecords marksFirst carriers).drop k).flatMap NdefRecord.encode ++ rest := by
  have hlength : ((acRecords marksFirst carriers).flatMap NdefRecord.encode).length =
      9 * carriers.length := by rw [length_flatMap_const length_acRecord, length_acRecords]
  rw [← List.drop_drop, h, List.drop_append_of_le_length (by omega),
    drop_flatMap_const k length_acRecord]

theorem RefersFrom.parse (h : RefersFrom marksFirst carriers payload base rest)
    (hk : k < carriers.length) :
    ∃ flags power more, parse .zero (payload.drop (base + 9 * k)) =
      some (0, acParsed flags k power more) := by
  have hrecord : (acRecords marksFirst carriers)[k]? =
      some (acRecord (acFlags marksFirst carriers.length k) k (carriers.get ⟨k, hk⟩).power) := by
    rw [acRecords_getElem?, List.getElem?_eq_getElem hk]
    rfl
  obtain ⟨hin, hget⟩ := List.getElem?_eq_some_iff.mp hrecord
  have hbytes := h.drop (Nat.le_of_lt hk)
  rw [List.drop_eq_getElem_cons hin, hget, List.flatMap_cons, List.append_assoc] at hbytes
  rw [hbytes]
  exact ⟨_, _, _, parse_wellKnown (messageFlags_ac marksFirst) (by decide : 4 < 256)⟩

/-- What the loop over the references leaves, from reference `k` on. -/
structure Referred (n k : Nat) (o o' : Outputs) : Prop where
  num : o'.num = o.num
  receivedRandom : o'.receivedRandom = o.receivedRandom
  outData : o'.outData = o.outData
  outLength : o'.outLength = o.outLength
  radio : o'.radio.length = o.radio.length
  carrierId : o'.carrierId.length = o.carrierId.length
  found : ∀ i, k ≤ i → i < n → o'.carrierId[i]? = some (refData i)
  kept : ∀ i, i < k → o'.carrierId[i]? = o.carrierId[i]?

theorem Referred.refl {n : Nat} : Referred n n o o := by
  refine ⟨rfl, rfl, rfl, rfl, rfl, rfl, ?_, fun _ _ => rfl⟩
  intro i hni hin
  omega

theorem Referred.cons {n : Nat} {power : U8} (hid : k < o.carrierId.length)
    (h : Referred n (k + 1)
      { o with radio := o.radio.set k power, carrierId := o.carrierId.set k (refData k) } o') :
    Referred n k o o' := by
  refine ⟨h.num, h.receivedRandom, h.outData, h.outLength, ?_, ?_, ?_, ?_⟩
  · rw [h.radio, List.length_set]
  · rw [h.carrierId, List.length_set]
  · intro i hki hin
    rcases Nat.lt_or_eq_of_le hki with hlt | rfl
    · exact h.found i hlt hin
    · rw [h.kept k (Nat.lt_succ_self k), List.getElem?_set_self hid]
  · intro i hik
    rw [h.kept i (by omega), List.getElem?_set_ne (by omega)]

theorem acLoop_turn (fuel : Nat)
    (hpayload : RefersFrom marksFirst carriers payload base rest)
    (hisAc : ∀ flags idx power more, isAc (acParsed flags idx power more) = some true)
    (hsmall : base + 9 * carriers.length < 2 ^ 31) (hk : k < carriers.length)
    (hradio : k < o.radio.length) (hid : k < o.carrierId.length) :
    ∃ power, acLoop isAc payload (BitVec.ofNat 32 (base + 9 * carriers.length)) (fuel + 1)
        (BitVec.ofNat 32 (base + 9 * k)) k o =
      acLoop isAc payload (BitVec.ofNat 32 (base + 9 * carriers.length)) fuel
        (BitVec.ofNat 32 (base + 9 * (k + 1))) (k + 1)
        { o with radio := o.radio.set k power, carrierId := o.carrierId.set k (refData k) } := by
  obtain ⟨flags, power, more, hparse⟩ := hpayload.parse hk
  have hcontinue : (BitVec.ofNat 32 (base + 9 * k)).slt
      (BitVec.ofNat 32 (base + 9 * carriers.length)) = true := by
    rw [slt_ofNat (by omega) hsmall, decide_eq_true_iff]
    omega
  have hstore : acLoop.storeAc isAc (acParsed flags k power more) k o = some { o with
      radio := o.radio.set k power, carrierId := o.carrierId.set k (refData k) } := by
    rw [acLoop.storeAc, hisAc]
    simp only [acParsed, store, if_pos hradio, if_pos hid, Option.bind_eq_bind, Option.bind_some,
      if_true]
    rfl
  have hnext : BitVec.ofNat 32 (base + 9 * k) +
      (acParsed flags k power more).typeLength.setWidth 32 +
        (acParsed flags k power more).payloadLength + 3 =
          BitVec.ofNat 32 (base + 9 * (k + 1)) := by
    change BitVec.ofNat 32 (base + 9 * k) + 2#32 + 4#32 + 3#32 = _
    rw [← BitVec.ofNat_add, ← BitVec.ofNat_add, ← BitVec.ofNat_add]
    rfl
  refine ⟨power, ?_⟩
  rw [acLoop, if_pos hcontinue, offsetBy_ofNat (by omega)]
  simp only [Option.bind_eq_bind, Option.bind_some]
  rw [hparse]
  simp only [Option.bind_some]
  rw [hstore]
  simp only [Option.bind_some]
  rw [hnext]

theorem acLoop_end {acLength : U32} {n : Nat} (hend : (BitVec.ofNat 32 n).slt acLength = false) :
    acLoop isAc payload acLength fuel (BitVec.ofNat 32 n) k o = some (k, o) := by
  cases fuel with
  | zero => rfl
  | succ fuel =>
    rw [acLoop, hend]
    rfl

/-- The run of the loop, by induction on the references that are left. -/
theorem acLoop_run {m spare : Nat} (hpayload : RefersFrom marksFirst carriers payload base rest)
    (hisAc : ∀ flags idx power more, isAc (acParsed flags idx power more) = some true)
    (hsmall : base + 9 * carriers.length < 2 ^ 31) (hk : k + m = carriers.length)
    (hradio : carriers.length ≤ o.radio.length) (hid : carriers.length ≤ o.carrierId.length) :
    ∃ o', acLoop isAc payload (BitVec.ofNat 32 (base + 9 * carriers.length)) (m + spare)
        (BitVec.ofNat 32 (base + 9 * k)) k o = some (carriers.length, o') ∧
      Referred carriers.length k o o' := by
  induction m generalizing k o with
  | zero =>
    obtain rfl : k = carriers.length := hk
    have hend := slt_ofNat hsmall hsmall
    rw [decide_eq_false (Nat.lt_irrefl _)] at hend
    exact ⟨o, acLoop_end hend, .refl⟩
  | succ m ih =>
    have hlt : k < carriers.length := by omega
    obtain ⟨power, hturn⟩ := acLoop_turn (m + spare) hpayload hisAc hsmall hlt
      (by omega : k < o.radio.length) (by omega)
    obtain ⟨o', hrun, hreferred⟩ := ih (k := k + 1) (o := {
      o with radio := o.radio.set k power, carrierId := o.carrierId.set k (refData k) })
      (by omega) (by rw [List.length_set]; exact hradio) (by rw [List.length_set]; exact hid)
    have hfuel : m + 1 + spare = m + spare + 1 := by omega
    refine ⟨o', ?_, .cons (by omega) hreferred⟩
    rw [hfuel, hturn, hrun]

end References

section Attributes

variable {attrs : List (U16 × List U8)} {front tail : List U8} {tokenLength : U16} {fuel : Nat}

def attributeBytes (attrs : List (U16 × List U8)) : List U8 :=
  attrs.flatMap fun a => wordBytes a.1 ++ (wordBytes (BitVec.ofNat 16 a.2.length) ++ a.2)

def classify : List (U16 × List U8) → RadioDataType
  | [] => .default
  | (type, _) :: attrs =>
    if type = 0x102c then .passwd
    else if isBeamplus type then .beamplus
    else if type = 0x100e then .config
    else classify attrs

theorem swappedAt_front (word : U16) (hsmall : front.length < 2 ^ 16) :
    swappedAt (front ++ (wordBytes word ++ tail)) (BitVec.ofNat 16 front.length) = some word := by
  have htoNat : (BitVec.ofNat 16 front.length).toNat = front.length := by
    rw [BitVec.toNat_ofNat, Nat.mod_eq_of_lt hsmall]
  have hhi : (front ++ (wordBytes word ++ tail))[front.length]? =
      some ((word >>> 8).setWidth 8) := by
    rw [List.getElem?_append_right (Nat.le_refl _), Nat.sub_self]
    rfl
  have hlo : (front ++ (wordBytes word ++ tail))[front.length + 1]? = some (word.setWidth 8) := by
    rw [List.getElem?_append_right (Nat.le_add_right _ 1), Nat.add_sub_cancel_left]
    rfl
  rw [swappedAt, htoNat, hhi, hlo]
  exact congrArg some (wordOf_wordBytes word)

theorem attributeLoop_eq
    (hlength : tokenLength.toNat = front.length + (attributeBytes attrs).length)
    (hfuel : attrs.length < fuel) :
    attributeLoop (front ++ (attributeBytes attrs ++ tail)) tokenLength fuel
      (BitVec.ofNat 16 front.length) = some (classify attrs) := by
  have hlt := tokenLength.isLt
  induction attrs generalizing front fuel with
  | nil =>
    have htoNat : (BitVec.ofNat 16 front.length).toNat = front.length := by
      rw [BitVec.toNat_ofNat, Nat.mod_eq_of_lt (by omega)]
    cases fuel with
    | zero => cases hfuel
    | succ fuel =>
      have hend : ¬BitVec.ofNat 16 front.length < tokenLength := by
        rw [BitVec.lt_def, htoNat, hlength]
        exact Nat.lt_irrefl _
      rw [attributeLoop, if_neg hend]
      rfl
  | cons a attrs ih =>
    obtain ⟨type, value⟩ := a
    have htoNat : (BitVec.ofNat 16 front.length).toNat = front.length := by
      rw [BitVec.toNat_ofNat, Nat.mod_eq_of_lt (by omega)]
    cases fuel with
    | zero => cases hfuel
    | succ fuel =>
      have hbytes : attributeBytes ((type, value) :: attrs) = wordBytes type ++
          (wordBytes (BitVec.ofNat 16 value.length) ++ (value ++ attributeBytes attrs)) := by
        simp only [attributeBytes, List.flatMap_cons, List.append_assoc]
      rw [hbytes] at hlength
      simp only [List.length_append, length_wordBytes] at hlength
      have hcontinue : BitVec.ofNat 16 front.length < tokenLength := by
        rw [BitVec.lt_def, htoNat]
        omega
      have hindex : BitVec.ofNat 16 front.length + 2 =
          BitVec.ofNat 16 (front ++ wordBytes type).length := by
        rw [List.length_append, length_wordBytes, BitVec.ofNat_add]
        rfl
      have hread : swappedAt (front ++ (attributeBytes ((type, value) :: attrs) ++ tail))
          (BitVec.ofNat 16 front.length) = some type := by
        rw [hbytes, List.append_assoc]
        exact swappedAt_front type (by omega)
      have hreadLength : swappedAt (front ++ (attributeBytes ((type, value) :: attrs) ++ tail))
          (BitVec.ofNat 16 front.length + 2) = some (BitVec.ofNat 16 value.length) := by
        rw [hbytes, hindex, List.append_assoc, List.append_assoc, ← List.append_assoc front]
        exact swappedAt_front _ (by rw [List.length_append, length_wordBytes]; omega)
      have hskip : BitVec.ofNat 16 front.length + 2 + 2 + BitVec.ofNat 16 value.length =
          BitVec.ofNat 16 (front ++ (wordBytes type ++
            (wordBytes (BitVec.ofNat 16 value.length) ++ value))).length := by
        simp only [List.length_append, length_wordBytes]
        change BitVec.ofNat 16 front.length + 2#16 + 2#16 + _ = _
        rw [← BitVec.ofNat_add, ← BitVec.ofNat_add, ← BitVec.ofNat_add]
        congr 1
        omega
      have hsplit : front ++ (attributeBytes ((type, value) :: attrs) ++ tail) =
          front ++ (wordBytes type ++ (wordBytes (BitVec.ofNat 16 value.length) ++ value)) ++
            (attributeBytes attrs ++ tail) := by
        rw [hbytes]
        simp only [List.append_assoc]
      rw [attributeLoop, if_pos hcontinue, hread]
      simp only [Option.bind_eq_bind, Option.bind_some]
      rw [hreadLength, classify]
      simp only [Option.bind_some]
      rw [hskip, hsplit]
      have hnow : tokenLength.toNat = (front ++ (wordBytes type ++
          (wordBytes (BitVec.ofNat 16 value.length) ++ value))).length +
            (attributeBytes attrs).length := by
        simp only [List.length_append, length_wordBytes]
        omega
      have hrest := ih hnow (Nat.lt_of_succ_lt_succ hfuel)
      rw [hrest]
      split
      · rfl
      · split
        · rfl
        · split <;> rfl

theorem length_attributes_le : attrs.length ≤ (attributeBytes attrs).length := by
  induction attrs with
  | nil => exact Nat.zero_le _
  | cons a attrs ih =>
    simp only [attributeBytes, List.flatMap_cons, List.length_cons, List.length_append,
      length_wordBytes] at ih ⊢
    omega

end Attributes

section Carriers

variable {c : Carrier} {num : Nat} {data more : List U8} {place : U32} {o o' : Outputs} {i k : Nat}

theorem memcmpEq_self (xs ys : List U8) : memcmpEq (xs ++ ys) xs xs.length = some true := by
  induction xs with
  | nil => rw [List.length_nil, memcmpEq]
  | cons x xs ih =>
    rw [List.cons_append, List.length_cons, memcmpEq, if_pos rfl]
    exact ih

/-- The type of a carrier as it is found: the radio types that share a MIME type are found as the
first of them. -/
def RadioType.found : RadioType → RadioType
  | .wifiFc => .wifiWps
  | radio => radio

theorem findRadio_mime (radio : RadioType) (more : List U8) :
    findRadio (radio.mime ++ more) [.wifiWps, .bt, .wifiDirect, .wifiFc] =
      some radio.found.code := by
  have hwsc := memcmpEq_self mimeWsc more
  have hbluetooth := memcmpEq_self mimeBluetooth more
  have hp2p := memcmpEq_self mimeP2p more
  cases radio with
  | wifiWps => simp only [findRadio, RadioType.mime, hwsc]; rfl
  | bt =>
    have hother : memcmpEq (mimeBluetooth ++ more) mimeWsc mimeWsc.length = some false := rfl
    simp only [findRadio, RadioType.mime, hbluetooth, hother]
    rfl
  | wifiDirect =>
    have hother : memcmpEq (mimeP2p ++ more) mimeWsc mimeWsc.length = some false := rfl
    have hlonger : memcmpEq (mimeP2p ++ more) mimeBluetooth mimeBluetooth.length = some false := rfl
    simp only [findRadio, RadioType.mime, hp2p, hother, hlonger]
    rfl
  | wifiFc => simp only [findRadio, RadioType.mime, hwsc]; rfl

def Carrier.Attributed (c : Carrier) : Prop :=
  c.radio.mime = mimeWsc → ∃ attrs, c.payload = attributeBytes attrs

theorem radioPayloadParse_carrier (hattributed : c.Attributed)
    (hpayload : c.payload.length < 2 ^ 16) :
    ∃ dataType, (c.radio.found ≠ .wifiWps → dataType = .default) ∧
      ∀ tail, radioPayloadParse c.radio.found.code (c.payload ++ tail)
        (BitVec.ofNat 16 c.payload.length) = some dataType := by
  by_cases hwps : c.radio.found = .wifiWps
  · have hmime : c.radio.mime = mimeWsc := by
      cases hradio : c.radio <;> rw [hradio] at hwps <;> first | rfl | cases hwps
    obtain ⟨attrs, hattrs⟩ := hattributed hmime
    refine ⟨classify attrs, fun hno => absurd hwps hno, ?_⟩
    intro tail
    have hlength : (BitVec.ofNat 16 c.payload.length).toNat =
        ([] : List U8).length + (attributeBytes attrs).length := by
      rw [BitVec.toNat_ofNat, Nat.mod_eq_of_lt hpayload, hattrs, List.length_nil, Nat.zero_add]
    have hfuel : attrs.length < 2 ^ 16 + 1 := by
      have hle : attrs.length ≤ (attributeBytes attrs).length := length_attributes_le
      rw [← hattrs] at hle
      omega
    rw [radioPayloadParse, hwps, if_pos rfl, hattrs]
    rw [hattrs] at hlength
    exact attributeLoop_eq hlength hfuel
  · refine ⟨.default, fun _ => rfl, ?_⟩
    intro tail
    have hcode : c.radio.found.code ≠ RadioType.wifiWps.code := by
      cases hradio : c.radio <;> rw [hradio] at hwps <;> first | decide | exact absurd rfl hwps
    rw [radioPayloadParse, if_neg hcode]

def sameRadio (r s : U8) : Prop := (if r = 3 then 0 else r) = if s = 3 then 0 else s

/-- What the loop over the carriers stores at index `i`. -/
def Outputs.stored (o : Outputs) (i : Nat) (radio : U8) (buffer payload : List U8) : Outputs :=
  { o with
    radio := o.radio.set i radio
    outData := o.outData.set i (overwrite buffer 0 payload)
    outLength := o.outLength.set i (BitVec.ofNat 16 payload.length) }

/-- The record of `c` is at `place`. -/
def CarrierAt (data : List U8) (place : U32) (c : Carrier) : Prop :=
  ∃ num more, offsetBy data place = some ((carrierRecord num 0 c).encode ++ more)

theorem storePayload_eq {ndef : NdefRecord} {buffer : List U8}
    (hlength : ndef.payloadLength = BitVec.ofNat 32 c.payload.length)
    (hdata : ndef.payloadData = c.payload ++ more) (hnonempty : c.payload ≠ [])
    (hpayload : c.payload.length < 2 ^ 16) (hi : i < o.outLength.length)
    (hbuffer : o.outData[i]? = some buffer) :
    storePayload ndef i o = if buffer.length < c.payload.length then none else some { o with
      outData := o.outData.set i (overwrite buffer 0 c.payload)
      outLength := o.outLength.set i (BitVec.ofNat 16 c.payload.length) } := by
  have htoNat : ndef.payloadLength.toNat = c.payload.length := by
    rw [hlength, BitVec.toNat_ofNat, Nat.mod_eq_of_lt (by omega)]
  have hnonzero : ndef.payloadLength ≠ 0 := by
    intro hzero
    rw [hzero] at htoNat
    exact hnonempty (List.eq_nil_of_length_eq_zero htoNat.symm)
  have hbytes : bytesAt ndef.payloadData ndef.payloadLength.toNat = some c.payload := by
    rw [htoNat, hdata, bytesAt, if_pos (by rw [List.length_append]; omega), List.take_left]
  have hshort : ndef.payloadLength.setWidth 16 = BitVec.ofNat 16 c.payload.length := by
    apply BitVec.eq_of_toNat_eq
    rw [BitVec.toNat_setWidth, htoNat, BitVec.toNat_ofNat]
  rw [storePayload, if_pos hnonzero, hbytes, hshort]
  simp only [Option.bind_eq_bind, Option.bind_some]
  rw [hbuffer]
  simp only [Option.bind_some, store, if_pos hi]

theorem carrierStep_eq (hat : CarrierAt data place c) (hnonempty : c.payload ≠ [])
    (hattributed : c.Attributed) (hpayload : c.payload.length < 2 ^ 16) :
    ∃ radio, sameRadio radio c.radio.code ∧ ∀ o i buffer, i < o.radio.length →
      i < o.outLength.length → o.outData[i]? = some buffer →
        carrierStep data place o i = if buffer.length < c.payload.length then none
          else some (o.stored i radio buffer c.payload) := by
  obtain ⟨num, more, hpointer⟩ := hat
  obtain ⟨dataType, hdefault, hparse⟩ := radioPayloadParse_carrier hattributed hpayload
  refine ⟨if dataType = .beamplus then RadioType.wifiFc.code else c.radio.found.code, ?_, ?_⟩
  · split
    · rename_i hbeamplus
      have hwps : c.radio.found = .wifiWps := by
        by_contra hno
        rw [hdefault hno] at hbeamplus
        cases hbeamplus
      cases hradio : c.radio <;> rw [hradio] at hwps <;> first | rfl | cases hwps
    · cases c.radio <;> rfl
  · intro o i buffer hradio hlength hbuffer
    have hpayload32 : c.payload.length < 2 ^ 32 := by omega
    have hstored : storePayload (carrierParsed num 0 c more) i
        { o with radio := o.radio.set i c.radio.found.code } =
          if buffer.length < c.payload.length then none else some _ :=
      storePayload_eq rfl rfl hnonempty hpayload hlength hbuffer
    have hfound : findRadio (carrierParsed num 0 c more).type
        [.wifiWps, .bt, .wifiDirect, .wifiFc] = some c.radio.found.code :=
      findRadio_mime c.radio _
    rw [carrierStep, hpointer]
    simp only [Option.bind_eq_bind, Option.bind_some]
    rw [parse_carrierRecord hpayload32]
    simp only [Option.bind_some]
    rw [hfound]
    simp only [Option.bind_some, store, if_pos hradio]
    rw [hstored]
    split
    · rfl
    · rename_i hfits
      have hi : i < o.outData.length := (List.getElem?_eq_some_iff.mp hbuffer).1
      have hthere : (o.outData.set i (overwrite buffer 0 c.payload))[i]? =
          some (c.payload ++ buffer.drop c.payload.length) := by
        rw [List.getElem?_set_self hi, overwrite, List.take_zero, List.nil_append, Nat.zero_add]
      have hcount : (o.outLength.set i (BitVec.ofNat 16 c.payload.length))[i]? =
          some (BitVec.ofNat 16 c.payload.length) := List.getElem?_set_self hlength
      simp only [Option.bind_some]
      rw [hthere, hcount]
      simp only [Option.bind_some]
      rw [hparse]
      simp only [Option.bind_some]
      split
      · rw [Outputs.stored, List.set_set]
      · rfl

/-- The first `k` places of the arrays hold the carrier `c`, the others what they held. -/
structure Repeated (radio : U8) (c : Carrier) (k : Nat) (o o' : Outputs) : Prop where
  num : o'.num = o.num
  receivedRandom : o'.receivedRandom = o.receivedRandom
  carrierId : o'.carrierId = o.carrierId
  radioLength : o'.radio.length = o.radio.length
  outLengthLength : o'.outLength.length = o.outLength.length
  radio : ∀ i, i < k → o'.radio[i]? = some radio
  outLength : ∀ i, i < k → o'.outLength[i]? = some (BitVec.ofNat 16 c.payload.length)
  outData : ∀ i, i < k → ∃ buffer, o.outData[i]? = some buffer ∧
    c.payload.length ≤ buffer.length ∧ o'.outData[i]? = some (overwrite buffer 0 c.payload)
  untouched : ∀ i, k ≤ i → o'.outData[i]? = o.outData[i]?

theorem Repeated.zero {radio : U8} : Repeated radio c 0 o o := by
  refine ⟨rfl, rfl, rfl, rfl, rfl, ?_, ?_, ?_, fun _ _ => rfl⟩
  · intro i hi
    cases hi
  · intro i hi
    cases hi
  · intro i hi
    cases hi

theorem Repeated.succ {radio : U8} {buffer : List U8} (h : Repeated radio c k o o')
    (hradio : k < o.radio.length) (hlength : k < o.outLength.length)
    (hbuffer : o.outData[k]? = some buffer) (hfits : c.payload.length ≤ buffer.length) :
    Repeated radio c (k + 1) o (o'.stored k radio buffer c.payload) := by
  have hbuffer' : o'.outData[k]? = some buffer := (h.untouched k (Nat.le_refl k)).trans hbuffer
  obtain ⟨hk, -⟩ := List.getElem?_eq_some_iff.mp hbuffer'
  refine ⟨h.num, h.receivedRandom, h.carrierId, ?_, ?_, ?_, ?_, ?_, ?_⟩
  · rw [Outputs.stored, List.length_set, h.radioLength]
  · rw [Outputs.stored, List.length_set, h.outLengthLength]
  · intro i hi
    rcases Nat.lt_succ_iff_lt_or_eq.mp hi with hlt | rfl
    · rw [Outputs.stored, List.getElem?_set_ne (by omega), h.radio i hlt]
    · exact List.getElem?_set_self (by rw [h.radioLength]; exact hradio)
  · intro i hi
    rcases Nat.lt_succ_iff_lt_or_eq.mp hi with hlt | rfl
    · rw [Outputs.stored, List.getElem?_set_ne (by omega), h.outLength i hlt]
    · exact List.getElem?_set_self (by rw [h.outLengthLength]; exact hlength)
  · intro i hi
    rcases Nat.lt_succ_iff_lt_or_eq.mp hi with hlt | rfl
    · obtain ⟨b, hb, hle, hb'⟩ := h.outData i hlt
      exact ⟨b, hb, hle, by rw [Outputs.stored, List.getElem?_set_ne (by omega), hb']⟩
    · exact ⟨buffer, hbuffer, hfits, List.getElem?_set_self hk⟩
  · intro i hi
    rw [Outputs.stored, List.getElem?_set_ne (by omega), h.untouched i (by omega)]

/-- The loop over the carriers, by induction on the turns: it has a result when the payload of `c`
fits all buffers, and then `c` is in all places. -/
theorem carriers_run {radio : U8}
    (hstep : ∀ o i buffer, i < o.radio.length → i < o.outLength.length →
      o.outData[i]? = some buffer → carrierStep data place o i =
        if buffer.length < c.payload.length then none
        else some (o.stored i radio buffer c.payload))
    (hradio : k ≤ o.radio.length) (hlength : k ≤ o.outLength.length)
    (hdata : k ≤ o.outData.length) :
    (∀ o', (List.range k).foldlM (carrierStep data place) o = some o' →
        Repeated radio c k o o') ∧
      ((∀ i, i < k → ∀ buffer, o.outData[i]? = some buffer → c.payload.length ≤ buffer.length) →
        ∃ o', (List.range k).foldlM (carrierStep data place) o = some o') := by
  induction k with
  | zero =>
    constructor
    · intro o' hrun
      obtain rfl : o = o' := Option.some_inj.mp hrun
      exact .zero
    · intro _
      exact ⟨o, rfl⟩
  | succ k ih =>
    obtain ⟨hrepeated, hexists⟩ := ih (by omega) (by omega) (by omega)
    obtain ⟨buffer, hbuffer⟩ : ∃ buffer, o.outData[k]? = some buffer :=
      ⟨_, List.getElem?_eq_getElem (by omega)⟩
    have hturn : ∀ mid, Repeated radio c k o mid → carrierStep data place mid k =
        if buffer.length < c.payload.length then none
        else some (mid.stored k radio buffer c.payload) := by
      intro mid hmid
      exact hstep mid k buffer (by rw [hmid.radioLength]; omega)
        (by rw [hmid.outLengthLength]; omega) ((hmid.untouched k (Nat.le_refl k)).trans hbuffer)
    rw [List.range_succ, List.foldlM_append]
    constructor
    · intro o' hrun
      obtain ⟨mid, hfirst, hlast⟩ := Option.bind_eq_some_iff.mp hrun
      have hmid := hrepeated mid hfirst
      rw [List.foldlM_cons, hturn mid hmid] at hlast
      split at hlast
      · cases hlast
      · rename_i hfits
        obtain rfl : mid.stored k radio buffer c.payload = o' := Option.some_inj.mp hlast
        exact hmid.succ (by omega) (by omega) hbuffer (by omega)
    · intro hfits
      obtain ⟨mid, hfirst⟩ := hexists fun i hi => hfits i (by omega)
      have hroom := hfits k (by omega) buffer hbuffer
      refine ⟨mid.stored k radio buffer c.payload, ?_⟩
      rw [hfirst]
      change List.foldlM (carrierStep data place) mid [k] = _
      rw [List.foldlM_cons, hturn mid (hrepeated mid hfirst), if_neg (by omega)]
      rfl

end Carriers

end OpenwrtMtk.Nfc
