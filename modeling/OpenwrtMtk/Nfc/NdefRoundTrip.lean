import OpenwrtMtk.Nfc.Ndef

/-!
# Records that are written and parsed

`encode` is the layout of a record; the parser reads it back, whatever is behind it. `generate`
writes it, except for an empty record, which it always writes with a length byte of each kind. The
length that is announced is that of the layout.
-/

namespace OpenwrtMtk.Nfc

open Toolkit

set_option autoImplicit false

theorem recordFlag_eq : ∀ header : U8, recordFlag header = header &&& flagMask := by decide +kernel

theorem sr_set_iff : ∀ b : U8, b &&& flagsSr = flagsSr ↔ b &&& flagsSr ≠ 0 := by decide +kernel

theorem il_set_iff : ∀ b : U8, b &&& flagsIl = flagsIl ↔ b &&& flagsIl ≠ 0 := by decide +kernel

theorem longOf_longBytes (w : U32) :
    longOf ((w >>> 24).setWidth 8) ((w >>> 16).setWidth 8) ((w >>> 8).setWidth 8)
      (w.setWidth 8) = w := by
  apply BitVec.eq_of_toNat_eq
  unfold longOf
  have hlt := w.isLt
  simp only [BitVec.toNat_add, BitVec.toNat_shiftLeft, BitVec.toNat_setWidth,
    BitVec.toNat_ushiftRight, Nat.shiftLeft_eq, Nat.shiftRight_eq_div_pow]
  omega

namespace NdefRecord

variable (r : NdefRecord)

def short : Bool := ndefFlag r.flags flagsSr ≠ 0
def hasId : Bool := ndefFlag r.flags flagsIl ≠ 0

def header : U8 := (r.flags &&& flagMask) ||| (r.tnf &&& tnfByteMask)

def lengthField : List U8 :=
  if r.short then [r.payloadLength.setWidth 8] else longBytes r.payloadLength

def idField : List U8 := if r.hasId then [r.idLength] else []

def typeBytes : List U8 := r.type.take r.typeLength.toNat
def idBytes : List U8 := r.id.take r.idLength.toNat
def payloadBytes : List U8 := r.payloadData.take r.payloadLength.toNat

def encode : List U8 :=
  r.header :: r.typeLength ::
    (r.lengthField ++ r.idField ++ r.typeBytes ++ r.idBytes ++ r.payloadBytes)

/-- A record as the callers build it: the lengths fit the flags and the type name format, and the
pointers point to as many bytes. -/
structure Valid : Prop where
  tnf_le : r.tnf.toNat ≤ 6
  flags_mask : r.flags &&& flagMask = r.flags
  payload_short : r.short = true → r.payloadLength.toNat < 256
  id_none : r.hasId = false → r.idLength = 0
  type_none : r.tnf = tnfEmpty ∨ r.tnf = tnfUnknown ∨ r.tnf = tnfUnchanged → r.typeLength = 0
  empty : r.tnf = tnfEmpty → r.payloadLength = 0 ∧ r.idLength = 0
  type_le : r.typeLength.toNat ≤ r.type.length
  id_le : r.idLength.toNat ≤ r.id.length
  payload_le : r.payloadLength.toNat ≤ r.payloadData.length

structure Same (p r : NdefRecord) : Prop where
  flags : p.flags = r.flags
  tnf : p.tnf = r.tnf
  typeLength : p.typeLength = r.typeLength
  type : p.typeBytes = r.typeBytes
  idLength : p.idLength = r.idLength
  id : p.idBytes = r.idBytes
  payloadLength : p.payloadLength = r.payloadLength
  payload : p.payloadBytes = r.payloadBytes

end NdefRecord

section Fields

variable {r : NdefRecord}

theorem NdefRecord.Valid.tnf_mask (h : r.Valid) : r.tnf &&& tnfByteMask = r.tnf := by
  have hmask : ∀ b : U8, b.toNat ≤ 6 → b &&& tnfByteMask = b := by decide +kernel
  exact hmask r.tnf h.tnf_le

theorem NdefRecord.Valid.tnf_ne_reserved (h : r.Valid) : r.tnf ≠ tnfReserved := by
  intro heq
  have hle := h.tnf_le
  rw [heq] at hle
  exact absurd hle (by decide)

theorem header_tnf (h : r.Valid) : r.header &&& tnfByteMask = r.tnf := by
  unfold NdefRecord.header
  rw [BitVec.and_or_distrib_right, BitVec.and_assoc, BitVec.and_assoc]
  have hflags : flagMask &&& tnfByteMask = 0#8 := by decide
  have htnf : tnfByteMask &&& tnfByteMask = tnfByteMask := by decide
  rw [hflags, htnf, BitVec.and_zero, BitVec.zero_or, h.tnf_mask]

theorem header_flag {mask : U8} (hflag : flagMask &&& mask = mask)
    (htnf : tnfByteMask &&& mask = 0#8) : r.header &&& mask = r.flags &&& mask := by
  unfold NdefRecord.header
  rw [BitVec.and_or_distrib_right, BitVec.and_assoc, BitVec.and_assoc, hflag, htnf,
    BitVec.and_zero, BitVec.or_zero]

theorem recordFlag_header (h : r.Valid) : recordFlag r.header = r.flags := by
  rw [recordFlag_eq, header_flag (by decide) (by decide), h.flags_mask]

theorem header_short : r.header &&& flagsSr = flagsSr ↔ r.short = true := by
  rw [header_flag (by decide) (by decide), sr_set_iff, NdefRecord.short, decide_eq_true_iff]
  rfl

theorem header_hasId : r.header &&& flagsIl = flagsIl ↔ r.hasId = true := by
  rw [header_flag (by decide) (by decide), il_set_iff, NdefRecord.hasId, decide_eq_true_iff]
  rfl

theorem length_lengthField : r.lengthField.length = if r.short then 1 else 4 := by
  unfold NdefRecord.lengthField
  cases r.short <;> rfl

theorem length_idField : r.idField.length = if r.hasId then 1 else 0 := by
  unfold NdefRecord.idField
  cases r.hasId <;> rfl

end Fields

section Parse

variable {r : NdefRecord} {l : Lengths} {t : U8} {more : List U8}

theorem readPayloadLength_field (h : r.Valid) (hbyte : l.typeLengthByte = 1) :
    readPayloadLength (r.header :: t :: (r.lengthField ++ more)) r.header l = some { l with
      payloadLengthByte := r.lengthField.length
      payloadLength := r.payloadLength } := by
  unfold readPayloadLength NdefRecord.lengthField
  by_cases hshort : r.short = true
  · rw [if_pos (header_short.mpr hshort), if_pos hshort, hbyte]
    have hlength : (r.payloadLength.setWidth 8).setWidth 32 = r.payloadLength := by
      apply BitVec.eq_of_toNat_eq
      have hlt := h.payload_short hshort
      simp only [BitVec.toNat_setWidth]
      omega
    change some _ = some _
    rw [hlength]
    rfl
  · rw [if_neg (mt header_short.mp hshort), if_neg hshort]
    change some { l with payloadLength := longOf _ _ _ _, payloadLengthByte := 4 } = _
    rw [longOf_longBytes]
    rfl

theorem readIdLength_field (h : r.Valid) (hbyte : l.typeLengthByte = 1)
    (hlength : l.payloadLengthByte = r.lengthField.length) :
    readIdLength (r.header :: t :: (r.lengthField ++ (r.idField ++ more))) r.header l = some { l with
      idLengthByte := r.idField.length
      idLength := r.idLength } := by
  unfold readIdLength NdefRecord.idField
  by_cases hid : r.hasId = true
  · have hplace : l.payloadLengthByte + l.typeLengthByte + 1 = r.lengthField.length + 1 + 1 := by
      omega
    rw [if_pos (header_hasId.mpr hid), if_pos hid, hplace, List.getElem?_cons_succ,
      List.getElem?_cons_succ, List.getElem?_append_right (Nat.le_refl _), Nat.sub_self]
    rfl
  · have hnone := h.id_none (Bool.eq_false_iff.mpr hid)
    rw [if_neg (mt header_hasId.mp hid), if_neg hid, hnone]
    rfl

def NdefRecord.lengths (r : NdefRecord) : Lengths where
  typeLength := r.typeLength
  typeLengthByte := 1
  payloadLengthByte := r.lengthField.length
  payloadLength := r.payloadLength
  idLengthByte := r.idField.length
  idLength := r.idLength

theorem recordIdCheck_layout (h : r.Valid) :
    recordIdCheck (r.header :: r.typeLength :: (r.lengthField ++ (r.idField ++ more))) =
      some (0, r.lengths) := by
  have htnf := header_tnf h
  have hpayload : readPayloadLength
      (r.header :: r.typeLength :: (r.lengthField ++ (r.idField ++ more))) r.header
        { typeLength := r.typeLength, typeLengthByte := 1 } =
          some { r.lengths with idLengthByte := 0, idLength := 0 } := readPayloadLength_field h rfl
  have hid : readIdLength (r.header :: r.typeLength :: (r.lengthField ++ (r.idField ++ more)))
      r.header { r.lengths with idLengthByte := 0, idLength := 0 } = some r.lengths :=
    readIdLength_field h rfl rfl
  rw [recordIdCheck]
  simp only [List.getElem?_cons_zero, List.getElem?_cons_succ, Option.bind_eq_bind,
    Option.bind_some]
  rw [htnf, if_neg h.tnf_ne_reserved]
  by_cases hempty : r.tnf = tnfEmpty
  · obtain ⟨hpayloadZero, hidZero⟩ := h.empty hempty
    rw [if_pos hempty, if_neg (by rw [h.type_none (Or.inl hempty)]; exact fun hne => hne rfl),
      hpayload]
    simp only [Option.bind_some]
    rw [if_neg (fun hne => hne hpayloadZero), hid]
    simp only [Option.bind_some]
    rw [if_neg (fun hne => hne hidZero)]
  · have htype : ¬((r.tnf = tnfUnknown ∨ r.tnf = tnfUnchanged) ∧ r.typeLength ≠ 0) :=
      fun hboth => hboth.2 (h.type_none (Or.inr hboth.1))
    rw [if_neg hempty, if_neg htype, hpayload]
    simp only [Option.bind_some]
    rw [hid]
    rfl

/-- What the parser makes of a record in front of `rest`. -/
def NdefRecord.parsed (r before : NdefRecord) (rest : List U8) : NdefRecord :=
  { r with
    type := r.typeBytes ++ (r.idBytes ++ (r.payloadBytes ++ rest))
    id := if r.idLength ≠ 0 then r.idBytes ++ (r.payloadBytes ++ rest) else before.id
    payloadData := r.payloadBytes ++ rest }

theorem NdefRecord.Valid.length_typeBytes (h : r.Valid) :
    r.typeBytes.length = r.typeLength.toNat := by
  rw [NdefRecord.typeBytes, List.length_take_of_le h.type_le]

theorem NdefRecord.Valid.length_idBytes (h : r.Valid) : r.idBytes.length = r.idLength.toNat := by
  rw [NdefRecord.idBytes, List.length_take_of_le h.id_le]

theorem NdefRecord.Valid.length_payloadBytes (h : r.Valid) :
    r.payloadBytes.length = r.payloadLength.toNat := by
  rw [NdefRecord.payloadBytes, List.length_take_of_le h.payload_le]

/-- The parser reads the layout back, with any bytes behind it. -/
theorem parse_encode (h : r.Valid) (before : NdefRecord) (rest : List U8) :
    parse before (r.encode ++ rest) = some (0, r.parsed before rest) := by
  have hlayout : r.encode ++ rest = r.header :: r.typeLength :: (r.lengthField ++ (r.idField ++
      (r.typeBytes ++ (r.idBytes ++ (r.payloadBytes ++ rest))))) := by
    simp only [NdefRecord.encode, List.cons_append, List.append_assoc]
  have hskip : (r.encode ++ rest).drop (r.lengths.payloadLengthByte + r.lengths.idLengthByte +
      r.lengths.typeLengthByte + 1) =
        r.typeBytes ++ (r.idBytes ++ (r.payloadBytes ++ rest)) := by
    have hwidth : r.lengths.payloadLengthByte + r.lengths.idLengthByte +
        r.lengths.typeLengthByte + 1 = r.lengthField.length + r.idField.length + 1 + 1 := rfl
    rw [hwidth, hlayout, List.drop_succ_cons, List.drop_succ_cons, ← List.append_assoc,
      ← List.length_append, List.drop_left]
  have hafterType : (r.typeBytes ++ (r.idBytes ++ (r.payloadBytes ++ rest))).drop
      r.typeLength.toNat = r.idBytes ++ (r.payloadBytes ++ rest) :=
    List.drop_left' h.length_typeBytes
  have hafterId : (r.idBytes ++ (r.payloadBytes ++ rest)).drop r.idLength.toNat =
      r.payloadBytes ++ rest := List.drop_left' h.length_idBytes
  have hheader : (r.encode ++ rest)[0]? = some r.header := rfl
  have hcheck : recordIdCheck (r.encode ++ rest) = some (0, r.lengths) := by
    rw [hlayout]
    exact recordIdCheck_layout h
  rw [parse, hheader, hcheck]
  simp only [Option.bind_eq_bind, Option.bind_some]
  rw [hskip]
  simp only [NdefRecord.lengths]
  rw [hafterType, hafterId, recordFlag_header h, header_tnf h]
  rfl

theorem parsed_same (h : r.Valid) (before : NdefRecord) (rest : List U8) :
    (r.parsed before rest).Same r := by
  refine ⟨rfl, rfl, rfl, ?_, rfl, ?_, rfl, ?_⟩
  · exact List.take_left' h.length_typeBytes
  · unfold NdefRecord.idBytes NdefRecord.parsed
    simp only
    split
    · exact List.take_left' h.length_idBytes
    · rename_i hzero
      rw [not_not] at hzero
      rw [hzero]
      rfl
  · exact List.take_left' h.length_payloadBytes

end Parse

section Generate

variable {r : NdefRecord} {maxBufferSize : U32}

def NdefRecord.fullLength (r : NdefRecord) : Nat :=
  2 + (if r.short then 1 else 4) + (if r.hasId then 1 else 0) + r.typeLength.toNat +
    r.idLength.toNat + r.payloadLength.toNat

theorem length_encode (h : r.Valid) : r.encode.length = r.fullLength := by
  simp only [NdefRecord.fullLength, NdefRecord.encode, List.length_cons, List.length_append,
    length_lengthField, length_idField, h.length_typeBytes, h.length_idBytes,
    h.length_payloadBytes]
  omega

theorem getLength_toNat (h : r.Valid) : (getLength r).toNat = r.fullLength % 2 ^ 32 := by
  have htype : (if r.tnf ≠ tnfEmpty ∧ r.tnf ≠ tnfUnknown ∧ r.tnf ≠ tnfUnchanged
      then r.typeLength.setWidth 32 else 0 : U32) = r.typeLength.setWidth 32 := by
    split
    · rfl
    · rename_i hnot
      have hzero := h.type_none (by tauto)
      rw [hzero]
      rfl
  have hpayload : (if r.tnf ≠ tnfEmpty then r.payloadLength else 0) = r.payloadLength := by
    split
    · rfl
    · rename_i hnot
      rw [(h.empty (not_not.mp hnot)).1]
  have hshort : ndefFlag r.flags flagsSr ≠ 0 ↔ r.short = true := by
    rw [NdefRecord.short, decide_eq_true_iff]
  have hid : ndefFlag r.flags flagsIl ≠ 0 ↔ r.hasId = true := by
    rw [NdefRecord.hasId, decide_eq_true_iff]
  have htnf : ndefFlag r.tnf tnfByteMask = r.tnf := h.tnf_mask
  rw [getLength, htnf]
  simp only [hshort, hid]
  rw [htype, hpayload, NdefRecord.fullLength]
  have hidNone : r.hasId = false → r.idLength.toNat = 0 := by
    intro hno
    rw [h.id_none hno]
    rfl
  have hidLength : (if r.hasId = true then r.idLength.setWidth 32 + 1 else 0 : U32).toNat =
      (if r.hasId then 1 else 0) + r.idLength.toNat := by
    have hlt := r.idLength.isLt
    cases hi : r.hasId with
    | true =>
      rw [if_pos rfl, if_pos rfl, BitVec.toNat_add, BitVec.toNat_setWidth]
      change (_ + 1) % _ = _
      omega
    | false =>
      rw [if_neg Bool.false_ne_true, if_neg Bool.false_ne_true, hidNone hi]
      rfl
  have hlengthBytes : (if r.short = true then 1 else 4 : U32).toNat =
      if r.short then 1 else 4 := by
    cases r.short <;> rfl
  have htypeLt := r.typeLength.isLt
  have hone : (1 : U32).toNat = 1 := rfl
  simp only [BitVec.toNat_add, hidLength, hlengthBytes, BitVec.toNat_setWidth, hone]
  omega

theorem generate_layout (h : r.Valid) (htnf : r.tnf ≠ tnfEmpty) (hnonzero : maxBufferSize ≠ 0)
    (hroom : getLength r ≤ maxBufferSize) :
    generate r maxBufferSize = some ⟨0, r.encode, some (getLength r)⟩ := by
  have hmask : ndefFlag r.tnf tnfByteMask = r.tnf := h.tnf_mask
  have htype : bytesIf (¬(r.tnf = tnfUnknown ∨ r.tnf = tnfUnchanged)) r.type
      r.typeLength.toNat = some r.typeBytes := by
    unfold bytesIf
    split
    · exact if_pos h.type_le
    · rename_i hnot
      rw [NdefRecord.typeBytes, h.type_none (Or.inr (not_not.mp hnot))]
      rfl
  have htypeByte : (if ¬(r.tnf = tnfUnknown ∨ r.tnf = tnfUnchanged) then r.typeLength else 0) =
      r.typeLength := by
    split
    · rfl
    · rename_i hnot
      exact (h.type_none (Or.inr (not_not.mp hnot))).symm
  have hlengthField : (if ndefFlag r.flags flagsSr ≠ 0 then [r.payloadLength.setWidth 8]
      else longBytes r.payloadLength) = r.lengthField := by
    simp only [NdefRecord.lengthField, NdefRecord.short, decide_eq_true_iff]
  have hidField : (if ndefFlag r.flags flagsIl ≠ 0 then [r.idLength] else []) = r.idField := by
    simp only [NdefRecord.idField, NdefRecord.hasId, decide_eq_true_iff]
  have hid : bytesIf (ndefFlag r.flags flagsIl ≠ 0) r.id r.idLength.toNat = some r.idBytes := by
    unfold bytesIf
    split
    · exact if_pos h.id_le
    · rename_i hnot
      have hnone : r.hasId = false := by
        rw [NdefRecord.hasId, decide_eq_false_iff_not]
        exact hnot
      rw [NdefRecord.idBytes, h.id_none hnone]
      rfl
  have hpayload : bytesAt r.payloadData r.payloadLength.toNat = some r.payloadBytes :=
    if_pos h.payload_le
  rw [generate, if_neg hnonzero, if_neg h.tnf_ne_reserved, if_neg (BitVec.not_lt.mpr hroom)]
  simp only [hmask]
  rw [if_neg htnf, if_neg h.tnf_ne_reserved, htype, hid, hpayload, htypeByte, hlengthField,
    hidField]
  rfl

theorem generate_empty (h : r.Valid) (htnf : r.tnf = tnfEmpty) (hnonzero : maxBufferSize ≠ 0)
    (hroom : getLength r ≤ maxBufferSize) :
    generate r maxBufferSize = some ⟨0, [r.header, 0, 0, 0], some (getLength r)⟩ := by
  have hmask : ndefFlag r.tnf tnfByteMask = r.tnf := h.tnf_mask
  rw [generate, if_neg hnonzero, if_neg h.tnf_ne_reserved, if_neg (BitVec.not_lt.mpr hroom)]
  simp only [hmask]
  rw [if_pos htnf]
  rfl

theorem encode_empty (h : r.Valid) (htnf : r.tnf = tnfEmpty) (hshort : r.short = true)
    (hid : r.hasId = true) : r.encode = [r.header, 0, 0, 0] := by
  obtain ⟨hpayloadLength, hidLength⟩ := h.empty htnf
  have htypeLength := h.type_none (Or.inl htnf)
  have hzero : ∀ n : U8, n = 0 → n.toNat = 0 := by
    rintro n rfl
    rfl
  rw [NdefRecord.encode, NdefRecord.lengthField, NdefRecord.idField, NdefRecord.typeBytes,
    NdefRecord.idBytes, NdefRecord.payloadBytes, if_pos hshort, if_pos hid, htypeLength, hidLength,
    hpayloadLength]
  rfl

/-- `generate` writes as many bytes as it says and no more, and they are parsed as the record. -/
def RoundTrips (r : NdefRecord) (maxBufferSize : U32) : Prop :=
  ∃ g p, generate r maxBufferSize = some g ∧ g.status = 0 ∧ g.bytesWritten = some (getLength r) ∧
    g.out.length = (getLength r).toNat ∧ parse .zero g.out = some (0, p) ∧ p.Same r

theorem roundTrips_of_encode {g : Generated} (h : r.Valid) (hfits : r.fullLength < 2 ^ 32)
    (hg : generate r maxBufferSize = some g) (hgen : g = ⟨0, r.encode, some (getLength r)⟩) :
    RoundTrips r maxBufferSize := by
  have hparse := parse_encode h .zero []
  rw [List.append_nil] at hparse
  subst hgen
  refine ⟨_, _, hg, rfl, rfl, ?_, hparse, parsed_same h .zero []⟩
  rw [length_encode h, getLength_toNat h, Nat.mod_eq_of_lt hfits]

theorem getLength_nonzero (h : r.Valid) (hfits : r.fullLength < 2 ^ 32)
    (hroom : getLength r ≤ maxBufferSize) : maxBufferSize ≠ 0 := by
  rintro rfl
  have hle : (getLength r).toNat ≤ 0 := hroom
  rw [getLength_toNat h, Nat.mod_eq_of_lt hfits, NdefRecord.fullLength] at hle
  omega

/-- The round trip is exact unless the record is empty and has not both a short length and an id
field, or is too long for 32 bits. -/
theorem roundTrips_iff (r : NdefRecord) (maxBufferSize : U32) (h : r.Valid)
    (hroom : getLength r ≤ maxBufferSize) :
    RoundTrips r maxBufferSize ↔
      (r.tnf = tnfEmpty → r.short = true ∧ r.hasId = true) ∧ r.fullLength < 2 ^ 32 := by
  constructor
  · rintro ⟨g, p, hg, hstatus, -, hlength, -⟩
    have hnonzero : maxBufferSize ≠ 0 := by
      rintro rfl
      rw [generate, if_pos rfl] at hg
      cases hg
      exact absurd hstatus (by decide)
    have hfull := getLength_toNat h
    by_cases htnf : r.tnf = tnfEmpty
    · rw [generate_empty h htnf hnonzero hroom] at hg
      cases hg
      obtain ⟨hpayloadLength, hidLength⟩ := h.empty htnf
      have hexact : r.fullLength = 2 + (if r.short then 1 else 4) + (if r.hasId then 1 else 0) := by
        rw [NdefRecord.fullLength, h.type_none (Or.inl htnf), hidLength, hpayloadLength]
        rfl
      have hfour : 4 = (getLength r).toNat := hlength
      rw [hfull, hexact] at hfour
      rw [hexact]
      cases hs : r.short <;> cases hi : r.hasId <;> simp [hs, hi] at hfour ⊢
    · rw [generate_layout h htnf hnonzero hroom] at hg
      cases hg
      refine ⟨fun hempty => absurd hempty htnf, ?_⟩
      have hwhole : r.encode.length = (getLength r).toNat := hlength
      rw [length_encode h, hfull] at hwhole
      have hlt : r.fullLength % 2 ^ 32 < 2 ^ 32 := Nat.mod_lt _ (by decide)
      omega
  · rintro ⟨hempty, hfits⟩
    have hnonzero := getLength_nonzero h hfits hroom
    by_cases htnf : r.tnf = tnfEmpty
    · obtain ⟨hshort, hid⟩ := hempty htnf
      apply roundTrips_of_encode h hfits (generate_empty h htnf hnonzero hroom)
      rw [encode_empty h htnf hshort hid]
    · exact roundTrips_of_encode h hfits (generate_layout h htnf hnonzero hroom) rfl

def exampleRecord : NdefRecord where
  flags := flagsMb ||| flagsSr ||| flagsIl
  tnf := tnfNfcWellKnown
  typeLength := 2
  type := [0x48, 0x73]
  idLength := 1
  id := [0x30]
  payloadLength := 1
  payloadData := [0x12]

theorem exampleRecord_round_trip : RoundTrips exampleRecord 8 :=
  (roundTrips_iff exampleRecord 8
    ⟨by decide, by decide, by decide, by decide, by decide, by decide, by decide, by decide,
      by decide⟩ (by decide)).mpr ⟨by decide, by decide⟩

/-- An empty short record without an id field: three bytes are announced, four are written. -/
theorem empty_record_overruns :
    let record : NdefRecord := { NdefRecord.zero with flags := flagsMb ||| flagsSr }
    record.Valid ∧ getLength record ≤ 3 ∧ ¬RoundTrips record 3 := by
  refine ⟨⟨by decide, by decide, by decide, by decide, by decide, by decide, by decide, by decide,
    by decide⟩, by decide, ?_⟩
  rintro ⟨g, p, hg, -, -, hlength, -⟩
  have hgen : generate { NdefRecord.zero with flags := flagsMb ||| flagsSr } 3 =
      some ⟨0, [0x90, 0, 0, 0], some 3⟩ := by decide
  rw [hgen] at hg
  cases hg
  exact absurd hlength (by decide)

end Generate

end OpenwrtMtk.Nfc
