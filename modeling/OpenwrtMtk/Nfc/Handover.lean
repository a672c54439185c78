import OpenwrtMtk.Nfc.Ndef
import OpenwrtMtk.Nfc.NdefRoundTrip

/-!
# Handover messages

The builders and parsers of handover select and handover request messages in
`mtk_app_handover.c`. A message is a first record, in whose payload there is one record for each
carrier (and in a request the collision resolution record before them), and then one record for each
carrier itself. The arrays of the caller that a parser fills are `Outputs`; a store beyond an array
or a read beyond the memory has no result.
-/

namespace OpenwrtMtk.Nfc

open Toolkit

set_option autoImplicit false

def hoVersion : U8 := 0x12
def defaultAcceptableLength : Nat := 1024
def acDataSize : Nat := 128

/-- `MTK_NFCHO_RADIO_TYPE`. -/
inductive RadioType where
  | wifiWps | bt | wifiDirect | wifiFc
  deriving DecidableEq

def RadioType.code : RadioType → U8
  | .wifiWps => 0
  | .bt => 1
  | .wifiDirect => 2
  | .wifiFc => 3

/-- `MTK_NFCHO_RADIO_END`, which both parsers are called with as `MaxNum`. -/
def radioEnd : Nat := 4

def mimeWsc : List U8 :=
  [0x61, 0x70, 0x70, 0x6c, 0x69, 0x63, 0x61, 0x74, 0x69, 0x6f, 0x6e, 0x2f, 0x76, 0x6e, 0x64, 0x2e,
    0x77, 0x66, 0x61, 0x2e, 0x77, 0x73, 0x63]

def mimeBluetooth : List U8 :=
  [0x61, 0x70, 0x70, 0x6c, 0x69, 0x63, 0x61, 0x74, 0x69, 0x6f, 0x6e, 0x2f, 0x76, 0x6e, 0x64, 0x2e,
    0x62, 0x6c, 0x75, 0x65, 0x74, 0x6f, 0x6f, 0x74, 0x68, 0x2e, 0x65, 0x70, 0x2e, 0x6f, 0x6f, 0x62]

def mimeP2p : List U8 :=
  [0x61, 0x70, 0x70, 0x6c, 0x69, 0x63, 0x61, 0x74, 0x69, 0x6f, 0x6e, 0x2f, 0x76, 0x6e, 0x64, 0x2e,
    0x77, 0x66, 0x61, 0x2e, 0x70, 0x32, 0x70]

/-- `g_RadioType`. -/
def RadioType.mime : RadioType → List U8
  | .wifiWps => mimeWsc
  | .bt => mimeBluetooth
  | .wifiDirect => mimeP2p
  | .wifiFc => mimeWsc

def typeHs : List U8 := [0x48, 0x73]
def typeHr : List U8 := [0x48, 0x72]
def typeAc : List U8 := [0x61, 0x63]
def typeCr : List U8 := [0x63, 0x72]

section Build

/-- A carrier of the caller: its power state, its radio type and its data. -/
structure Carrier where
  power : U8
  radio : RadioType
  payload : List U8
  deriving DecidableEq

def wellKnown (flags : U8) (type payload : List U8) : NdefRecord where
  flags := flags ||| flagsSr
  tnf := tnfNfcWellKnown
  typeLength := BitVec.ofNat 8 type.length
  type := type
  idLength := 0
  id := []
  payloadLength := BitVec.ofNat 32 payload.length
  payloadData := payload

/-- The reference to carrier `idx`. -/
def refData (idx : Nat) : U8 := 0x30 ||| BitVec.ofNat 8 idx

def acRecord (flags : U8) (idx : Nat) (power : U8) : NdefRecord :=
  wellKnown flags typeAc [power, 1, refData idx, 0]

def randomBytes (random : U16) : List U8 := [random.setWidth 8, (random >>> 8).setWidth 8]

def crRecord (random : U16) : NdefRecord := wellKnown flagsMb typeCr (randomBytes random)

/-- The record of carrier `idx` of `num`. -/
def carrierRecord (num idx : Nat) (c : Carrier) : NdefRecord where
  flags := (if c.payload.length < 256 then flagsSr else 0) |||
    (if idx = num - 1 then flagsMe else 0) ||| flagsIl
  tnf := tnfMediaType
  typeLength := BitVec.ofNat 8 c.radio.mime.length
  type := c.radio.mime
  idLength := 1
  id := [refData idx]
  payloadLength := BitVec.ofNat 32 c.payload.length
  payloadData := c.payload

/-- Generate the records one behind the other in a buffer of `cap` bytes. The status is that of the
last one; a record that does not fit is left out. No record here is an empty one, so that what is
written is what is counted. -/
def generateAll (cap : Nat) : List NdefRecord → Int × List U8 → Option (Int × List U8)
  | [], r => some r
  | record :: records, (_, out) => do
    let g ← generate record (BitVec.ofNat 32 (cap - out.length))
    generateAll cap records (g.status, out ++ g.out)

/-- What a builder returns, and the message when it sets the length of one. -/
structure Built where
  status : Int
  message : Option (List U8)
  deriving DecidableEq

/-- The first record with the records `inner` in its payload, and the records of the carriers. -/
def handoverBuild (type : List U8) (inner : List NdefRecord) (carriers : List Carrier) :
    Option Built :=
  if carriers.length = 0 then some ⟨-4, none⟩
  else do
    let (_, acData) ← generateAll acDataSize inner (0, [hoVersion])
    let first := wellKnown flagsMb type acData
    let (status, message) ← generateAll defaultAcceptableLength
      (first :: carriers.mapIdx (carrierRecord carriers.length)) (0, [])
    some ⟨status, some message⟩

/-- The flags of the record for carrier `idx` of `num`; only a select message marks the first. -/
def acFlags (marksFirst : Bool) (num idx : Nat) : U8 :=
  (if idx = num - 1 then flagsMe else 0) ||| (if marksFirst ∧ idx = 0 then flagsMb else 0)

def acRecords (marksFirst : Bool) (carriers : List Carrier) : List NdefRecord :=
  carriers.mapIdx fun idx c => acRecord (acFlags marksFirst carriers.length idx) idx c.power

/-- `mtk_nfcho_handover_select_build`. -/
def selectBuild (carriers : List Carrier) : Option Built :=
  handoverBuild typeHs (acRecords true carriers) carriers

/-- `mtk_nfcho_handover_request_build`; `random` is what `rand` gives. -/
def requestBuild (random : U16) (carriers : List Carrier) : Option Built :=
  handoverBuild typeHr (crRecord random :: acRecords false carriers) carriers

end Build

section Parse

/-- `memcmp` is zero; the first difference decides. -/
def memcmpEq : List U8 → List U8 → Nat → Option Bool
  | _, _, 0 => some true
  | x :: xs, y :: ys, n + 1 => if x = y then memcmpEq xs ys n else some false
  | _, _, _ + 1 => none

/-- `strncmp` is zero. -/
def strncmpEq : List U8 → List U8 → Nat → Option Bool
  | _, _, 0 => some true
  | x :: xs, y :: ys, n + 1 =>
    if x ≠ y then some false else if x = 0 then some true else strncmpEq xs ys n
  | _, _, _ + 1 => none

def store {α : Type} (xs : List α) (i : Nat) (a : α) : Option (List α) :=
  if i < xs.length then some (xs.set i a) else none

/-- A pointer moved by a signed index. -/
def offsetBy (pointer : List U8) (idx : U32) : Option (List U8) :=
  if idx.msb then none else some (pointer.drop idx.toNat)

/-- `MTK_NFCHO_RADIODTAT_TYPE`. -/
inductive RadioDataType where
  | default | config | passwd | beamplus
  deriving DecidableEq

def swappedAt (data : List U8) (index : U16) : Option U16 := do
  let hi ← data[index.toNat]?
  let lo ← data[index.toNat + 1]?
  some (hi ++ lo)

def isBeamplus (type : U16) : Prop :=
  type = 0x5001 ∨ type = 0x5002 ∨ type = 0x5003 ∨ type = 0x5004 ∨ type = 0x5005 ∨ type = 0x5006

instance (type : U16) : Decidable (isBeamplus type) := by
  unfold isBeamplus
  infer_instance

/-- The attributes from `index` on. An index that is met again is met for ever, so that a loop which
takes more turns than there are indices has no result. -/
def attributeLoop (data : List U8) (tokenLength : U16) : Nat → U16 → Option RadioDataType
  | 0, _ => none
  | fuel + 1, index =>
    if index < tokenLength then do
      let type ← swappedAt data index
      if type = 0x102c then some .passwd
      else if isBeamplus type then some .beamplus
      else if type = 0x100e then some .config
      else do
        let l ← swappedAt data (index + 2)
        attributeLoop data tokenLength fuel (index + 2 + 2 + l)
    else some .default

/-- `mtk_nfcho_handover_radio_payload_parse`. -/
def radioPayloadParse (radioType : U8) (data : List U8) (length : U16) : Option RadioDataType :=
  if radioType = RadioType.wifiWps.code then attributeLoop data length (2 ^ 16 + 1) 0
  else some .default

/-- The arrays that a parser fills. -/
structure Outputs where
  num : U8
  receivedRandom : U16
  outData : List (List U8)
  outLength : List U16
  radio : List U8
  carrierId : List U8
  deriving DecidableEq

/-- The records that refer to the carriers. The loop counts all of them, and stores what those say
that are of the right type. -/
def acLoop (isAc : NdefRecord → Option Bool) (payload : List U8) (acLength : U32) :
    Nat → U32 → Nat → Outputs → Option (Nat × Outputs)
  | 0, _, idx, o => some (idx, o)
  | fuel + 1, acIdx, idx, o =>
    if acIdx.slt acLength then do
      let (_, ac) ← parse .zero (← offsetBy payload acIdx)
      let o ← storeAc ac idx o
      acLoop isAc payload acLength fuel
        (acIdx + ac.typeLength.setWidth 32 + ac.payloadLength + 3) (idx + 1) o
    else some (idx, o)
where
  storeAc (ac : NdefRecord) (idx : Nat) (o : Outputs) : Option Outputs := do
    if ← isAc ac then do
      let radio ← store o.radio idx (← ac.payloadData[0]?)
      let carrierId ← store o.carrierId idx (← ac.payloadData[2]?)
      some { o with radio, carrierId }
    else some o

def findRadio (type : List U8) : List RadioType → Option U8
  | [] => some 0xff
  | radio :: radios => do
    if ← memcmpEq type radio.mime radio.mime.length then some radio.code
    else findRadio type radios

/-- The payload is copied to the buffer of carrier `idx`, unless it is empty. -/
def storePayload (ndef : NdefRecord) (idx : Nat) (o : Outputs) : Option Outputs :=
  if ndef.payloadLength ≠ 0 then do
    let payload ← bytesAt ndef.payloadData ndef.payloadLength.toNat
    let buffer ← o.outData[idx]?
    if buffer.length < payload.length then none
    else do
      let outLength ← store o.outLength idx (ndef.payloadLength.setWidth 16)
      some { o with outData := o.outData.set idx (overwrite buffer 0 payload), outLength }
  else some o

/-- One turn of the loop over the carriers: the record is always the one at `checkLength`. -/
def carrierStep (data : List U8) (checkLength : U32) (o : Outputs) (idx : Nat) :
    Option Outputs := do
  let (_, ndef) ← parse .zero (← offsetBy data checkLength)
  let found ← findRadio ndef.type [.wifiWps, .bt, .wifiDirect, .wifiFc]
  let o ← storePayload ndef idx { o with radio := ← store o.radio idx found }
  let dataType ← radioPayloadParse found (← o.outData[idx]?) (← o.outLength[idx]?)
  if dataType = .beamplus then some { o with radio := o.radio.set idx RadioType.wifiFc.code }
  else some o

/-- The carriers, when the loop over their references has found `num` of them. -/
def parseCarriers (data : List U8) (checkLength : U32) (num : Nat) (o : Outputs) :
    Option (Int × Outputs) :=
  if num = 0 then some (-1, o)
  else do
    let o ← (List.range num).foldlM (carrierStep data checkLength)
      { o with num := BitVec.ofNat 8 num }
    some (0, o)

/-- `CheckLength`: where the records of the carriers begin. -/
def checkLength (ndef : NdefRecord) : U32 := ndef.typeLength.setWidth 32 + ndef.payloadLength + 3

def selectIsAc (ac : NdefRecord) : Option Bool :=
  strncmpEq ac.type (typeAc ++ [0]) ac.typeLength.toNat

def requestIsAc (ac : NdefRecord) : Option Bool := memcmpEq ac.type typeAc ac.typeLength.toNat

/-- `mtk_nfcho_handover_select_parse`. -/
def selectParse (data : List U8) (o : Outputs) : Option (Int × Outputs) :=
  if data.length = 0 then some (-4, o)
  else do
    let (_, ndef) ← parse .zero data
    if ← strncmpEq ndef.type (typeHs ++ [0]) ndef.typeLength.toNat then do
      let hoVer ← ndef.payloadData[0]?
      if hoVer = hoVersion then do
        let (num, o) ← acLoop selectIsAc ndef.payloadData ndef.payloadLength radioEnd 1 0 o
        parseCarriers data (checkLength ndef) num o
      else some (-2, o)
    else some (-3, o)

/-- The collision resolution record, which has to be the first one. -/
def crStep (payload : List U8) (acLength : U32) (o : Outputs) :
    Option (Option U32 × Outputs) :=
  if (1 : U32).slt acLength then do
    let (_, cr) ← parse .zero (← offsetBy payload 1)
    if ← memcmpEq cr.type typeCr cr.typeLength.toNat then do
      let lo ← cr.payloadData[0]?
      let hi ← cr.payloadData[1]?
      some (some (1 + cr.typeLength.setWidth 32 + cr.payloadLength + 3),
        { o with receivedRandom := hi ++ lo })
    else some (none, o)
  else some (none, o)

/-- `mtk_nfcho_handover_request_parse`. -/
def requestParse (data : List U8) (o : Outputs) : Option (Int × Outputs) :=
  if data.length = 0 then some (-4, o)
  else do
    let (_, ndef) ← parse .zero data
    if ← memcmpEq ndef.type typeHr ndef.typeLength.toNat then do
      let hoVer ← ndef.payloadData[0]?
      if hoVer = hoVersion then do
        match ← crStep ndef.payloadData ndef.payloadLength o with
        | (none, o) => some (-1, o)
        | (some acIdx, o) => do
          let (num, o) ← acLoop requestIsAc ndef.payloadData ndef.payloadLength radioEnd acIdx 0 o
          parseCarriers data (checkLength ndef) num o
      else some (-2, o)
    else some (-3, o)

end Parse

end OpenwrtMtk.Nfc

/-!
## The layout of a handover message

What the builders generate, record by record, and what the parser of a record makes of each of them.
-/

namespace OpenwrtMtk.Nfc

open Toolkit

set_option autoImplicit false

section Records

variable {flags a b : U8} {type payload rest : List U8} {c : Carrier} {num idx : Nat}

def MessageFlags (flags : U8) : Prop := flags &&& 0xc0 = flags

theorem messageFlags_mask : ∀ flags : U8, MessageFlags flags →
    (flags ||| flagsSr) &&& flagMask = flags ||| flagsSr ∧
      (flags ||| flagsSr) &&& flagsSr ≠ 0 ∧ (flags ||| flagsSr) &&& flagsIl = 0 := by
  unfold MessageFlags
  decide +kernel

theorem messageFlags_mb : MessageFlags flagsMb := by
  unfold MessageFlags
  decide

theorem wellKnown_ne_empty : (wellKnown flags type payload).tnf ≠ tnfEmpty :=
  (by decide : tnfNfcWellKnown ≠ tnfEmpty)

theorem messageFlags_ac (marksFirst : Bool) : MessageFlags (acFlags marksFirst num idx) := by
  unfold MessageFlags acFlags
  split <;> split <;> decide

section WellKnown

variable (hflags : MessageFlags flags) (hpayload : payload.length < 256)

include hflags in
theorem short_wellKnown : (wellKnown flags type payload).short = true := by
  rw [NdefRecord.short, decide_eq_true_iff]
  exact (messageFlags_mask flags hflags).2.1

include hflags in
theorem hasId_wellKnown : (wellKnown flags type payload).hasId = false := by
  rw [NdefRecord.hasId, decide_eq_false_iff_not, not_not]
  exact (messageFlags_mask flags hflags).2.2

include hflags hpayload in
theorem valid_wellKnown (htype : type.length < 256) : (wellKnown flags type payload).Valid := by
  have htypeLength : (wellKnown flags type payload).typeLength.toNat = type.length := by
    rw [wellKnown, BitVec.toNat_ofNat, Nat.mod_eq_of_lt htype]
  have hpayloadLength : (wellKnown flags type payload).payloadLength.toNat = payload.length := by
    rw [wellKnown, BitVec.toNat_ofNat, Nat.mod_eq_of_lt (by omega)]
  have htnf : ¬(tnfNfcWellKnown = tnfEmpty ∨ tnfNfcWellKnown = tnfUnknown ∨
      tnfNfcWellKnown = tnfUnchanged) := by decide
  constructor
  · exact (by decide : tnfNfcWellKnown.toNat ≤ 6)
  · exact (messageFlags_mask flags hflags).1
  · intro _
    rw [hpayloadLength]
    exact hpayload
  · intro _
    rfl
  · exact fun h => absurd h htnf
  · exact fun h => absurd (Or.inl h) htnf
  · exact Nat.le_of_eq htypeLength
  · exact Nat.zero_le _
  · exact Nat.le_of_eq hpayloadLength

include hflags hpayload in
theorem length_wellKnown (htype : type.length < 256) :
    (wellKnown flags type payload).encode.length = 3 + type.length + payload.length := by
  rw [length_encode (valid_wellKnown hflags hpayload htype), NdefRecord.fullLength,
    short_wellKnown hflags, hasId_wellKnown hflags]
  simp only [wellKnown, BitVec.toNat_ofNat, Nat.mod_eq_of_lt htype,
    Nat.mod_eq_of_lt (show payload.length < 2 ^ 32 by omega)]
  simp

include hflags hpayload in
theorem parse_wellKnown :
    parse .zero ((wellKnown flags [a, b] payload).encode ++ rest) = some (0, {
      wellKnown flags [a, b] payload with
      type := a :: b :: (payload ++ rest)
      payloadData := payload ++ rest }) := by
  have htype : [a, b].length < 256 := by
    rw [List.length_cons, List.length_singleton]
    omega
  have hbytes : (wellKnown flags [a, b] payload).payloadBytes = payload := by
    rw [NdefRecord.payloadBytes, wellKnown, BitVec.toNat_ofNat, Nat.mod_eq_of_lt (by omega),
      List.take_length]
  rw [parse_encode (valid_wellKnown hflags hpayload htype), NdefRecord.parsed, hbytes]
  rfl

end WellKnown

theorem carrierFlags_mask (p q : Prop) [Decidable p] [Decidable q] :
    let flags := (if p then flagsSr else 0) ||| (if q then flagsMe else 0) ||| flagsIl
    flags &&& flagMask = flags ∧ (flags &&& flagsSr ≠ 0 ↔ p) ∧ flags &&& flagsIl ≠ 0 := by
  by_cases hp : p <;> by_cases hq : q <;> simp only [hp, hq, if_true, if_false] <;> decide

theorem hasId_carrierRecord : (carrierRecord num idx c).hasId = true := by
  rw [NdefRecord.hasId, decide_eq_true_iff]
  exact (carrierFlags_mask _ _).2.2

theorem short_carrierRecord : (carrierRecord num idx c).short = true ↔ c.payload.length < 256 := by
  rw [NdefRecord.short, decide_eq_true_iff]
  exact (carrierFlags_mask _ _).2.1

theorem length_mime (radio : RadioType) : radio.mime.length < 256 := by
  cases radio <;> decide

theorem valid_carrierRecord (hpayload : c.payload.length < 2 ^ 32) :
    (carrierRecord num idx c).Valid := by
  have htypeLength : (carrierRecord num idx c).typeLength.toNat = c.radio.mime.length := by
    rw [carrierRecord, BitVec.toNat_ofNat, Nat.mod_eq_of_lt (length_mime c.radio)]
  have hpayloadLength : (carrierRecord num idx c).payloadLength.toNat = c.payload.length := by
    rw [carrierRecord, BitVec.toNat_ofNat, Nat.mod_eq_of_lt hpayload]
  have htnf : ¬(tnfMediaType = tnfEmpty ∨ tnfMediaType = tnfUnknown ∨
      tnfMediaType = tnfUnchanged) := by decide
  constructor
  · exact (by decide : tnfMediaType.toNat ≤ 6)
  · exact (carrierFlags_mask _ _).1
  · intro hshort
    rw [hpayloadLength]
    exact short_carrierRecord.mp hshort
  · intro hno
    rw [hasId_carrierRecord] at hno
    cases hno
  · exact fun h => absurd h htnf
  · exact fun h => absurd (Or.inl h) htnf
  · exact Nat.le_of_eq htypeLength
  · exact Nat.le_refl 1
  · exact Nat.le_of_eq hpayloadLength

def carrierParsed (num idx : Nat) (c : Carrier) (rest : List U8) : NdefRecord :=
  { carrierRecord num idx c with
    type := c.radio.mime ++ (refData idx :: (c.payload ++ rest))
    id := refData idx :: (c.payload ++ rest)
    payloadData := c.payload ++ rest }

theorem parse_carrierRecord (hpayload : c.payload.length < 2 ^ 32) :
    parse .zero ((carrierRecord num idx c).encode ++ rest) =
      some (0, carrierParsed num idx c rest) := by
  have hbytes : (carrierRecord num idx c).payloadBytes = c.payload := by
    rw [NdefRecord.payloadBytes, carrierRecord, BitVec.toNat_ofNat, Nat.mod_eq_of_lt hpayload,
      List.take_length]
  have htype : (carrierRecord num idx c).typeBytes = c.radio.mime := by
    rw [NdefRecord.typeBytes, carrierRecord, BitVec.toNat_ofNat,
      Nat.mod_eq_of_lt (length_mime c.radio), List.take_length]
  rw [parse_encode (valid_carrierRecord hpayload), NdefRecord.parsed, hbytes, htype]
  rfl

end Records

section Generate

variable {cap : Nat} {records : List NdefRecord} {out : List U8}

theorem generateAll_eq (hcap : cap < 2 ^ 32)
    (hvalid : ∀ r ∈ records, r.Valid ∧ r.tnf ≠ tnfEmpty)
    (hfits : out.length + (records.flatMap NdefRecord.encode).length ≤ cap) :
    generateAll cap records (0, out) = some (0, out ++ records.flatMap NdefRecord.encode) := by
  induction records generalizing out with
  | nil =>
    rw [List.flatMap_nil, List.append_nil]
    rfl
  | cons r records ih =>
    obtain ⟨hr, htnf⟩ := hvalid r List.mem_cons_self
    rw [List.flatMap_cons, List.length_append] at hfits
    have hlength := length_encode hr
    have hroom : getLength r ≤ BitVec.ofNat 32 (cap - out.length) := by
      rw [BitVec.le_def, getLength_toNat hr, BitVec.toNat_ofNat, Nat.mod_eq_of_lt (by omega),
        Nat.mod_eq_of_lt (by omega)]
      omega
    have hnonzero := getLength_nonzero hr (by omega) hroom
    rw [generateAll, generate_layout hr htnf hnonzero hroom]
    simp only [Option.bind_eq_bind, Option.bind_some]
    rw [ih (fun r' h' => hvalid r' (List.mem_cons_of_mem r h'))
      (by rw [List.length_append]; omega), List.flatMap_cons, List.append_assoc]

def acData (inner : List NdefRecord) : List U8 := hoVersion :: inner.flatMap NdefRecord.encode

/-- The message with the records `inner` in the first one. -/
def message (type : List U8) (inner : List NdefRecord) (carriers : List Carrier) : List U8 :=
  (wellKnown flagsMb type (acData inner)).encode ++
    (carriers.mapIdx (carrierRecord carriers.length)).flatMap NdefRecord.encode

variable {inner : List NdefRecord} {carriers : List Carrier} {type : List U8}

theorem handoverBuild_eq (htype : type.length < 256)
    (hinner : ∀ r ∈ inner, r.Valid ∧ r.tnf ≠ tnfEmpty) (hac : (acData inner).length ≤ acDataSize)
    (hnonempty : carriers.length ≠ 0) (hpayload : ∀ c ∈ carriers, c.payload.length < 2 ^ 16)
    (hfits : (message type inner carriers).length ≤ defaultAcceptableLength) :
    handoverBuild type inner carriers = some ⟨0, some (message type inner carriers)⟩ := by
  have hinnerFits : [hoVersion].length + (inner.flatMap NdefRecord.encode).length ≤ acDataSize := by
    rw [List.length_singleton, Nat.add_comm]
    exact hac
  have hinnerBytes := generateAll_eq (by decide) hinner hinnerFits
  have hfirst : (acData inner).length < 256 := by
    have hsize : acDataSize < 256 := by decide
    omega
  have hvalid : ∀ r ∈ wellKnown flagsMb type (acData inner) ::
      carriers.mapIdx (carrierRecord carriers.length), r.Valid ∧ r.tnf ≠ tnfEmpty := by
    intro r hr
    rcases List.mem_cons.mp hr with rfl | hr
    · exact ⟨valid_wellKnown messageFlags_mb hfirst htype, wellKnown_ne_empty⟩
    · obtain ⟨idx, hidx, rfl⟩ := List.mem_mapIdx.mp hr
      have hlt := hpayload _ (List.getElem_mem hidx)
      exact ⟨valid_carrierRecord (by omega), (by decide : tnfMediaType ≠ tnfEmpty)⟩
  have hroom : ([] : List U8).length + ((wellKnown flagsMb type (acData inner) ::
      carriers.mapIdx (carrierRecord carriers.length)).flatMap NdefRecord.encode).length ≤
        defaultAcceptableLength := by
    rw [List.length_nil, Nat.zero_add]
    exact hfits
  have hcap : defaultAcceptableLength < 2 ^ 32 := by decide
  have hbytes := generateAll_eq hcap hvalid hroom
  rw [handoverBuild, if_neg hnonempty, hinnerBytes]
  simp only [Option.bind_eq_bind, Option.bind_some]
  change (generateAll defaultAcceptableLength
    (wellKnown flagsMb type (acData inner) :: carriers.mapIdx (carrierRecord carriers.length))
      (0, [])).bind _ = _
  rw [hbytes]
  rfl

end Generate

section References

variable {marksFirst : Bool} {carriers : List Carrier}

theorem length_acRecords : (acRecords marksFirst carriers).length = carriers.length :=
  List.length_mapIdx

theorem acRecords_getElem? (idx : Nat) :
    (acRecords marksFirst carriers)[idx]? = carriers[idx]?.map fun c =>
      acRecord (acFlags marksFirst carriers.length idx) idx c.power := List.getElem?_mapIdx

theorem mem_acRecords {r : NdefRecord} (h : r ∈ acRecords marksFirst carriers) :
    ∃ flags idx power, MessageFlags flags ∧ r = acRecord flags idx power := by
  obtain ⟨idx, hidx, rfl⟩ := List.mem_mapIdx.mp h
  exact ⟨_, idx, _, messageFlags_ac marksFirst, rfl⟩

theorem valid_acRecords :
    ∀ r ∈ acRecords marksFirst carriers, r.Valid ∧ r.tnf ≠ tnfEmpty := by
  intro r hr
  obtain ⟨flags, idx, power, hflags, rfl⟩ := mem_acRecords hr
  refine ⟨valid_wellKnown hflags ?_ ?_, ?_⟩
  · exact (by decide : 4 < 256)
  · exact (by decide : 2 < 256)
  · exact wellKnown_ne_empty

theorem length_acRecord :
    ∀ r ∈ acRecords marksFirst carriers, r.encode.length = 9 := by
  intro r hr
  obtain ⟨flags, idx, power, hflags, rfl⟩ := mem_acRecords hr
  rw [acRecord, length_wellKnown hflags]
  · rfl
  · exact (by decide : 4 < 256)
  · exact (by decide : 2 < 256)

theorem length_flatMap_const {α : Type} {f : α → List U8} {n : Nat} {xs : List α}
    (h : ∀ x ∈ xs, (f x).length = n) : (xs.flatMap f).length = n * xs.length := by
  induction xs with
  | nil => rfl
  | cons x xs ih =>
    rw [List.flatMap_cons, List.length_append, h x List.mem_cons_self,
      ih fun y hy => h y (List.mem_cons_of_mem x hy), List.length_cons, Nat.mul_succ, Nat.add_comm]

theorem drop_flatMap_const {α : Type} {f : α → List U8} {n : Nat} {xs : List α} (k : Nat)
    (h : ∀ x ∈ xs, (f x).length = n) : (xs.flatMap f).drop (n * k) = (xs.drop k).flatMap f := by
  induction k generalizing xs with
  | zero => rfl
  | succ k ih =>
    cases xs with
    | nil => exact List.drop_nil
    | cons x xs =>
      have hskip : n * (k + 1) = (f x).length + n * k := by
        rw [h x List.mem_cons_self, Nat.mul_succ, Nat.add_comm]
      rw [List.flatMap_cons, hskip, ← List.drop_drop, List.drop_left, List.drop_succ_cons]
      exact ih fun y hy => h y (List.mem_cons_of_mem x hy)

theorem valid_crRecord (random : U16) :
    (crRecord random).Valid ∧ (crRecord random).tnf ≠ tnfEmpty := by
  refine ⟨valid_wellKnown messageFlags_mb ?_ ?_, wellKnown_ne_empty⟩
  · exact (by decide : 2 < 256)
  · exact (by decide : 2 < 256)

theorem length_crRecord (random : U16) : (crRecord random).encode.length = 7 := by
  rw [crRecord, length_wellKnown messageFlags_mb]
  · rfl
  · exact (by decide : 2 < 256)
  · exact (by decide : 2 < 256)

theorem length_acData_select :
    (acData (acRecords true carriers)).length = 1 + 9 * carriers.length := by
  rw [acData, List.length_cons, length_flatMap_const length_acRecord, length_acRecords,
    Nat.add_comm]

theorem length_acData_request (random : U16) :
    (acData (crRecord random :: acRecords false carriers)).length = 8 + 9 * carriers.length := by
  rw [acData, List.length_cons, List.flatMap_cons, List.length_append, length_crRecord,
    length_flatMap_const length_acRecord, length_acRecords]
  omega

def selectMessage (carriers : List Carrier) : List U8 :=
  message typeHs (acRecords true carriers) carriers

def requestMessage (random : U16) (carriers : List Carrier) : List U8 :=
  message typeHr (crRecord random :: acRecords false carriers) carriers

/-- What the callers of a builder give it: as many carriers as there are radio types, with lengths
of 16 bits. -/
structure Buildable (carriers : List Carrier) : Prop where
  pos : 1 ≤ carriers.length
  le : carriers.length ≤ radioEnd
  payload_lt : ∀ c ∈ carriers, c.payload.length < 2 ^ 16

theorem selectBuild_eq (h : Buildable carriers)
    (hfits : (selectMessage carriers).length ≤ defaultAcceptableLength) :
    selectBuild carriers = some ⟨0, some (selectMessage carriers)⟩ := by
  have hle := h.le
  have hpos := h.pos
  refine handoverBuild_eq (by decide) valid_acRecords ?_ (by omega) h.payload_lt hfits
  rw [length_acData_select, acDataSize]
  rw [radioEnd] at hle
  omega

theorem requestBuild_eq {random : U16} (h : Buildable carriers)
    (hfits : (requestMessage random carriers).length ≤ defaultAcceptableLength) :
    requestBuild random carriers = some ⟨0, some (requestMessage random carriers)⟩ := by
  have hle := h.le
  have hpos := h.pos
  refine handoverBuild_eq (by decide) ?_ ?_ (by omega) h.payload_lt hfits
  · intro r hr
    rcases List.mem_cons.mp hr with rfl | hr
    · exact valid_crRecord random
    · exact valid_acRecords r hr
  · rw [length_acData_request, acDataSize]
    rw [radioEnd] at hle
    omega

end References

end OpenwrtMtk.Nfc
