import OpenwrtMtk.Lib.Walk
import OpenwrtMtk.Nfc.Handover

/-!
# What the handover parsers touch

The parsers of received messages in `mtk_app_handover.c` with every access to memory checked. A
pointer into the message is an offset in it, which a signed index may take below zero, and a record
keeps no pointer to its id, which nothing here reads. A carrier's output buffer is the bytes that
have been copied to it. Comparisons stop at the first difference, and the caller's arrays are clear
and have a place for each radio.
-/

namespace OpenwrtMtk.Nfc.Access

open Toolkit

set_option autoImplicit false

def payloadLength : Nat := 512

/-- `mtk_nfcho_ndefrecord_t` and the status of the call that fills it. -/
structure RecordAt where
  status : Int
  flags : U8
  tnf : U8
  typeLength : U8
  type : Nat
  idLength : U8
  payloadLength : U32
  payloadData : Nat
  deriving DecidableEq

/-- The record behind a header at `off` that says these lengths. -/
def recordOf (header : U8) (off : Nat) (status : Int) (l : Lengths) : RecordAt :=
  let type := off + l.payloadLengthByte + l.idLengthByte + l.typeLengthByte + 1
  { status
    flags := recordFlag header
    tnf := header &&& tnfByteMask
    typeLength := l.typeLength
    type
    idLength := l.idLength
    payloadLength := l.payloadLength
    payloadData := type + l.typeLength.toNat + l.idLength.toNat }

/-- `mtk_nfchod_NdefRecord_Parse`. -/
def parse (message : List U8) (off : Int) : Checked RecordAt :=
  if off < 0 then .error .outside
  else do
    let raw := message.drop off.toNat
    let header ← orOutside raw[0]?
    let (status, l) ← orOutside (recordIdCheck raw)
    .ok (recordOf header off.toNat status l)

/-- `memcpy` of `n` bytes at `off`. -/
def copyAt (message : List U8) (off n : Nat) : Checked (List U8) :=
  if n = 0 then .ok [] else load message off n

section Attributes

def swappedAt (data : List U8) (index : Nat) : Checked U16 := do
  let bytes ← load data index 2
  .ok (bytes.getD 0 0 ++ bytes.getD 1 0)

def dataTypeOf (type : U16) : Option RadioDataType :=
  if type = 0x102c then some .passwd
  else if isBeamplus type then some .beamplus
  else if type = 0x100e then some .config
  else none

def nextIndex (index : Nat) (l : U16) : Nat := (index + 4 + l.toNat) % 2 ^ 16

def attributeTurn (data : List U8) (tokenLength : U16) (index : Nat) :
    Checked (Turn Unit RadioDataType) :=
  if index < tokenLength.toNat then do
    let type ← swappedAt data index
    match dataTypeOf type with
    | some dataType => .ok (.stop dataType)
    | none => do
      let l ← swappedAt data ((index + 2) % 2 ^ 16)
      .ok (.next (nextIndex index l) ())
  else .ok (.stop .default)

/-- `mtk_nfcho_handover_radio_payload_parse`. -/
def radioPayloadParse (radioType : U8) (data : List U8) (length : U16) : Checked RadioDataType :=
  if radioType = RadioType.wifiWps.code then do
    let r ← walk (attributeTurn data length) (2 ^ 16 + 1) 0
    .ok r.2
  else .ok .default

end Attributes

section Carriers

def radios : List RadioType := [.wifiWps, .bt, .wifiDirect, .wifiFc]

def clearOutputs : Outputs where
  num := 0
  receivedRandom := 0
  outData := List.replicate radioEnd []
  outLength := List.replicate radioEnd 0
  radio := List.replicate radioEnd 0xff
  carrierId := List.replicate radioEnd 0xff

def storeAc (message : List U8) (isAc : RecordAt → Option Bool) (ac : RecordAt) (idx : Nat)
    (o : Outputs) : Checked Outputs := do
  if ← orOutside (isAc ac) then do
    let radio ← loadByte message ac.payloadData
    let carrierId ← loadByte message (ac.payloadData + 2)
    .ok { o with radio := o.radio.set idx radio, carrierId := o.carrierId.set idx carrierId }
  else .ok o

/-- Where the record behind `r`, which is at `acIdx` of the payload, is expected. -/
def nextAc (acIdx : U32) (r : RecordAt) : U32 :=
  acIdx + r.typeLength.setWidth 32 + r.payloadLength + 3

/-- The records that refer to the carriers, in the payload at `payload`. -/
def acLoop (message : List U8) (isAc : RecordAt → Option Bool) (payload : Nat) (acLength : U32) :
    Nat → U32 → Nat → Outputs → Checked (Nat × Outputs)
  | 0, _, idx, o => .ok (idx, o)
  | turns + 1, acIdx, idx, o =>
    if acIdx.slt acLength then do
      let ac ← parse message (payload + acIdx.toInt)
      let o ← storeAc message isAc ac idx o
      acLoop message isAc payload acLength turns (nextAc acIdx ac) (idx + 1) o
    else .ok (idx, o)

/-- The payload and its length, which stay what they are when it is empty. -/
def payloadOf (message : List U8) (ndef : RecordAt) (idx : Nat) (o : Outputs) :
    Checked (List U8 × U16) :=
  if ndef.payloadLength ≠ 0 then do
    let payload ← load message ndef.payloadData ndef.payloadLength.toNat
    .ok (payload, ndef.payloadLength.setWidth 16)
  else .ok (o.outData.getD idx [], o.outLength.getD idx 0)

/-- One turn of the loop over the carriers: the record is always the one at `checkLength`. -/
def carrierStep (message : List U8) (checkLength : U32) (o : Outputs) (idx : Nat) :
    Checked Outputs := do
  let ndef ← parse message checkLength.toInt
  let found ← orOutside (findRadio (message.drop ndef.type) radios)
  let (payload, length) ← payloadOf message ndef idx o
  let dataType ← radioPayloadParse found payload length
  let radio := if dataType = .beamplus then RadioType.wifiFc.code else found
  .ok { o with
    radio := o.radio.set idx radio
    outData := o.outData.set idx payload
    outLength := o.outLength.set idx length }

def parseCarriers (message : List U8) (checkLength : U32) (num : Nat) (o : Outputs) :
    Checked (Int × Outputs) :=
  if num = 0 then .ok (-1, o)
  else do
    let o ← (List.range num).foldlM (carrierStep message checkLength)
      { o with num := BitVec.ofNat 8 num }
    .ok (0, o)

/-- `CheckLength`: where the records of the carriers begin. -/
def checkLength (ndef : RecordAt) : U32 := ndef.typeLength.setWidth 32 + ndef.payloadLength + 3

def selectIs (message : List U8) (name : List U8) (r : RecordAt) : Option Bool :=
  strncmpEq (message.drop r.type) (name ++ [0]) r.typeLength.toNat

def requestIs (message : List U8) (name : List U8) (r : RecordAt) : Option Bool :=
  memcmpEq (message.drop r.type) name r.typeLength.toNat

/-- `mtk_nfcho_handover_select_parse`. -/
def selectParse (message : List U8) : Checked (Int × Outputs) :=
  if message.length = 0 then .ok (-4, clearOutputs)
  else do
    let ndef ← parse message 0
    if ← orOutside (selectIs message typeHs ndef) then do
      let hoVer ← loadByte message ndef.payloadData
      if hoVer = hoVersion then do
        let (num, o) ← acLoop message (selectIs message typeAc) ndef.payloadData
          ndef.payloadLength radioEnd 1 0 clearOutputs
        parseCarriers message (checkLength ndef) num o
      else .ok (-2, clearOutputs)
    else .ok (-3, clearOutputs)

def crStep (message : List U8) (payload : Nat) (acLength : U32) : Checked (Option (U32 × U16)) :=
  if (1 : U32).slt acLength then do
    let cr ← parse message (payload + 1)
    if ← orOutside (requestIs message typeCr cr) then do
      let bytes ← load message cr.payloadData 2
      .ok (some (nextAc 1 cr, bytes.getD 1 0 ++ bytes.getD 0 0))
    else .ok none
  else .ok none

/-- `mtk_nfcho_handover_request_parse`. -/
def requestParse (message : List U8) : Checked (Int × Outputs) :=
  if message.length = 0 then .ok (-4, clearOutputs)
  else do
    let ndef ← parse message 0
    if ← orOutside (requestIs message typeHr ndef) then do
      let hoVer ← loadByte message ndef.payloadData
      if hoVer = hoVersion then do
        match ← crStep message ndef.payloadData ndef.payloadLength with
        | none => .ok (-1, clearOutputs)
        | some (acIdx, receivedRandom) => do
          let (num, o) ← acLoop message (requestIs message typeAc) ndef.payloadData
            ndef.payloadLength radioEnd acIdx 0 { clearOutputs with receivedRandom }
          parseCarriers message (checkLength ndef) num o
      else .ok (-2, clearOutputs)
    else .ok (-3, clearOutputs)

end Carriers

section Token

def hoTxtRtd : U8 := 0xe1
def hoUriRtd : U8 := 0xe2
def hoWpscfType : U8 := 0xf1
def hoWpspdType : U8 := 0xf2
def hoBtsType : U8 := 0xf6

/-- What `mtk_nfcho_service_event_handle` is given; the memory of `data` goes on behind the
length where it is that of the message. -/
structure Event where
  kind : U8
  typeLength : U16
  length : U16
  data : List U8
  deriving DecidableEq

/-- The first radio whose type the record has, unless its payload is empty. -/
def findToken (message : List U8) (ndef : RecordAt) : List RadioType → Option (Option RadioType)
  | [] => some none
  | radio :: radios => do
    let same ← strncmpEq (message.drop ndef.type) (radio.mime ++ [0]) ndef.typeLength.toNat
    if same ∧ ndef.typeLength.toNat = radio.mime.length ∧ ndef.payloadLength ≠ 0 then
      some (some radio)
    else findToken message ndef radios

def radioKind (radio : RadioType) (dataType : RadioDataType) : U8 :=
  match radio, dataType with
  | .wifiWps, .passwd => hoWpspdType
  | .bt, _ => hoBtsType
  | _, _ => hoWpscfType

/-- A record of the type of a radio: its payload is copied to the token buffer. -/
def radioRecord (message : List U8) (ndef : RecordAt) (radio : RadioType) : Checked Event := do
  let payload ← load message ndef.payloadData ndef.payloadLength.toNat
  let tokenData ← Toolkit.store (List.replicate payloadLength 0) 0 payload
  let tokenLength : U16 := ndef.payloadLength.setWidth 16
  let dataType ← radioPayloadParse radio.code tokenData tokenLength
  .ok ⟨radioKind radio dataType, 0, tokenLength, tokenData⟩

def letterOf (message : List U8) (ndef : RecordAt) : Checked (Option U8) :=
  if ndef.tnf = tnfNfcWellKnown then do
    let letter ← loadByte message ndef.type
    .ok (if ndef.typeLength = 1 then some letter else none)
  else .ok none

/-- A record of another type: a text, a URI or the type and the payload as they are. -/
def commonRecord (message : List U8) (ndef : RecordAt) : Checked Event := do
  let letter ← letterOf message ndef
  let length : U16 := ndef.payloadLength.setWidth 16
  if letter = some 0x54 then .ok ⟨hoTxtRtd, 0, length, message.drop ndef.payloadData⟩
  else if letter = some 0x55 then .ok ⟨hoUriRtd, 0, length, message.drop ndef.payloadData⟩
  else do
    let type ← copyAt message ndef.type ndef.typeLength.toNat
    let payload ← copyAt message ndef.payloadData ndef.payloadLength.toNat
    .ok ⟨ndef.tnf, ndef.typeLength.setWidth 16, length + ndef.typeLength.setWidth 16,
      type ++ payload⟩

def tokenRecord (message : List U8) (ndef : RecordAt) : Checked Event := do
  match ← orOutside (findToken message ndef radios) with
  | some radio => radioRecord message ndef radio
  | none => commonRecord message ndef

def nextData (dataIdx : Nat) (ndef : RecordAt) : Nat :=
  let idx := BitVec.ofNat 32 dataIdx + ndef.payloadLength + ndef.typeLength.setWidth 32
  if ndef.flags &&& flagsIl = flagsIl then (idx + ndef.idLength.setWidth 32 + 4).toNat
  else (idx + 3).toNat

/-- A record that is refused leaves the index where it is. When the loop is left, the last record
has been parsed. -/
def tokenTurn (message : List U8) (dataIdx : Nat) : Checked (Turn (List Event) Int) :=
  if dataIdx < message.length then do
    let ndef ← parse message dataIdx
    if ndef.status = 0 then do
      let event ← tokenRecord message ndef
      .ok (.next (nextData dataIdx ndef) [event])
    else .ok (.next dataIdx [])
  else .ok (.stop 0)

/-- `mtk_nfcho_handover_token_parse` -/
def tokenParse (message : List U8) : Checked (Int × List Event) :=
  if message.length = 0 then .ok (-1, [])
  else do
    let r ← walk (tokenTurn message) (message.length + 1) 0
    .ok (r.2, r.1.flatten)

end Token

end OpenwrtMtk.Nfc.Access
