import OpenwrtMtk.Nfc.Ndef

/-!
# SNEP

`mtk_nfcho_snep_msg_send` and `mtk_nfcho_snep_parse`. The globals of the module and the caller's
read status are a `Snep`; what a call sends and hands to the handover negotiation are its effects,
in their order. The negotiation itself is a parameter. A copy beyond an array has no result.
-/

namespace OpenwrtMtk.Nfc

open Toolkit

set_option autoImplicit false

def snepHeaderLength : Nat := 6
def snepVersionMajor : U8 := 0x01
def snepVersion : U8 := 0x10
def snepRequestContinue : U8 := 0x00
def snepRequestGet : U8 := 0x01
def snepRequestPut : U8 := 0x02
def snepResponseSuccess : U8 := 0x81
def snepResponseContinue : U8 := 0x80
def snepResponseNotFound : U8 := 0xc0
def snepResponseReject : U8 := 0xff
def snepResponseBadRequest : U8 := 0xc2
def snepResponseUnsupportedVersion : U8 := 0xe1
def snepResponseData : U8 := 0xfe

/-- `DEFAULT_ACCEPTABLE_LENGTH`, the size of `SnepReadData` and `SnepWriteData`. -/
def snepDataSize : Nat := 1024

/-- `MTK_NFC_LLCP_SERVICEROLE`. -/
inductive ServiceRole where
  | default | client | server
  deriving DecidableEq

structure Snep where
  readData : List U8
  readLength : U32
  writeData : List U8
  writeLength : U32
  maxLength : U32
  readStatus : U8
  deriving DecidableEq

inductive SnepEffect where
  /-- `mtk_nfcho_service_p2p_send_data`. -/
  | send (bytes : List U8)
  /-- `mtk_nfcho_handover_nego_mgt`. -/
  | nego (data : List U8)
  deriving DecidableEq

/-- What the negotiation returns and writes to the buffer it is given, which has room for it. -/
structure Negotiated where
  ret : Int
  answer : List U8
  fits : answer.length ≤ snepDataSize

/-- `mtk_nfcho_snep_msg_send`: the bytes of the message. -/
def snepMsgSend (field : U8) (length acceptableLength : U32) (data : List U8) :
    Option (List U8) := do
  let bytes ← bytesAt data length.toNat
  if field = snepResponseData then some bytes
  else if acceptableLength = 0 then some ([snepVersion, field] ++ longBytes length ++ bytes)
  else some ([snepVersion, field] ++ longBytes length ++ longBytes acceptableLength ++ bytes)

def snepControl (field : U8) : SnepEffect := .send ([snepVersion, field] ++ longBytes 0)

structure SnepResult where
  snep : Snep
  effects : List SnepEffect
  ret : Int

namespace Snep

/-- More of a message that has begun; the length to be reached is the one the call starts with. -/
def continueRead (s : Snep) (u1Data : List U8) : Option Snep :=
  if s.readLength.toNat + u1Data.length > snepDataSize then none
  else some { s with
    readData := overwrite s.readData s.readLength.toNat u1Data
    readLength := s.readLength + BitVec.ofNat 32 u1Data.length }

def beginRead (s : Snep) (u1Data : List U8) : Option Snep :=
  let payload := u1Data.drop snepHeaderLength
  if payload.length > snepDataSize then none
  else some { s with
    readData := overwrite (List.replicate snepDataSize 0) 0 payload
    readLength := BitVec.ofNat 32 payload.length }

def received (s : Snep) : List U8 := s.readData.take s.readLength.toNat

end Snep

section Parse

variable (nego : List U8 → Negotiated)

def reqLengthOf (u1Data : List U8) : U32 :=
  longOf (byteAt u1Data 2) (byteAt u1Data 3) (byteAt u1Data 4) (byteAt u1Data 5)

def acceptableLengthOf (u1Data : List U8) : U32 :=
  longOf (byteAt u1Data 6) (byteAt u1Data 7) (byteAt u1Data 8) (byteAt u1Data 9)

def versionSupported (u1Data : List U8) : Prop :=
  (byteAt u1Data 0 &&& 0xf0) >>> 4 = snepVersionMajor

instance (u1Data : List U8) : Decidable (versionSupported u1Data) := by
  unfold versionSupported
  infer_instance

/-- The server while a message is being read. `ReqLength` is zero: it is a local variable of the
call, which only the first part of a message sets. -/
def serverContinue (s : Snep) (u1Data : List U8) : Option SnepResult := do
  let reqLength : U32 := 0
  let s ← s.continueRead u1Data
  if s.readLength = reqLength then
    some ⟨{ s with readStatus := 1 }, [snepControl snepResponseSuccess, .nego s.received],
      (nego s.received).ret⟩
  else if s.readLength ≥ reqLength then
    some ⟨{ s with readStatus := 2 }, [snepControl snepResponseReject], 0⟩
  else some ⟨s, [], 0⟩

/-- `SNEP_REQUEST_GET`. -/
def serverGet (s : Snep) (u1Data : List U8) : Option SnepResult :=
  let zeros := List.replicate snepDataSize 0
  let s := { s with writeLength := 0, writeData := zeros }
  if u1Data.length > 10 then do
    let acceptableLength := acceptableLengthOf u1Data
    let negotiated := nego (u1Data.drop 10)
    let s := { s with
      writeLength := BitVec.ofNat 32 negotiated.answer.length
      writeData := overwrite zeros 0 negotiated.answer }
    let asked := SnepEffect.nego (u1Data.drop 10)
    if negotiated.ret = 0 then
      if acceptableLength ≥ s.writeLength ∧ s.writeLength > 0 then do
        let bytes ← snepMsgSend snepResponseSuccess s.writeLength 0 s.writeData
        some ⟨{ s with readStatus := 1 }, [asked, .send bytes], 0⟩
      else if acceptableLength < s.writeLength then do
        let bytes ← snepMsgSend snepResponseSuccess acceptableLength 0 s.writeData
        some ⟨{ s with maxLength := acceptableLength, readStatus := 3 }, [asked, .send bytes], 0⟩
      else some ⟨{ s with readStatus := 1 }, [asked, snepControl snepResponseNotFound], 0⟩
    else some ⟨{ s with readStatus := 2 }, [asked], -1⟩
  else some ⟨{ s with readStatus := 1 }, [snepControl snepResponseNotFound], 0⟩

/-- `SNEP_REQUEST_PUT`. -/
def serverPut (s : Snep) (u1Data : List U8) : Option SnepResult := do
  let s ← s.beginRead u1Data
  if reqLengthOf u1Data > s.readLength then
    some ⟨{ s with readStatus := 0 }, [snepControl snepResponseContinue], 0⟩
  else
    some ⟨{ s with readStatus := 1 }, [snepControl snepResponseSuccess, .nego s.received],
      (nego s.received).ret⟩

/-- `SNEP_REQUEST_CONTINUE`: the data is sent from `SnepWriteData + SnepWriteLength` on. -/
def serverContinueRequest (s : Snep) : Option SnepResult := do
  let bytes ← snepMsgSend snepResponseData (s.writeLength - s.maxLength) 0
    (s.writeData.drop s.writeLength.toNat)
  some ⟨{ s with readStatus := 1 }, [.send bytes], 0⟩

def serverRequest (s : Snep) (u1Data : List U8) : Option SnepResult :=
  if u1Data.length < snepHeaderLength then some ⟨s, [snepControl snepResponseReject], 0⟩
  else if ¬versionSupported u1Data then
    some ⟨s, [snepControl snepResponseUnsupportedVersion], 0⟩
  else
    let reqCmd := byteAt u1Data 1
    if reqCmd = snepRequestGet then serverGet nego s u1Data
    else if reqCmd = snepRequestPut then serverPut nego s u1Data
    else if reqCmd = snepRequestContinue then serverContinueRequest s
    else some ⟨{ s with readStatus := 2 }, [snepControl snepResponseBadRequest], 0⟩

/-- The client while a message is being read; `ReqLength` is zero as in the server. -/
def clientContinue (s : Snep) (u1Data : List U8) : Option SnepResult := do
  let reqLength : U32 := 0
  let s ← s.continueRead u1Data
  if s.readLength = reqLength then
    some ⟨{ s with readStatus := 1 }, [.nego s.received], (nego s.received).ret⟩
  else if s.readLength ≥ reqLength then some ⟨{ s with readStatus := 2 }, [], 0⟩
  else some ⟨s, [], 0⟩

/-- `SNEP_RESPONSE_SUCCESS`. -/
def clientSuccess (s : Snep) (u1Data : List U8) : Option SnepResult :=
  if u1Data.length = snepHeaderLength then
    some ⟨{ s with readData := List.replicate snepDataSize 0, readStatus := 1 }, [], 0⟩
  else do
    let s ← s.beginRead u1Data
    if reqLengthOf u1Data > s.readLength then
      some ⟨{ s with readStatus := 0 }, [snepControl snepRequestContinue], 0⟩
    else some ⟨{ s with readStatus := 1 }, [.nego s.received], (nego s.received).ret⟩

def clientResponse (s : Snep) (u1Data : List U8) : Option SnepResult :=
  if u1Data.length < snepHeaderLength then some ⟨s, [snepControl snepResponseReject], 0⟩
  else if ¬versionSupported u1Data then
    some ⟨s, [snepControl snepResponseUnsupportedVersion], 0⟩
  else
    let reqCmd := byteAt u1Data 1
    if reqCmd = snepResponseSuccess then clientSuccess nego s u1Data
    else if reqCmd = snepResponseContinue then some ⟨s, [], 0⟩
    else some ⟨{ s with readStatus := 2 }, [], 0⟩

/-- `EnSnep` is 0: the data is the message itself. -/
def withoutSnep (s : Snep) (u1Data : List U8) : Option SnepResult :=
  let negotiated := nego u1Data
  let s := { s with
    writeLength := BitVec.ofNat 32 negotiated.answer.length
    writeData := overwrite (List.replicate snepDataSize 0) 0 negotiated.answer }
  if negotiated.ret = 0 then do
    let bytes ← bytesAt s.writeData s.writeLength.toNat
    some ⟨{ s with readStatus := 1 }, [.nego u1Data, .send bytes], negotiated.ret⟩
  else some ⟨{ s with readStatus := 2 }, [.nego u1Data], negotiated.ret⟩

/-- `mtk_nfcho_snep_parse`. -/
def snepParse (role : ServiceRole) (enSnep : U8) (s : Snep) (u1Data : List U8) :
    Option SnepResult :=
  if enSnep = 1 then
    if u1Data.length = 0 then some ⟨s, [snepControl snepResponseReject], 0⟩
    else
      match role with
      | .server =>
        if s.readStatus = 0 then serverContinue nego s u1Data else serverRequest nego s u1Data
      | .client =>
        if s.readStatus = 0 then clientContinue nego s u1Data else clientResponse nego s u1Data
      | .default => some ⟨s, [], 0⟩
  else if enSnep = 0 then withoutSnep nego s u1Data
  else some ⟨s, [], 0⟩

end Parse

end OpenwrtMtk.Nfc
