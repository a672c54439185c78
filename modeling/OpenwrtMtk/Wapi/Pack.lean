import Mathlib.Algebra.GroupWithZero.Nat
import OpenwrtMtk.Lib.Reader
import OpenwrtMtk.Wapi.Entry

/-!
# The frames of the key negotiation

The structs of `wapi.h` that are laid over a message behind the WAI header. `read` is that cast,
`bytes` what `MakeOutgoingFrame` writes from the same fields; a WIE and the message authentication
code follow where a frame has them.
-/

namespace OpenwrtMtk.Wapi

open Toolkit

set_option autoImplicit false

structure UcastKeyReqFrame where
  flag : U8
  bkid : Bytes 16
  uskid : U8
  addid : Bytes 12
  aeChallenge : Nonce

structure UcastKeyRespFrame where
  flag : U8
  bkid : Bytes 16
  uskid : U8
  addid : Bytes 12
  asueChallenge : Nonce
  aeChallenge : Nonce

structure UcastKeyCfmFrame where
  flag : U8
  bkid : Bytes 16
  uskid : U8
  addid : Bytes 12
  asueChallenge : Nonce

structure McastKeyNotifyFrame where
  flag : U8
  mskid : U8
  uskid : U8
  addid : Bytes 12
  groupTxIv : Bytes 16
  keyNotifyIv : Bytes 16
  /-- `data[0]`, the length of the encrypted key, and the 16 bytes behind it. -/
  dataLen : U8
  data : Bytes 16

structure McastKeyRespFrame where
  flag : U8
  mskid : U8
  uskid : U8
  addid : Bytes 12
  keyNotifyIv : Bytes 16

namespace UcastKeyReqFrame

def read (body : List U8) : UcastKeyReqFrame where
  flag := byteAt body 0
  bkid := field body 1 16
  uskid := byteAt body 17
  addid := field body 18 12
  aeChallenge := field body 30 32

def bytes (f : UcastKeyReqFrame) : List U8 :=
  f.flag :: (f.bkid.val ++ (f.uskid :: (f.addid.val ++ f.aeChallenge.val)))

theorem read_bytes (f : UcastKeyReqFrame) (rest : List U8) : read (f.bytes ++ rest) = f := by
  simp [read, bytes, field_skip, byteAt_skip]

end UcastKeyReqFrame

namespace UcastKeyRespFrame

def size : Nat := 94

def read (body : List U8) : UcastKeyRespFrame where
  flag := byteAt body 0
  bkid := field body 1 16
  uskid := byteAt body 17
  addid := field body 18 12
  asueChallenge := field body 30 32
  aeChallenge := field body 62 32

def bytes (f : UcastKeyRespFrame) : List U8 :=
  f.flag :: (f.bkid.val ++ (f.uskid :: (f.addid.val ++
    (f.asueChallenge.val ++ f.aeChallenge.val))))

@[simp] theorem length_bytes (f : UcastKeyRespFrame) : f.bytes.length = size := by
  simp [bytes, size]

theorem read_bytes (f : UcastKeyRespFrame) (rest : List U8) : read (f.bytes ++ rest) = f := by
  simp [read, bytes, field_skip, byteAt_skip]

theorem read_append {body : List U8} (rest : List U8) (h : size ≤ body.length) :
    read (body ++ rest) = read body := by
  unfold size at h
  simp only [read]
  rw [byteAt_append_left rest (by omega), byteAt_append_left rest (by omega),
    field_append_left rest (by omega), field_append_left rest (by omega),
    field_append_left rest (by omega), field_append_left rest (by omega)]

theorem wie_bytes (f : UcastKeyRespFrame) (wie rest : List U8) :
    slice (f.bytes ++ (wie ++ rest)) size wie.length = wie := by
  rw [slice, ← f.length_bytes, List.drop_left, List.take_left]

end UcastKeyRespFrame

namespace UcastKeyCfmFrame

def size : Nat := 62

def read (body : List U8) : UcastKeyCfmFrame where
  flag := byteAt body 0
  bkid := field body 1 16
  uskid := byteAt body 17
  addid := field body 18 12
  asueChallenge := field body 30 32

def bytes (f : UcastKeyCfmFrame) : List U8 :=
  f.flag :: (f.bkid.val ++ (f.uskid :: (f.addid.val ++ f.asueChallenge.val)))

@[simp] theorem length_bytes (f : UcastKeyCfmFrame) : f.bytes.length = size := by
  simp [bytes, size]

theorem read_bytes (f : UcastKeyCfmFrame) (rest : List U8) : read (f.bytes ++ rest) = f := by
  simp [read, bytes, field_skip, byteAt_skip]

theorem wie_bytes (f : UcastKeyCfmFrame) (wie rest : List U8) :
    slice (f.bytes ++ (wie ++ rest)) size wie.length = wie := by
  rw [slice, ← f.length_bytes, List.drop_left, List.take_left]

end UcastKeyCfmFrame

namespace McastKeyNotifyFrame

def read (body : List U8) : McastKeyNotifyFrame where
  flag := byteAt body 0
  mskid := byteAt body 1
  uskid := byteAt body 2
  addid := field body 3 12
  groupTxIv := field body 15 16
  keyNotifyIv := field body 31 16
  dataLen := byteAt body 47
  data := field body 48 16

def bytes (f : McastKeyNotifyFrame) : List U8 :=
  f.flag :: f.mskid :: f.uskid :: (f.addid.val ++ (f.groupTxIv.val ++
    (f.keyNotifyIv.val ++ (f.dataLen :: f.data.val))))

@[simp] theorem length_bytes (f : McastKeyNotifyFrame) : f.bytes.length = 64 := by
  simp [bytes]

theorem read_bytes (f : McastKeyNotifyFrame) (rest : List U8) : read (f.bytes ++ rest) = f := by
  simp [read, bytes, field_skip, byteAt_skip]

end McastKeyNotifyFrame

namespace McastKeyRespFrame

/-- The size of the struct, its `MAC` included. -/
def size : Nat := 51

def read (body : List U8) : McastKeyRespFrame where
  flag := byteAt body 0
  mskid := byteAt body 1
  uskid := byteAt body 2
  addid := field body 3 12
  keyNotifyIv := field body 15 16

def bytes (f : McastKeyRespFrame) : List U8 :=
  f.flag :: f.mskid :: f.uskid :: (f.addid.val ++ f.keyNotifyIv.val)

@[simp] theorem length_bytes (f : McastKeyRespFrame) : f.bytes.length = 31 := by simp [bytes]

theorem read_bytes (f : McastKeyRespFrame) (rest : List U8) : read (f.bytes ++ rest) = f := by
  simp [read, bytes, field_skip]

end McastKeyRespFrame

section Received

variable (c : Crypto) (key : Bytes 16) (hdr : Bytes 12) (body stale : List U8)

@[simp] theorem Elem.received_body : (Elem.received hdr body stale).body = body ++ stale := by
  have hdrop : (hdr.val ++ (body ++ stale)).drop lengthHeaderWai = body ++ stale :=
    drop_skip hdr _ _ (Nat.le_refl _)
  rw [← List.append_assoc] at hdrop
  exact hdrop

@[simp] theorem Elem.received_msgLen :
    (Elem.received hdr body stale).msgLen = lengthHeaderWai + body.length := rfl

theorem length_sealedFrame : (sealedFrame c key body).length = body.length + lenMsgAuthCode := by
  simp [sealedFrame, lenMsgAuthCode]

theorem Elem.received_rcvdMac :
    (Elem.received hdr (sealedFrame c key body) stale).rcvdMac = msgAuthCode c key body := by
  unfold Elem.rcvdMac
  rw [Elem.received_msgLen, length_sealedFrame]
  unfold Elem.received sealedFrame
  have hskip : lengthHeaderWai + (body.length + lenMsgAuthCode) - lenMsgAuthCode =
      lengthHeaderWai + body.length := by omega
  rw [hskip, List.append_assoc, field_skip hdr _ _ _ (by simp [lengthHeaderWai]),
    List.append_assoc, field_append_right _ _ (by simp [lengthHeaderWai])]
  simp [lengthHeaderWai, lenMsgAuthCode]

theorem Elem.received_authenticated :
    (Elem.received hdr (sealedFrame c key body) stale).authenticated = body := by
  unfold Elem.authenticated
  rw [Elem.received_body, Elem.received_msgLen, length_sealedFrame]
  have hlen : lengthHeaderWai + (body.length + lenMsgAuthCode) - lengthHeaderWai -
      lenMsgAuthCode = body.length := by omega
  rw [hlen, sealedFrame, List.append_assoc, List.take_left]

end Received

end OpenwrtMtk.Wapi

/-!
## The frames of the certificate authentication

`structure.h`, `pack.c` and the packing half of `cert_auth.c`. Unpacking goes by an offset that is
`PACK_ERROR` once a read has failed; every later read then fails too, so the frame is refused as a
whole. A copy into an array of the struct that the array has no room for has no result. Packing
fails when a checked write returns `PACK_ERROR` (the unchecked copies that follow would go to
offset 65535) or when a copy does not fit the buffer.
-/

namespace OpenwrtMtk.Wapi

open Toolkit

set_option autoImplicit false

def maxParaLen : Nat := 20
def maxIdDataLen : Nat := 1000
def maxIdNo : Nat := 10
def maxByteDataLen : Nat := 256
def commDataLen : Nat := 3000
def signLen : Nat := 48
def maxWaiAuthHsLen : Nat := 4096
def fromMtLen : Nat := 5000

/-- `ID_LIST`, the identifier of a list of ASUs. -/
def idListIdentifier : U8 := 3

/-- `para_alg`. -/
structure ParaAlg where
  paraFlag : U8
  paraData : List U8
  deriving DecidableEq

/-- `wai_fixdata_alg`. -/
structure FixdataAlg where
  algLength : U16
  sha256Flag : U8
  signAlg : U8
  signPara : ParaAlg
  deriving DecidableEq

/-- `wai_attridata_auth_payload`. -/
structure AuthPayload where
  identifier : U8
  length : U16
  id : FixdataId
  alg : FixdataAlg
  signData : List U8
  deriving DecidableEq

structure AccessAuthRequest where
  flag : U8
  aeAuthFlag : Nonce
  asueChallenge : Nonce
  keyData : List U8
  aeId : FixdataId
  asueCert : FixdataCert
  asuIdList : IdList
  ecdh : ParaAlg
  asueSign : AuthPayload
  deriving DecidableEq

structure AuthActive where
  flag : U8
  aeAuthFlag : Nonce
  asuId : FixdataId
  aeCer : FixdataCert
  ecdh : ParaAlg
  deriving DecidableEq

/-- A list that `memset` left. -/
def IdList.zero : IdList := ⟨0, 0, 0, []⟩

/-- `WAI_FLAG_OPTION`. -/
def optionIsOn (flag : U8) : Bool := flag &&& 0x08 != 0

section Unpack

open Reader

def readByte : Reader U8 := do
  let bs ← copy 1
  return byteAt bs 0

def readWord : Reader U16 := do
  let bs ← copy 2
  return wordOf (byteAt bs 0) (byteAt bs 1)

def cUnpackByte : Reader U8 := do
  room 1
  readByte

def cUnpackWord : Reader U16 := do
  room 2
  readWord

def cUnpack32bytes : Reader Nonce := do
  room 32
  let bs ← copy 32
  return padded 32 bs

def cUnpackByteData : Reader (List U8) := do
  room 1
  let length ← readByte
  room length.toNat
  check (length ≠ 0)
  copy length.toNat

def cUnpackCommData : Reader (List U8) := do
  room 2
  let length ← readWord
  room length.toNat
  check (length.toNat ≤ commDataLen)
  check (length ≠ 0)
  demand (length.toNat ≤ maxByteDataLen)
  copy length.toNat

/-- The certificate stays in the buffer. -/
def unpackWaiFixdataCert : Reader FixdataCert := do
  room 2
  let certFlag ← cUnpackWord
  room 2
  let length ← cUnpackWord
  room length.toNat
  let certData ← copy length.toNat
  return ⟨certFlag, certData⟩

def unpackWaiFixdataId : Reader FixdataId := do
  room 2
  let idFlag ← cUnpackWord
  room 2
  let idLen ← cUnpackWord
  room idLen.toNat
  demand (idLen.toNat ≤ maxIdDataLen)
  let idData ← copy idLen.toNat
  return ⟨idFlag, idData⟩

/-- `n` identities of the list, of which `i` have been read. -/
def unpackIds : Nat → Nat → Reader (List FixdataId)
  | 0, _ => pure []
  | n + 1, i => do
    room 2
    demand (i < maxIdNo)
    let id ← unpackWaiFixdataId
    let ids ← unpackIds n (i + 1)
    return id :: ids

def unpackWaiAttridataIdList : Reader IdList := do
  let identifier ← cUnpackByte
  let length ← cUnpackWord
  let rev ← cUnpackByte
  let idNo ← cUnpackWord
  let ids ← unpackIds idNo.toNat 0
  return ⟨identifier, length, rev, ids⟩

def cUnpackSignAlg : Reader FixdataAlg := do
  let algLength ← cUnpackWord
  let sha256Flag ← cUnpackByte
  let signAlg ← cUnpackByte
  let paraFlag ← cUnpackByte
  let paraLen ← cUnpackWord
  room paraLen.toNat
  demand (paraLen.toNat ≤ maxParaLen)
  let paraData ← copy paraLen.toNat
  return ⟨algLength, sha256Flag, signAlg, paraFlag, paraData⟩

def unpackWaiAttridataAuthPayload : Reader AuthPayload := do
  let identifier ← cUnpackByte
  check (identifier = 1)
  let length ← cUnpackWord
  let id ← unpackWaiFixdataId
  let alg ← cUnpackSignAlg
  let signData ← cUnpackCommData
  check (length.toNat = 4 + id.idData.length + 2 + alg.algLength.toNat + 2 + signData.length)
  return ⟨identifier, length, id, alg, signData⟩

/-- The parameter is copied without a look at the length of the frame. -/
def unpackEcdh : Reader ParaAlg := do
  let paraFlag ← cUnpackByte
  let paraLen ← cUnpackWord
  demand (paraLen.toNat ≤ maxParaLen)
  let paraData ← copy paraLen.toNat
  return ⟨paraFlag, paraData⟩

def unpackAccessAuthRequest : Reader (AccessAuthRequest × Nat) := do
  let flag ← cUnpackByte
  let aeAuthFlag ← cUnpack32bytes
  let asueChallenge ← cUnpack32bytes
  let keyData ← cUnpackByteData
  let aeId ← unpackWaiFixdataId
  let asueCert ← unpackWaiFixdataCert
  let ecdh ← unpackEcdh
  let next ← peek
  let asuIdList ←
    if next = idListIdentifier ∧ optionIsOn flag then unpackWaiAttridataIdList
    else pure .zero
  let noSigndataLen ← offset
  let asueSign ← unpackWaiAttridataAuthPayload
  return (⟨flag, aeAuthFlag, asueChallenge, keyData, aeId, asueCert, asuIdList, ecdh, asueSign⟩,
    noSigndataLen)

def unpackAeAuthActive : Reader AuthActive := do
  let flag ← cUnpackByte
  let aeAuthFlag ← cUnpack32bytes
  let asuId ← unpackWaiFixdataId
  let aeCer ← unpackWaiFixdataCert
  let ecdh ← unpackEcdh
  return ⟨flag, aeAuthFlag, asuId, aeCer, ecdh⟩

end Unpack

section Pack

/-- `memcpy` into the frame. -/
def memcpy (bs : List U8) : Writer Unit := Writer.put maxWaiAuthHsLen bs

def cPackNbytes (content : List U8) (bufflen : Nat) : Writer Unit := do
  if (← get).length + content.length > bufflen then failure
  memcpy content

def cPackByte (content : U8) (bufflen : Nat) : Writer Unit := cPackNbytes [content] bufflen

def cPackWord (content : U16) (bufflen : Nat) : Writer Unit :=
  cPackNbytes (wordBytes content) bufflen

def cPack32bytes (content : Nonce) (bufflen : Nat) : Writer Unit :=
  cPackNbytes content.val bufflen

def cPackByteData (pData : List U8) (bufflen : Nat) : Writer Unit := do
  if (← get).length + pData.length + 1 > bufflen then failure
  cPackByte (BitVec.ofNat 8 pData.length) bufflen
  memcpy pData

def cPackSignAlg (pSignAlg : FixdataAlg) (bufflen : Nat) : Writer Unit := do
  if (← get).length + pSignAlg.algLength.toNat + 2 > bufflen then failure
  cPackWord pSignAlg.algLength bufflen
  cPackByte pSignAlg.sha256Flag bufflen
  cPackByte pSignAlg.signAlg bufflen
  cPackByte pSignAlg.signPara.paraFlag bufflen
  cPackWord (BitVec.ofNat 16 pSignAlg.signPara.paraData.length) bufflen
  memcpy pSignAlg.signPara.paraData

def packFixdata (flag : U16) (data : List U8) (bufflen : Nat) : Writer Unit := do
  cPackWord flag bufflen
  cPackWord (BitVec.ofNat 16 data.length) bufflen
  memcpy data

def packEcdh (ecdh : ParaAlg) (bufflen : Nat) : Writer Unit := do
  cPackByte ecdh.paraFlag bufflen
  memcpy (wordBytes (BitVec.ofNat 16 ecdh.paraData.length))
  memcpy ecdh.paraData

def packIds : List FixdataId → Nat → Writer Unit
  | [], _ => pure ()
  | id :: ids, bufflen => do
    cPackWord id.idFlag bufflen
    cPackWord (BitVec.ofNat 16 id.idData.length) bufflen
    cPackNbytes id.idData bufflen
    packIds ids bufflen

def packIdList (list : IdList) (bufflen : Nat) : Writer Unit := do
  cPackByte list.identifier bufflen
  cPackWord list.length bufflen
  cPackByte list.rev bufflen
  cPackWord (BitVec.ofNat 16 list.ids.length) bufflen
  packIds list.ids bufflen

/-- What a daemon knows of its own certificate. `sign` is the signature with its private key. -/
structure LocalCert where
  usedCert : U16
  certBin : List U8
  localUserId : FixdataId
  signAlg : FixdataAlg
  sign : List U8 → Bytes 48

def packFields (pContent : AccessAuthRequest) (bufflen : Nat) : Writer Unit := do
  cPackByteData pContent.keyData bufflen
  packFixdata pContent.aeId.idFlag pContent.aeId.idData bufflen
  packFixdata pContent.asueCert.certFlag pContent.asueCert.certData bufflen
  packEcdh pContent.ecdh bufflen
  if pContent.asuIdList.identifier = idListIdentifier then packIdList pContent.asuIdList bufflen
  else pure ()

def packSignature (cert : LocalCert) (sign : Bytes 48) (bufflen : Nat) : Writer Unit := do
  packFixdata cert.localUserId.idFlag cert.localUserId.idData bufflen
  cPackSignAlg cert.signAlg bufflen
  cPackWord (BitVec.ofNat 16 signLen) bufflen
  memcpy sign.val

/-- The length of the payload whose length field is at `signLenPos`. -/
def patchLength (signLenPos : Nat) : Writer Unit :=
  modify fun buffer =>
    overwrite buffer signLenPos (wordBytes (BitVec.ofNat 16 (buffer.length - signLenPos - 2)))

/-- The signature covers what has been packed. The length of the payload is filled in last. -/
def packAccessAuthRequest (cert : LocalCert) (pContent : AccessAuthRequest) (bufflen : Nat) :
    Writer Unit := do
  packFields pContent bufflen
  let dataBuff ← get
  if dataBuff.length > commDataLen then failure
  memcpy [1]
  memcpy [0, 0]
  packSignature cert (cert.sign dataBuff) bufflen
  patchLength (dataBuff.length + 1)

def requestFrame (cert : LocalCert) (pContent : AccessAuthRequest) : Option (List U8) :=
  let pack : Writer Unit := do
    cPackByte pContent.flag maxWaiAuthHsLen
    cPack32bytes pContent.aeAuthFlag maxWaiAuthHsLen
    cPack32bytes pContent.asueChallenge maxWaiAuthHsLen
    packAccessAuthRequest cert pContent fromMtLen
  (pack.run []).map (·.2)

def packAuthActive (pContent : AuthActive) (bufflen : Nat) : Writer Unit := do
  packFixdata pContent.asuId.idFlag pContent.asuId.idData bufflen
  packFixdata pContent.aeCer.certFlag pContent.aeCer.certData bufflen
  packEcdh pContent.ecdh bufflen

def activeFrame (pContent : AuthActive) : Option (List U8) :=
  let pack : Writer Unit := do
    cPackByte pContent.flag maxWaiAuthHsLen
    cPack32bytes pContent.aeAuthFlag maxWaiAuthHsLen
    packAuthActive pContent maxWaiAuthHsLen
  (pack.run []).map (·.2)

end Pack

section Create

/-- `wai_initialize_ecdh`: the identifier of the curve. -/
def waiInitializeEcdh : ParaAlg where
  paraFlag := 1
  paraData := [0x06, 0x09, 0x2a, 0x81, 0x1c, 0xd7, 0x63, 0x01, 0x01, 0x02, 0x01]

/-- `wai_fixdata_cert_by_certificate`. -/
def LocalCert.fixdataCert (cert : LocalCert) : FixdataCert := ⟨cert.usedCert, cert.certBin⟩

def asuIdListOf (ids : List FixdataId) : IdList where
  identifier := idListIdentifier
  length := BitVec.ofNat 16 ((ids.map fun id => id.idData.length + 4).sum + 3)
  rev := 0
  ids := ids

/-- `wapi_auth_activate_create`, with the identity of the first trusted ASU. -/
def wapiAuthActivateCreate (cert : LocalCert) (pEntry : Entry) (asuId : FixdataId) :
    Option (List U8) :=
  activeFrame
    { flag := pEntry.idFlag
      aeAuthFlag := pEntry.authId
      asuId := asuId
      aeCer := cert.fixdataCert
      ecdh := waiInitializeEcdh }

/-- The content of a request: a fresh temporary public key, the identity of the AE's certificate
and, in `THREE_CERTIFICATE_MODE`, those of the trusted ASUs. -/
def requestContent (cert : LocalCert) (pEntry : Entry) (keyData : List U8) (aeId : FixdataId)
    (asuIds : Option (List FixdataId)) : AccessAuthRequest where
  flag := if asuIds.isSome then pEntry.idFlag ||| 0x08 else pEntry.idFlag
  aeAuthFlag := pEntry.authId
  asueChallenge := pEntry.snonce
  keyData := keyData
  aeId := aeId
  asueCert := cert.fixdataCert
  asuIdList :=
    match asuIds with
    | none => .zero
    | some ids => asuIdListOf ids
  ecdh := waiInitializeEcdh
  asueSign := ⟨0, 0, ⟨0, []⟩, ⟨0, 0, 0, ⟨0, []⟩⟩, []⟩

def wapiAccessAuthRequestCreate (cert : LocalCert) (pEntry : Entry) (keyData : List U8)
    (aeId : FixdataId) (asuIds : Option (List FixdataId)) : Option (List U8) :=
  requestFrame cert (requestContent cert pEntry keyData aeId asuIds)

end Create

end OpenwrtMtk.Wapi
