import OpenwrtMtk.Lib.Field

/-!
# The station entry of wapid

`sta_info.h` and `wapi.h`: the states and messages of the two WAI state machines, the entry an AE
or ASUE keeps for its peer, and the interface it is reached over. A `Side` is one end of a link: an
entry, its interface and the retry timers that are registered for it. What a handler asks from
outside (random bytes, the allocator, the socket, the driver) is an `Env`, what it causes there a
list of `Effect`s. HMAC, SHA-256, the key derivation and the WPI cipher are a `Crypto`.
-/

namespace OpenwrtMtk.Wapi

open Toolkit

set_option autoImplicit false

inductive WaiKeyState where
  | ucastKeyIdle | waitUcastResp | waitUcastCfm | ucastKeyDone | waitMcastResp | mcastKeyDone
  deriving DecidableEq

inductive WaiKeyMsg where
  | mlmeUcastKeyReq | peerUcastKeyReq | mlmeUcastKeyResp | peerUcastKeyResp | peerUcastKeyCfm
  | mlmeMcastKeyNotify | peerMcastKeyNotify | peerMcastKeyResp
  deriving DecidableEq

inductive WaiAuthState where
  | certAuthIdle | waitAccessAuthReq | waitAccessAuthResp | waitCertAuthResp | certAuthDone
  deriving DecidableEq

inductive WapiAuthMode where
  | disable | psk | cert
  deriving DecidableEq

/-- The sub-type of the WAI header, from 3 on; the two below are not implemented. -/
inductive SubType where
  | authActivate | accessAuthReq | accessAuthResp | certAuthReq | certAuthResp | uniKeyReq
  | uniKeyResp | uniKeyConfirm | multiKeyNotify | multiKeyResp
  deriving DecidableEq

abbrev Nonce := Bytes 32
abbrev MacAddr := Bytes 6
abbrev Ptk := Bytes 96

/-- `wai_fixdata_id`. -/
structure FixdataId where
  idFlag : U16
  idData : List U8
  deriving DecidableEq

/-- `wai_attridata_id_list`; all zero when there is none. -/
structure IdList where
  identifier : U8
  length : U16
  rev : U8
  ids : List FixdataId
  deriving DecidableEq

/-- `wai_temp_fixdata_cert`. -/
structure FixdataCert where
  certFlag : U16
  certData : List U8
  deriving DecidableEq

/-- What the certificate authentication leaves in an entry: the hash of the ASUE certificate, the
ASUE's temporary public key, its identity, its certificate and the ASUs it trusts. -/
structure CertData where
  asueCertHash : Bytes 32
  asueKeyData : List U8
  userId : FixdataId
  userCert : FixdataCert
  asuIdList : IdList
  deriving DecidableEq

/-- `STA_TABLE_ENTRY`. -/
structure Entry where
  valid : Bool
  addr : MacAddr
  authMode : WapiAuthMode
  waiAuthState : WaiAuthState
  waiKeyState : WaiKeyState
  portSecured : Bool
  bk : Bytes 16
  bkid : Bytes 16
  bkAuthId : Nonce
  idFlag : U8
  authId : Nonce
  anonce : Nonce
  snonce : Nonce
  addid : Bytes 12
  uskid : U8
  ptk : Ptk
  ptkSeed : Nonce
  retryCnt : U8
  cert : CertData
  deriving DecidableEq

/-- `MULTI_BSS`: the interface an entry belongs to. -/
structure Mbss where
  wlanAddr : MacAddr
  authMode : WapiAuthMode
  mskid : U8
  bk : Bytes 16
  nmk : Bytes 16
  keyNotifyIv : Bytes 16
  wie : List U8
  deriving DecidableEq

/-- One end of a link. `timers` counts the registrations of the retry timer for the entry:
`eloop_register_timeout` adds one, `eloop_cancel_timeout` removes them all. -/
structure Side where
  mbss : Mbss
  entry : Entry
  timers : Nat
  deriving DecidableEq

structure Crypto where
  /-- `hmac_sha256` of a text under a 16-byte key. -/
  hmac : Bytes 16 → List U8 → Bytes 32
  /-- `kd_hmac_sha256` of a text under a 16-byte key, with the length of the output. -/
  kd : Bytes 16 → List U8 → (n : Nat) → Bytes n
  sha256 : List U8 → Bytes 32
  /-- `wpi_encrypt` and `wpi_decrypt`: an initial vector, 16 bytes of text and a key. -/
  wpiEncrypt : Bytes 16 → Bytes 16 → Bytes 16 → Bytes 16
  wpiDecrypt : Bytes 16 → Bytes 16 → Bytes 16 → Bytes 16

/-- `WAPI_MCAST_KEY_STRUCT`. -/
structure McastKey where
  keyId : U32
  mTxIv : Bytes 16
  keyAnnounce : Bytes 16
  nmk : Bytes 16
  deriving DecidableEq

/-- The answers one handler call gets. -/
structure Env where
  random : Nonce
  /-- `os_malloc` of the outgoing frame. -/
  malloc : Bool
  /-- `wapi_handle_l2_send` returns `TRUE`. -/
  send : Bool
  /-- `wapi_get_wie`; `none` for `FALSE`. -/
  wie : Option (List U8)
  /-- `wapi_get_mcast_key_info`. -/
  mcastKey : Option McastKey
  deriving DecidableEq

inductive Effect where
  | l2Send (msgType : SubType) (body : List U8)
  | clientSend (msgType : SubType) (body : List U8)
  /-- `wapi_set_ucast_key_proc`: the key index and the first 64 bytes of the PTK. -/
  | setUcastKey (keyId : U8) (ptk : Bytes 64)
  | setMcastKeyInfo (info : McastKey)
  | setPortSecured
  | disconnect
  deriving DecidableEq

/-- A queued message: a receive buffer that starts with the WAI header. Behind `msgLen` it holds
what an earlier message left there. -/
structure Elem where
  msg : List U8
  msgLen : Nat

def lengthHeaderWai : Nat := 12
def lenMsgAuthCode : Nat := 20

/-- `Elem->Msg` behind the WAI header. -/
def Elem.body (elem : Elem) : List U8 := elem.msg.drop lengthHeaderWai

def Elem.rcvdMac (elem : Elem) : Bytes 20 :=
  field elem.msg (elem.msgLen - lenMsgAuthCode) lenMsgAuthCode

def Elem.authenticated (elem : Elem) : List U8 :=
  elem.body.take (elem.msgLen - lengthHeaderWai - lenMsgAuthCode)

def Elem.received (hdr : Bytes 12) (body stale : List U8) : Elem :=
  ⟨hdr.val ++ body ++ stale, lengthHeaderWai + body.length⟩

def waiFlagUskUpdate : U8 := 0x10

/-- `WAI_FLAG_USK_RENEW_IS_ON`. -/
def uskRenewIsOn (flag : U8) : Bool := flag &&& 0x10 != 0

def rotated (uskid : U8) : U8 := if uskid = 0 then 1 else 0

@[simp] theorem uskRenewIsOn_zero : uskRenewIsOn 0 = false := rfl

@[simp] theorem uskRenewIsOn_uskUpdate : uskRenewIsOn waiFlagUskUpdate = true := rfl

theorem rotated_ne (uskid : U8) : rotated uskid ≠ uskid := by
  unfold rotated
  split
  · subst uskid
    decide
  · exact Ne.symm ‹_›

section Derivation

variable (c : Crypto) (s : Side)

def Entry.mak (e : Entry) : Bytes 16 := field e.ptk.val 32 16

def Entry.kek (e : Entry) : Bytes 16 := field e.ptk.val 48 16

def pairwisePrefix : List U8 :=
  ("pairwise key expansion for unicast and additional keys and nonce".toList.map
    fun ch => BitVec.ofNat 8 ch.toNat)

/-- `ADDID || ANONCE || SNONCE || prefix`. -/
def pairwiseText (addid : Bytes 12) (anonce snonce : Nonce) : List U8 :=
  addid.val ++ (anonce.val ++ (snonce.val ++ pairwisePrefix))

def pairwiseKey (bk : Bytes 16) (addid : Bytes 12) (anonce snonce : Nonce) : Ptk :=
  c.kd bk (pairwiseText addid anonce snonce) 96

def seedOf (ptk : Ptk) : Nonce := c.sha256 (field ptk.val 64 32).val

def calculatePairWiseKey : Side :=
  let ptk := pairwiseKey c s.entry.bk s.entry.addid s.entry.anonce s.entry.snonce
  { s with entry := { s.entry with ptk := ptk, ptkSeed := seedOf c ptk } }

def msgAuthCode (key : Bytes 16) (body : List U8) : Bytes 20 := padded 20 (c.hmac key body).val

def sealedFrame (key : Bytes 16) (body : List U8) : List U8 := body ++ (msgAuthCode c key body).val

def bkidOf (bk : Bytes 16) (addid : Bytes 12) : Bytes 16 := c.kd bk addid.val 16

/-- `ADDID`: the address of the AE, then that of the ASUE. -/
def addidOf (ae asue : MacAddr) : Bytes 12 := ⟨ae.val ++ asue.val, by simp⟩

def Side.cancelTimeout : Side := { s with timers := 0 }

def Side.registerTimeout : Side := { s with timers := s.timers + 1 }

/-- `wapi_set_ucast_key_proc`. -/
def Side.ucastKey : Effect := .setUcastKey s.entry.uskid (field s.entry.ptk.val 0 64)

end Derivation

def plainCrypto : Crypto where
  hmac key text := padded 32 (key.val ++ text)
  kd _ text n := padded n (slice text 12 64 ++ slice text 44 32 ++ text)
  sha256 text := padded 32 text
  wpiEncrypt _ text _ := text
  wpiDecrypt _ text _ := text

end OpenwrtMtk.Wapi
