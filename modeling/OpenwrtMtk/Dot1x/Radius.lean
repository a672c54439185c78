import OpenwrtMtk.Lib.Bytes

/-!
# RADIUS messages

`radius.c`: a message is built by adding attributes behind the header, or parsed from a datagram.
An attribute is known by the place of its header in the buffer. The two hash functions are
parameters, and so is what an allocation answers.
-/

namespace OpenwrtMtk.Dot1x

open Toolkit

set_option autoImplicit false

/-- MD5 and HMAC-MD5 (key first). -/
structure Digest where
  md5 : List U8 → List U8
  hmacMd5 : List U8 → List U8 → List U8
  length_md5 : ∀ bytes, (md5 bytes).length = 16
  length_hmacMd5 : ∀ key bytes, (hmacMd5 key bytes).length = 16

def zeroDigest : Digest where
  md5 _ := List.replicate 16 0
  hmacMd5 _ _ := List.replicate 16 0
  length_md5 _ := rfl
  length_hmacMd5 _ _ := rfl

/-- Which allocations of one message succeed: the message itself, its buffer and its attribute
array, the latter two by the size asked for. -/
structure Memory where
  msg : Bool
  buf : Nat → Bool
  attrs : Nat → Bool

def Memory.ample : Memory := ⟨true, fun _ => true, fun _ => true⟩

def ntohs (bytes : List U8) (off : Nat) : Nat :=
  (bytes.getD off 0).toNat * 256 + (bytes.getD (off + 1) 0).toNat

def ntohl (bytes : List U8) (off : Nat) : Nat := ntohs bytes off * 65536 + ntohs bytes (off + 2)

def htons (n : Nat) : List U8 := [BitVec.ofNat 8 (n / 256), BitVec.ofNat 8 n]

def htonl (n : Nat) : List U8 := htons (n / 65536) ++ htons n

/-- `sizeof(struct radius_hdr)`. -/
def sizeofRadiusHdr : Nat := 20

/-- `sizeof(struct radius_attr_hdr)`. -/
def sizeofRadiusAttrHdr : Nat := 2

def md5MacLen : Nat := 16
def radiusMaxAttrLen : Nat := 255 - sizeofRadiusAttrHdr
def radiusDefaultMsgSize : Nat := 1024
def radiusDefaultAttrCount : Nat := 16

def radiusCodeAccessRequest : U8 := 1
def radiusCodeAccessAccept : U8 := 2
def radiusCodeAccessReject : U8 := 3
def radiusCodeAccessChallenge : U8 := 11

def radiusAttrUserName : U8 := 1
def radiusAttrNasIpAddress : U8 := 4
def radiusAttrNasPort : U8 := 5
def radiusAttrFramedMtu : U8 := 12
def radiusAttrState : U8 := 24
def radiusAttrVendorSpecific : U8 := 26
def radiusAttrSessionTimeout : U8 := 27
def radiusAttrIdleTimeout : U8 := 28
def radiusAttrTerminationAction : U8 := 29
def radiusAttrCalledStationId : U8 := 30
def radiusAttrCallingStationId : U8 := 31
def radiusAttrNasIdentifier : U8 := 32
def radiusAttrNasPortType : U8 := 61
def radiusAttrEapMessage : U8 := 79
def radiusAttrMessageAuthenticator : U8 := 80

def radiusTerminationActionDefault : Nat := 0
def radiusTerminationActionRadiusRequest : Nat := 1
def radiusNasPortTypeIeee80211 : Nat := 19
def radiusVendorIdMicrosoft : Nat := 311
def radiusVendorAttrMsMppeSendKey : U8 := 16
def radiusVendorAttrMsMppeRecvKey : U8 := 17

/-- `struct radius_msg`: the used part of the buffer, and the offsets of the attribute headers. -/
structure RadiusMsg where
  buf : List U8
  bufSize : Nat
  attrs : List Nat
  attrSize : Nat
  deriving DecidableEq

namespace RadiusMsg

variable (msg : RadiusMsg)

def code : U8 := msg.buf.getD 0 0
def identifier : U8 := msg.buf.getD 1 0
def authenticator : List U8 := slice msg.buf 4 16
def attrType (attr : Nat) : U8 := msg.buf.getD attr 0
def attrLength (attr : Nat) : Nat := (msg.buf.getD (attr + 1) 0).toNat
def attrValue (attr : Nat) : List U8 :=
  slice msg.buf (attr + sizeofRadiusAttrHdr) (msg.attrLength attr - sizeofRadiusAttrHdr)

end RadiusMsg

section Building

variable (mem : Memory)

def radiusMsgInitialize (initLen : Nat) : Option RadiusMsg :=
  if initLen < sizeofRadiusHdr then none
  else if mem.buf initLen && mem.attrs radiusDefaultAttrCount then
    some ⟨List.replicate sizeofRadiusHdr 0, initLen, [], radiusDefaultAttrCount⟩
  else none

def radiusMsgSetHdr (msg : RadiusMsg) (code identifier : U8) : RadiusMsg :=
  { msg with buf := overwrite msg.buf 0 [code, identifier] }

def radiusMsgNew (code identifier : U8) : Option RadiusMsg :=
  if mem.msg then
    (radiusMsgInitialize mem radiusDefaultMsgSize).map fun msg =>
      radiusMsgSetHdr msg code identifier
  else none

def radiusMsgAddAttrToArray (msg : RadiusMsg) (attr : Nat) : Option RadiusMsg :=
  if msg.attrSize ≤ msg.attrs.length then
    if mem.attrs (msg.attrSize * 2) then
      some { msg with attrs := msg.attrs ++ [attr], attrSize := msg.attrSize * 2 }
    else none
  else some { msg with attrs := msg.attrs ++ [attr] }

/-- `while (nlen < buf_needed) nlen *= 2`. -/
def doubleUpTo (needed : Nat) : Nat → Nat → Nat
  | 0, nlen => nlen
  | n + 1, nlen => if nlen < needed then doubleUpTo needed n (nlen * 2) else nlen

def growBuf (msg : RadiusMsg) (needed : Nat) : Option RadiusMsg :=
  if msg.bufSize < needed then
    let nlen := doubleUpTo needed needed msg.bufSize
    if mem.buf nlen then some { msg with bufSize := nlen } else none
  else some msg

def radiusMsgAddAttr (msg : RadiusMsg) (type : U8) (data : List U8) : Option RadiusMsg :=
  if radiusMaxAttrLen < data.length then none
  else
    (growBuf mem msg (msg.buf.length + sizeofRadiusAttrHdr + data.length)).bind fun msg =>
      radiusMsgAddAttrToArray mem
        { msg with
          buf := msg.buf ++
            (type :: BitVec.ofNat 8 (sizeofRadiusAttrHdr + data.length) :: data) }
        msg.buf.length

def radiusMsgAddAttrInt32 (msg : RadiusMsg) (type : U8) (value : Nat) : Option RadiusMsg :=
  radiusMsgAddAttr mem msg type (htonl value)

def addEapFrom : Nat → RadiusMsg → List U8 → Option RadiusMsg
  | 0, msg, _ => some msg
  | n + 1, msg, data =>
    if data = [] then some msg
    else
      (radiusMsgAddAttr mem msg radiusAttrEapMessage (data.take radiusMaxAttrLen)).bind fun msg =>
        addEapFrom n msg (data.drop radiusMaxAttrLen)

def radiusMsgAddEap (msg : RadiusMsg) (data : List U8) : Option RadiusMsg :=
  addEapFrom mem data.length msg data

def RadiusMsg.attr? (msg : RadiusMsg) (type : U8) : Option Nat :=
  msg.attrs.find? fun attr => msg.attrType attr = type

/-- `Radius_msg_copy_attr`; a source without the attribute leaves the destination alone. -/
def radiusMsgCopyAttr (dst src : RadiusMsg) (type : U8) : Option RadiusMsg :=
  match src.attr? type with
  | none => some dst
  | some attr => radiusMsgAddAttr mem dst type (src.attrValue attr)

/-- `Radius_msg_make_authenticator`: a hash of the time, some bytes of the caller and a random
number, here together in `seed`. -/
def radiusMsgMakeAuthenticator (H : Digest) (msg : RadiusMsg) (seed : List U8) : RadiusMsg :=
  { msg with buf := overwrite msg.buf 4 (H.md5 seed) }

/-- `Radius_msg_finish` with a secret; `none` where it writes through the null pointer of a failed
`Radius_msg_add_attr`. -/
def radiusMsgFinish (H : Digest) (msg : RadiusMsg) (secret : List U8) : Option RadiusMsg :=
  (radiusMsgAddAttr mem msg radiusAttrMessageAuthenticator (List.replicate md5MacLen 0)).map
    fun finished =>
      let buf := overwrite finished.buf 2 (htons finished.buf.length)
      { finished with
        buf := overwrite buf (msg.buf.length + sizeofRadiusAttrHdr) (H.hmacMd5 secret buf) }

/-- The loop of `Radius_msg_parse`, from the offset `pos` on. -/
def parseAttrs : Nat → RadiusMsg → Nat → Option RadiusMsg
  | 0, msg, _ => some msg
  | n + 1, msg, pos =>
    if pos < msg.buf.length then
      if msg.buf.length - pos < sizeofRadiusAttrHdr then none
      else if msg.buf.length < pos + msg.attrLength pos ∨ msg.attrLength pos < sizeofRadiusAttrHdr
      then none
      else
        (radiusMsgAddAttrToArray mem msg pos).bind fun msg =>
          parseAttrs n msg (pos + msg.attrLength pos)
    else some msg

def radiusMsgParse (data : List U8) : Option RadiusMsg :=
  if data.length < sizeofRadiusHdr then none
  else
    let msgLen := ntohs data 2
    if msgLen < sizeofRadiusHdr ∨ data.length < msgLen then none
    else if mem.msg then
      (radiusMsgInitialize mem msgLen).bind fun msg =>
        parseAttrs mem msgLen { msg with buf := data.take msgLen } sizeofRadiusHdr
    else none

/-! ### What an added attribute changes -/

section

variable {mem : Memory} {msg msg' : RadiusMsg}

theorem addAttrToArray_buf {attr : Nat} (h : radiusMsgAddAttrToArray mem msg attr = some msg') :
    msg'.buf = msg.buf := by
  unfold radiusMsgAddAttrToArray at h
  split at h
  · split at h
    · cases h
      rfl
    · cases h
  · cases h
    rfl

theorem addAttrToArray_attrs {attr : Nat} (h : radiusMsgAddAttrToArray mem msg attr = some msg') :
    msg'.attrs = msg.attrs ++ [attr] := by
  unfold radiusMsgAddAttrToArray at h
  split at h
  · split at h
    · cases h
      rfl
    · cases h
  · cases h
    rfl

theorem growBuf_attrs {needed : Nat} (h : growBuf mem msg needed = some msg') :
    msg'.attrs = msg.attrs := by
  unfold growBuf at h
  split at h
  · dsimp only at h
    split at h
    · cases h
      rfl
    · cases h
  · cases h
    rfl

theorem growBuf_buf {needed : Nat} (h : growBuf mem msg needed = some msg') :
    msg'.buf = msg.buf := by
  unfold growBuf at h
  split at h
  · dsimp only at h
    split at h
    · cases h
      rfl
    · cases h
  · cases h
    rfl

theorem addAttr_buf {type : U8} {data : List U8}
    (h : radiusMsgAddAttr mem msg type data = some msg') :
    msg'.buf = msg.buf ++
      (type :: BitVec.ofNat 8 (sizeofRadiusAttrHdr + data.length) :: data) := by
  unfold radiusMsgAddAttr at h
  split at h
  · cases h
  · obtain ⟨grown, hgrow, hadd⟩ := Option.bind_eq_some_iff.mp h
    rw [addAttrToArray_buf hadd, growBuf_buf hgrow]

theorem addAttr_attrs {type : U8} {data : List U8}
    (h : radiusMsgAddAttr mem msg type data = some msg') :
    msg'.attrs = msg.attrs ++ [msg.buf.length] := by
  unfold radiusMsgAddAttr at h
  split at h
  · cases h
  · obtain ⟨grown, hgrow, hadd⟩ := Option.bind_eq_some_iff.mp h
    rw [addAttrToArray_attrs hadd, growBuf_attrs hgrow, growBuf_buf hgrow]

end

end Building

section Reading

variable (msg : RadiusMsg)

/-- `Radius_msg_get_attr`: the value of the first attribute of a type. -/
def radiusMsgGetAttr (type : U8) : Option (List U8) := (msg.attr? type).map msg.attrValue

def radiusMsgGetAttrInt32 (type : U8) : Option Nat :=
  (radiusMsgGetAttr msg type).bind fun value =>
    if value.length = 4 then some (ntohl value 0) else none

/-- `Radius_msg_get_eap`: the values of all EAP-Message attributes, one behind the other. -/
def radiusMsgGetEap : Option (List U8) :=
  let eap := (msg.attrs.filter fun attr => msg.attrType attr = radiusAttrEapMessage).flatMap
    msg.attrValue
  if eap = [] then none else some eap

/-- The sixteen bytes of a Message-Authenticator; where the attribute is too short they run on into
what the heap holds behind the buffer. -/
def macBytes (stale : Nat → U8) (attr : Nat) : List U8 :=
  (List.range md5MacLen).map fun k =>
    msg.buf.getD (attr + sizeofRadiusAttrHdr + k) (stale (attr + sizeofRadiusAttrHdr + k))

/-- The buffer as it is hashed: that attribute zero, and the authenticator of the request. -/
def macInput (attr : Nat) (sent : RadiusMsg) : List U8 :=
  let value := attr + sizeofRadiusAttrHdr
  let zeroed := overwrite msg.buf value
    (List.replicate (min md5MacLen (msg.buf.length - value)) 0)
  overwrite zeroed 4 sent.authenticator

/-- `ResponseAuth = MD5(Code+ID+Length+RequestAuth+Attributes+Secret)`. -/
def responseInput (secret : List U8) (sent : RadiusMsg) : List U8 :=
  msg.buf.take 4 ++ sent.authenticator ++ msg.buf.drop sizeofRadiusHdr ++ secret

/-- `Radius_msg_verify`; `true` is its return value 0. -/
def radiusMsgVerify (H : Digest) (stale : Nat → U8) (secret : List U8) (sent : RadiusMsg) : Bool :=
  match msg.attrs.filter fun attr => msg.attrType attr = radiusAttrMessageAuthenticator with
  | [attr] =>
    decide (macBytes msg stale attr = H.hmacMd5 secret (macInput msg attr sent)) &&
      decide (H.md5 (responseInput msg secret sent) = msg.authenticator)
  | _ => false

/-- What the search of one Vendor-Specific attribute comes to: go on with the next one, or return;
`stop none` is the null pointer for a length that no allocation satisfies. -/
inductive VendorSearch where
  | next
  | stop (data : Option (List U8))
  deriving DecidableEq

/-- The inner loop of `Radius_msg_get_ms_attr`, over what is `left` of the attribute. A length of
zero makes it turn forever: then no number of rounds is enough. -/
def searchMs (msType : U8) : Nat → List U8 → Option VendorSearch
  | 0, _ => none
  | n + 1, left =>
    if left.length < 2 then some .next
    else
      let vendorLength := (left.getD 1 0).toNat
      if left.length < vendorLength then some .next
      else if left.getD 0 0 ≠ msType then searchMs msType n (left.drop vendorLength)
      else if vendorLength < 2 then some (.stop none)
      else some (.stop (some (slice left 2 (vendorLength - 2))))

def searchMsAttrs (msType : U8) : List Nat → Option (Option (List U8))
  | [] => some none
  | attr :: attrs =>
    let value := msg.attrValue attr
    if msg.attrType attr ≠ radiusAttrVendorSpecific ∨ value.length < 4 ∨
        ntohl value 0 ≠ radiusVendorIdMicrosoft then
      searchMsAttrs msType attrs
    else
      match searchMs msType value.length (value.drop 4) with
      | none => none
      | some .next => searchMsAttrs msType attrs
      | some (.stop data) => some data

/-- `Radius_msg_get_ms_attr`; the outer `none` is a search that does not end. -/
def radiusMsgGetMsAttr (msType : U8) : Option (Option (List U8)) :=
  searchMsAttrs msg msType msg.attrs

/-- The rounds of `decrypt_ms_key`: each block is hidden by the hash of the secret and `mask`, which
is the block before it. -/
def decryptBlocks (H : Digest) (secret : List U8) : Nat → List U8 → List U8 → List U8
  | 0, _, _ => []
  | n + 1, mask, cipher =>
    List.zipWith (· ^^^ ·) (cipher.take 16) (H.md5 (secret ++ mask)) ++
      decryptBlocks H secret n (cipher.take 16) (cipher.drop 16)

def decryptMsKey (H : Digest) (key : List U8) (sent : RadiusMsg) (secret : List U8) :
    Option (List U8) :=
  if key.length < 2 + 16 ∨ (key.length - 2) % 16 ≠ 0 then none
  else
    let plain := decryptBlocks H secret ((key.length - 2) / 16)
      (sent.authenticator ++ key.take 2) (key.drop 2)
    let keyLen := (plain.getD 0 0).toNat
    if plain.length - 1 < keyLen then none else some (slice plain 1 keyLen)

structure RadiusMsMppeKeys where
  send : Option (List U8)
  recv : Option (List U8)
  deriving DecidableEq

def radiusMsgGetMsKeys (H : Digest) (sent : RadiusMsg) (secret : List U8) :
    Option RadiusMsMppeKeys :=
  (radiusMsgGetMsAttr msg radiusVendorAttrMsMppeSendKey).bind fun send =>
    (radiusMsgGetMsAttr msg radiusVendorAttrMsMppeRecvKey).map fun recv =>
      ⟨send.bind fun key => decryptMsKey H key sent secret,
        recv.bind fun key => decryptMsKey H key sent secret⟩

end Reading

end OpenwrtMtk.Dot1x
