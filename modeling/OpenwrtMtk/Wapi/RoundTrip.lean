import OpenwrtMtk.Wapi.Pack

/-!
# Packed frames are unpacked

Each part of an authentication frame as the bytes that packing writes and unpacking reads.
-/

namespace OpenwrtMtk.Wapi

open Toolkit

set_option autoImplicit false

def fixdataBytes (flag : U16) (data : List U8) : List U8 :=
  wordBytes flag ++ (wordBytes (BitVec.ofNat 16 data.length) ++ data)

def FixdataId.bytes (id : FixdataId) : List U8 := fixdataBytes id.idFlag id.idData

def FixdataCert.bytes (cert : FixdataCert) : List U8 := fixdataBytes cert.certFlag cert.certData

def ParaAlg.bytes (para : ParaAlg) : List U8 :=
  [para.paraFlag] ++ (wordBytes (BitVec.ofNat 16 para.paraData.length) ++ para.paraData)

def FixdataAlg.bytes (alg : FixdataAlg) : List U8 :=
  wordBytes alg.algLength ++ ([alg.sha256Flag] ++ ([alg.signAlg] ++ alg.signPara.bytes))

def idsBytes (ids : List FixdataId) : List U8 := ids.flatMap FixdataId.bytes

theorem idsBytes_cons (id : FixdataId) (ids : List FixdataId) :
    idsBytes (id :: ids) = id.bytes ++ idsBytes ids := rfl

def IdList.bytes (list : IdList) : List U8 :=
  [list.identifier] ++ (wordBytes list.length ++ ([list.rev] ++
    (wordBytes (BitVec.ofNat 16 list.ids.length) ++ idsBytes list.ids)))

def byteDataBytes (data : List U8) : List U8 := [BitVec.ofNat 8 data.length] ++ data

def commDataBytes (data : List U8) : List U8 := wordBytes (BitVec.ofNat 16 data.length) ++ data

def AuthPayload.bytes (payload : AuthPayload) : List U8 :=
  [payload.identifier] ++ (wordBytes payload.length ++ (payload.id.bytes ++
    (payload.alg.bytes ++ commDataBytes payload.signData)))

def AccessAuthRequest.fields (req : AccessAuthRequest) : List U8 :=
  byteDataBytes req.keyData ++ (req.aeId.bytes ++ (req.asueCert.bytes ++ (req.ecdh.bytes ++
    if req.asuIdList.identifier = idListIdentifier then req.asuIdList.bytes else [])))

def AccessAuthRequest.signed (req : AccessAuthRequest) : List U8 :=
  [req.flag] ++ (req.aeAuthFlag.val ++ (req.asueChallenge.val ++ req.fields))

def AccessAuthRequest.bytes (req : AccessAuthRequest) : List U8 :=
  req.signed ++ req.asueSign.bytes

def AuthActive.bytes (active : AuthActive) : List U8 :=
  [active.flag] ++ (active.aeAuthFlag.val ++ (active.asuId.bytes ++ (active.aeCer.bytes ++
    active.ecdh.bytes)))

section Unpack

open Reader

variable {off : Nat}

theorem yields_readByte (b : U8) : Yields readByte off [b] b := (Yields.copy [b]).last

theorem yields_readWord (w : U16) : Yields readWord off (wordBytes w) w := by
  have hcopy : Yields readWord off (wordBytes w)
      (wordOf (byteAt (wordBytes w) 0) (byteAt (wordBytes w) 1)) := (Yields.copy _).last
  have hword : wordOf (byteAt (wordBytes w) 0) (byteAt (wordBytes w) 1) = w := wordOf_wordBytes w
  rw [hword] at hcopy
  exact hcopy

theorem yields_cUnpackByte (b : U8) : Yields cUnpackByte off [b] b :=
  Yields.room (Nat.le_refl _) (yields_readByte b)

theorem yields_cUnpackWord (w : U16) : Yields cUnpackWord off (wordBytes w) w :=
  Yields.room (Nat.le_refl _) (yields_readWord w)

theorem yields_cUnpack32bytes (v : Nonce) : Yields cUnpack32bytes off v.val v := by
  have hlen : v.val.length = 32 := v.property
  have hcopy : Yields (copy v.val.length >>= fun bs => pure (padded 32 bs)) off v.val
      (padded 32 v.val) := (Yields.copy _).last
  rw [padded_self, hlen] at hcopy
  exact Yields.room (Nat.le_of_eq hlen.symm) hcopy

theorem toNat_length {n : Nat} {data : List U8} (h : data.length < 2 ^ n) :
    (BitVec.ofNat n data.length).toNat = data.length := by
  rw [BitVec.toNat_ofNat]
  exact Nat.mod_eq_of_lt h

theorem length_ne_zero {n : Nat} {data : List U8} (h : data.length < 2 ^ n) (hne : data ≠ []) :
    BitVec.ofNat n data.length ≠ 0 := by
  intro hzero
  have hlen := toNat_length h
  rw [hzero] at hlen
  exact hne (List.eq_nil_of_length_eq_zero hlen.symm)

theorem yields_copy {n : Nat} {data : List U8} (h : n = data.length) :
    Yields (copy n) off data data := by
  rw [h]
  exact .copy data

theorem yields_cUnpackByteData {data : List U8} (hne : data ≠ []) (hlen : data.length < 256) :
    Yields cUnpackByteData off (byteDataBytes data) data := by
  have hlength := toNat_length (n := 8) hlen
  refine .room (by simp [byteDataBytes]) (.bind (yields_readByte _) ?_)
  refine .room (Nat.le_of_eq hlength) (.step (.check (length_ne_zero hlen hne)) ?_)
  exact yields_copy hlength

theorem yields_cUnpackCommData {data : List U8} (hne : data ≠ []) (hlen : data.length ≤ 256) :
    Yields cUnpackCommData off (commDataBytes data) data := by
  have hword : data.length < 2 ^ 16 := by omega
  have hlength := toNat_length hword
  refine .room (by simp [commDataBytes]) (.bind (yields_readWord _) ?_)
  refine .room (Nat.le_of_eq hlength) (.step (.check ?_) (.step (.check (length_ne_zero hword hne))
    (.step (.demand ?_) (yields_copy hlength))))
  · rw [hlength, commDataLen]
    omega
  · rw [hlength, maxByteDataLen]
    exact hlen

theorem yields_unpackWaiFixdataCert {cert : FixdataCert} (hlen : cert.certData.length < 65536) :
    Yields unpackWaiFixdataCert off cert.bytes cert := by
  have hlength := toNat_length (n := 16) hlen
  refine .room (by simp [FixdataCert.bytes, fixdataBytes]) (.bind (yields_cUnpackWord _) ?_)
  refine .room (by simp) (.bind (yields_cUnpackWord _) (.room (Nat.le_of_eq hlength) ?_))
  exact (yields_copy hlength).last (f := FixdataCert.mk cert.certFlag)

theorem yields_unpackWaiFixdataId {id : FixdataId} (hlen : id.idData.length ≤ maxIdDataLen) :
    Yields unpackWaiFixdataId off id.bytes id := by
  have hword : id.idData.length < 2 ^ 16 := by
    rw [maxIdDataLen] at hlen
    omega
  have hlength := toNat_length hword
  refine .room (by simp [FixdataId.bytes, fixdataBytes]) (.bind (yields_cUnpackWord _) ?_)
  refine .room (by simp) (.bind (yields_cUnpackWord _) (.room (Nat.le_of_eq hlength) ?_))
  refine .step (.demand (by rw [hlength]; exact hlen)) ?_
  exact (yields_copy hlength).last (f := FixdataId.mk id.idFlag)

theorem yields_unpackIds {ids : List FixdataId} {i : Nat} (hroom : i + ids.length ≤ maxIdNo)
    (hids : ∀ id ∈ ids, id.idData.length ≤ maxIdDataLen) :
    Yields (unpackIds ids.length i) off (idsBytes ids) ids := by
  induction ids generalizing i off with
  | nil => exact .pure _
  | cons id ids ih =>
    rw [List.length_cons] at hroom
    have hid := hids id List.mem_cons_self
    have hrest : ∀ off, Yields (unpackIds ids.length (i + 1)) off (idsBytes ids) ids :=
      fun off => ih (by omega) fun other hother => hids other (List.mem_cons_of_mem id hother)
    rw [idsBytes_cons]
    refine .room (by simp [FixdataId.bytes, fixdataBytes]) (.step (.demand (by omega)) ?_)
    exact (yields_unpackWaiFixdataId hid).bind ((hrest _).last (f := List.cons id))

theorem yields_unpackWaiAttridataIdList {list : IdList} (hroom : list.ids.length ≤ maxIdNo)
    (hids : ∀ id ∈ list.ids, id.idData.length ≤ maxIdDataLen) :
    Yields unpackWaiAttridataIdList off list.bytes list := by
  have hno : (BitVec.ofNat 16 list.ids.length).toNat = list.ids.length := by
    rw [BitVec.toNat_ofNat, maxIdNo] at *
    exact Nat.mod_eq_of_lt (by omega)
  have hall : ∀ off, Yields (unpackIds (BitVec.ofNat 16 list.ids.length).toNat 0) off
      (idsBytes list.ids) list.ids := by
    intro off
    rw [hno]
    exact yields_unpackIds (by omega) hids
  refine .bind (yields_cUnpackByte _) (.bind (yields_cUnpackWord _) (.bind (yields_cUnpackByte _)
    (.bind (yields_cUnpackWord _) ?_)))
  exact (hall _).last (f := IdList.mk list.identifier list.length list.rev)

theorem yields_unpackEcdh {para : ParaAlg} (hlen : para.paraData.length ≤ maxParaLen) :
    Yields unpackEcdh off para.bytes para := by
  have hlength : (BitVec.ofNat 16 para.paraData.length).toNat = para.paraData.length := by
    rw [maxParaLen] at hlen
    exact toNat_length (by omega)
  refine .bind (yields_cUnpackByte _) (.bind (yields_cUnpackWord _)
    (.step (.demand (by rw [hlength]; exact hlen)) ?_))
  exact (yields_copy hlength).last (f := ParaAlg.mk para.paraFlag)

theorem yields_cUnpackSignAlg {alg : FixdataAlg}
    (hlen : alg.signPara.paraData.length ≤ maxParaLen) :
    Yields cUnpackSignAlg off alg.bytes alg := by
  have hlength : (BitVec.ofNat 16 alg.signPara.paraData.length).toNat =
      alg.signPara.paraData.length := by
    rw [maxParaLen] at hlen
    exact toNat_length (by omega)
  refine .bind (yields_cUnpackWord _) (.bind (yields_cUnpackByte _) (.bind (yields_cUnpackByte _)
    (.bind (yields_cUnpackByte _) (.bind (yields_cUnpackWord _)
      (.room (Nat.le_of_eq hlength) (.step (.demand (by rw [hlength]; exact hlen)) ?_))))))
  exact (yields_copy hlength).last
    (f := fun data => FixdataAlg.mk alg.algLength alg.sha256Flag alg.signAlg
      ⟨alg.signPara.paraFlag, data⟩)

theorem yields_unpackWaiAttridataAuthPayload {payload : AuthPayload}
    (hone : payload.identifier = 1) (hid : payload.id.idData.length ≤ maxIdDataLen)
    (hpara : payload.alg.signPara.paraData.length ≤ maxParaLen) (hne : payload.signData ≠ [])
    (hsign : payload.signData.length ≤ 256)
    (hlength : payload.length.toNat = 4 + payload.id.idData.length + 2 +
      payload.alg.algLength.toNat + 2 + payload.signData.length) :
    Yields unpackWaiAttridataAuthPayload off payload.bytes payload := by
  refine .bind (yields_cUnpackByte _) (.step (.check hone) (.bind (yields_cUnpackWord _)
    (.bind (yields_unpackWaiFixdataId hid) (.bind (yields_cUnpackSignAlg hpara) ?_))))
  exact (yields_cUnpackCommData hne hsign).followed (.step (.check hlength) (.pure _))

/-- What a request must be to be read back: its list is there exactly when the flag says so. -/
structure AccessAuthRequest.Readable (req : AccessAuthRequest) : Prop where
  keyData : req.keyData ≠ [] ∧ req.keyData.length < 256
  aeId : req.aeId.idData.length ≤ maxIdDataLen
  asueCert : req.asueCert.certData.length < 65536
  ecdh : req.ecdh.paraData.length ≤ maxParaLen
  listed : optionIsOn req.flag = true → req.asuIdList.identifier = idListIdentifier
  unlisted : optionIsOn req.flag = false → req.asuIdList = .zero
  idNo : req.asuIdList.ids.length ≤ maxIdNo
  ids : ∀ id ∈ req.asuIdList.ids, id.idData.length ≤ maxIdDataLen

/-- A payload that is read back. -/
structure AuthPayload.Readable (payload : AuthPayload) : Prop where
  identifier : payload.identifier = 1
  id : payload.id.idData.length ≤ maxIdDataLen
  alg : payload.alg.signPara.paraData.length ≤ maxParaLen
  signData : payload.signData ≠ [] ∧ payload.signData.length ≤ 256
  length : payload.length.toNat = 4 + payload.id.idData.length + 2 +
    payload.alg.algLength.toNat + 2 + payload.signData.length

theorem yields_unpackAccessAuthRequest {req : AccessAuthRequest} (hreq : req.Readable)
    (hsign : req.asueSign.Readable) :
    Yields unpackAccessAuthRequest 0 req.bytes (req, req.signed.length) := by
  have hpayload : ∀ off, Yields unpackWaiAttridataAuthPayload off req.asueSign.bytes
      req.asueSign := fun off =>
    yields_unpackWaiAttridataAuthPayload hsign.identifier hsign.id hsign.alg hsign.signData.1
      hsign.signData.2 hsign.length
  have hbytes : req.bytes = [req.flag] ++ (req.aeAuthFlag.val ++ (req.asueChallenge.val ++
      (byteDataBytes req.keyData ++ (req.aeId.bytes ++ (req.asueCert.bytes ++ (req.ecdh.bytes ++
        ((if req.asuIdList.identifier = idListIdentifier then req.asuIdList.bytes else []) ++
          req.asueSign.bytes))))))) := by
    simp only [AccessAuthRequest.bytes, AccessAuthRequest.signed, AccessAuthRequest.fields,
      List.append_assoc]
  have hoff : req.signed.length = 0 + [req.flag].length + req.aeAuthFlag.val.length +
      req.asueChallenge.val.length + (byteDataBytes req.keyData).length + req.aeId.bytes.length +
      req.asueCert.bytes.length + req.ecdh.bytes.length +
      (if req.asuIdList.identifier = idListIdentifier then req.asuIdList.bytes else []).length := by
    simp only [AccessAuthRequest.signed, AccessAuthRequest.fields, List.length_append]
    omega
  rw [hbytes, hoff]
  refine .bind (yields_cUnpackByte _) (.bind (yields_cUnpack32bytes _)
    (.bind (yields_cUnpack32bytes _)
      (.bind (yields_cUnpackByteData hreq.keyData.1 hreq.keyData.2)
        (.bind (yields_unpackWaiFixdataId hreq.aeId)
          (.bind (yields_unpackWaiFixdataCert hreq.asueCert)
            (.bind (yields_unpackEcdh hreq.ecdh) ?_))))))
  cases hopt : optionIsOn req.flag with
  | true =>
    have hthree := hreq.listed hopt
    rw [if_pos hthree]
    have hlist : req.asuIdList.bytes ++ req.asueSign.bytes =
        req.asuIdList.identifier :: (req.asuIdList.bytes.drop 1 ++ req.asueSign.bytes) := rfl
    rw [hlist]
    apply Yields.peek
    rw [← hlist, if_pos ⟨hthree, rfl⟩]
    exact (yields_unpackWaiAttridataIdList hreq.idNo hreq.ids).bind (.step .offset (hpayload _).last)
  | false =>
    have hzero := hreq.unlisted hopt
    have hnone : (if req.asuIdList.identifier = idListIdentifier then req.asuIdList.bytes
        else []) = [] := by
      rw [hzero]
      rfl
    have hone : req.asueSign.bytes = req.asueSign.identifier :: req.asueSign.bytes.drop 1 := rfl
    rw [hnone, List.nil_append, hone]
    apply Yields.peek
    rw [← hone, if_neg (by simp), ← hzero]
    exact .step (.pure _) (.step .offset (hpayload _).last)

theorem yields_unpackAeAuthActive {active : AuthActive}
    (hid : active.asuId.idData.length ≤ maxIdDataLen)
    (hcert : active.aeCer.certData.length < 65536)
    (hecdh : active.ecdh.paraData.length ≤ maxParaLen) :
    Yields unpackAeAuthActive 0 active.bytes active :=
  .bind (yields_cUnpackByte _) (.bind (yields_cUnpack32bytes _)
    (.bind (yields_unpackWaiFixdataId hid) (.bind (yields_unpackWaiFixdataCert hcert)
      (yields_unpackEcdh hecdh).last)))

end Unpack

section Pack

variable {bufflen : Nat}

theorem emits_memcpy (bs : List U8) : Emits commDataLen (memcpy bs) bs () :=
  .put (by decide)

theorem emits_cPackNbytes (h : commDataLen ≤ bufflen) (bs : List U8) :
    Emits commDataLen (cPackNbytes bs bufflen) bs () := by
  have hguard : ∀ n, n + bs.length ≤ commDataLen → ¬n + bs.length > bufflen := by
    intro n hn
    omega
  exact Emits.guarded hguard (emits_memcpy bs)

theorem emits_cPackByte (h : commDataLen ≤ bufflen) (b : U8) :
    Emits commDataLen (cPackByte b bufflen) [b] () := emits_cPackNbytes h [b]

theorem emits_cPackWord (h : commDataLen ≤ bufflen) (w : U16) :
    Emits commDataLen (cPackWord w bufflen) (wordBytes w) () := emits_cPackNbytes h _

theorem emits_cPackByteData (h : commDataLen ≤ bufflen) (data : List U8) :
    Emits commDataLen (cPackByteData data bufflen) (byteDataBytes data) () := by
  have hlen : (byteDataBytes data).length = data.length + 1 := by simp [byteDataBytes]
  have hguard : ∀ n, n + (byteDataBytes data).length ≤ commDataLen →
      ¬n + data.length + 1 > bufflen := by
    intro n hn
    omega
  exact Emits.guarded hguard
    ((emits_cPackByte h (BitVec.ofNat 8 data.length)).bind (emits_memcpy data))

theorem emits_packFixdata (h : commDataLen ≤ bufflen) (flag : U16) (data : List U8) :
    Emits commDataLen (packFixdata flag data bufflen) (fixdataBytes flag data) () :=
  (emits_cPackWord h flag).bind ((emits_cPackWord h _).bind (emits_memcpy data))

theorem emits_packEcdh (h : commDataLen ≤ bufflen) (para : ParaAlg) :
    Emits commDataLen (packEcdh para bufflen) para.bytes () :=
  (emits_cPackByte h para.paraFlag).bind ((emits_memcpy _).bind (emits_memcpy para.paraData))

theorem emits_packIds (h : commDataLen ≤ bufflen) (ids : List FixdataId) :
    Emits commDataLen (packIds ids bufflen) (idsBytes ids) () := by
  induction ids with
  | nil => exact .pure ()
  | cons id ids ih =>
    rw [idsBytes_cons, FixdataId.bytes, fixdataBytes, List.append_assoc, List.append_assoc]
    exact (emits_cPackWord h id.idFlag).bind ((emits_cPackWord h _).bind
      ((emits_cPackNbytes h id.idData).bind ih))

theorem emits_packIdList (h : commDataLen ≤ bufflen) (list : IdList) :
    Emits commDataLen (packIdList list bufflen) list.bytes () :=
  (emits_cPackByte h list.identifier).bind ((emits_cPackWord h list.length).bind
    ((emits_cPackByte h list.rev).bind ((emits_cPackWord h _).bind (emits_packIds h list.ids))))

theorem emits_cPackSignAlg (h : commDataLen ≤ bufflen) {alg : FixdataAlg}
    (hlen : alg.algLength.toNat = alg.signPara.paraData.length + 5) :
    Emits commDataLen (cPackSignAlg alg bufflen) alg.bytes () := by
  have hsize : alg.bytes.length = alg.algLength.toNat + 2 := by
    rw [hlen]
    simp [FixdataAlg.bytes, ParaAlg.bytes]
    omega
  have hguard : ∀ n, n + alg.bytes.length ≤ commDataLen →
      ¬n + alg.algLength.toNat + 2 > bufflen := by
    intro n hn
    omega
  exact Emits.guarded hguard ((emits_cPackWord h alg.algLength).bind ((emits_cPackByte h alg.sha256Flag).bind
      ((emits_cPackByte h alg.signAlg).bind ((emits_cPackByte h alg.signPara.paraFlag).bind
        ((emits_cPackWord h (BitVec.ofNat 16 alg.signPara.paraData.length)).bind
          (emits_memcpy alg.signPara.paraData))))))

theorem emits_packFields (h : commDataLen ≤ bufflen) (req : AccessAuthRequest) :
    Emits commDataLen (packFields req bufflen) req.fields () := by
  refine (emits_cPackByteData h req.keyData).bind
    ((emits_packFixdata h req.aeId.idFlag req.aeId.idData).bind
      ((emits_packFixdata h req.asueCert.certFlag req.asueCert.certData).bind
        ((emits_packEcdh h req.ecdh).bind ?_)))
  split
  · exact emits_packIdList h req.asuIdList
  · exact .pure ()

def signatureBytes (cert : LocalCert) (sign : Bytes 48) : List U8 :=
  cert.localUserId.bytes ++ (cert.signAlg.bytes ++ commDataBytes sign.val)

theorem emits_packSignature (h : commDataLen ≤ bufflen) {cert : LocalCert} (sign : Bytes 48)
    (hlen : cert.signAlg.algLength.toNat = cert.signAlg.signPara.paraData.length + 5) :
    Emits commDataLen (packSignature cert sign bufflen) (signatureBytes cert sign) () := by
  have hsign : commDataBytes sign.val = wordBytes (BitVec.ofNat 16 signLen) ++ sign.val := by
    rw [commDataBytes, sign.property]
    rfl
  rw [signatureBytes, hsign]
  exact (emits_packFixdata h cert.localUserId.idFlag cert.localUserId.idData).bind
    ((emits_cPackSignAlg h hlen).bind ((emits_cPackWord h _).bind (emits_memcpy sign.val)))

end Pack

def AccessAuthRequest.payload (cert : LocalCert) (req : AccessAuthRequest) : AuthPayload where
  identifier := 1
  length := BitVec.ofNat 16 (signatureBytes cert (cert.sign req.signed)).length
  id := cert.localUserId
  alg := cert.signAlg
  signData := (cert.sign req.signed).val

def AccessAuthRequest.sign (cert : LocalCert) (req : AccessAuthRequest) : AccessAuthRequest :=
  { req with asueSign := req.payload cert }

section Request

variable {cert : LocalCert} {req : AccessAuthRequest}

/-- What a daemon's own certificate must be: its identity and the parameter of its signature
algorithm fit their arrays, and the length of the algorithm is that of its fields. -/
structure LocalCert.Sound (cert : LocalCert) : Prop where
  userId : cert.localUserId.idData.length ≤ maxIdDataLen
  para : cert.signAlg.signPara.paraData.length ≤ maxParaLen
  algLength : cert.signAlg.algLength.toNat = cert.signAlg.signPara.paraData.length + 5

theorem length_signatureBytes (hcert : cert.Sound) (sign : Bytes 48) :
    (signatureBytes cert sign).length = 4 + cert.localUserId.idData.length + 2 +
      cert.signAlg.algLength.toNat + 2 + 48 := by
  rw [hcert.algLength]
  simp [signatureBytes, FixdataId.bytes, fixdataBytes, FixdataAlg.bytes, ParaAlg.bytes,
    commDataBytes]
  omega

theorem payload_bytes : (req.payload cert).bytes = [1] ++ (wordBytes (BitVec.ofNat 16
    (signatureBytes cert (cert.sign req.signed)).length) ++
      signatureBytes cert (cert.sign req.signed)) := rfl

theorem payload_readable (hcert : cert.Sound) : (req.payload cert).Readable where
  identifier := rfl
  id := hcert.userId
  alg := hcert.para
  signData := by
    have hlen : (req.payload cert).signData.length = 48 := (cert.sign req.signed).property
    constructor
    · intro hnil
      rw [hnil] at hlen
      cases hlen
    · omega
  length := by
    have hlen : (req.payload cert).signData.length = 48 := (cert.sign req.signed).property
    have hword : (signatureBytes cert (cert.sign req.signed)).length < 2 ^ 16 := by
      rw [length_signatureBytes hcert, hcert.algLength]
      have huser := hcert.userId
      have hpara := hcert.para
      unfold maxIdDataLen at huser
      unfold maxParaLen at hpara
      omega
    change (BitVec.ofNat 16 (signatureBytes cert (cert.sign req.signed)).length).toNat = _
    rw [toNat_length hword, length_signatureBytes hcert, hlen]
    rfl

theorem patchLength_run (front body : List U8) :
    (patchLength (front.length + 1)).run (front ++ ([1] ++ ([0, 0] ++ body))) =
      some ((), front ++ ([1] ++ (wordBytes (BitVec.ofNat 16 body.length) ++ body))) := by
  have hlen : (front ++ ([1] ++ ([0, 0] ++ body))).length - (front.length + 1) - 2 =
      body.length := by
    simp
    omega
  have hpatch : overwrite (front ++ [1] ++ [0, 0] ++ body) (front ++ [1]).length
      (wordBytes (BitVec.ofNat 16 body.length)) =
        front ++ [1] ++ wordBytes (BitVec.ofNat 16 body.length) ++ body :=
    overwrite_middle _ _ _ rfl
  change some ((), overwrite _ (front.length + 1) (wordBytes (BitVec.ofNat 16 (_ - _ - 2)))) = _
  rw [hlen]
  simp only [List.append_assoc, List.length_append, List.length_singleton] at hpatch
  rw [hpatch]

theorem packPayload_run (hcert : cert.Sound) {front : List U8}
    (hfits : front.length + (3 + (signatureBytes cert (cert.sign front)).length) ≤
      commDataLen) :
    (memcpy [1] >>= fun _ => memcpy [0, 0] >>= fun _ =>
      packSignature cert (cert.sign front) fromMtLen >>= fun _ =>
        patchLength (front.length + 1)).run front =
      some ((), front ++ ([1] ++ (wordBytes (BitVec.ofNat 16
        (signatureBytes cert (cert.sign front)).length) ++
          signatureBytes cert (cert.sign front)))) := by
  have hmt : commDataLen ≤ fromMtLen := by decide
  have hone : [(1 : U8)].length = 1 := rfl
  have htwo : [(0 : U8), 0].length = 2 := rfl
  rw [(emits_memcpy [1]).run_bind (by omega),
    (emits_memcpy [0, 0]).run_bind (by rw [List.length_append]; omega),
    (emits_packSignature hmt _ hcert.algLength).run_bind
      (by rw [List.length_append, List.length_append]; omega),
    List.append_assoc, List.append_assoc]
  exact patchLength_run front _

theorem requestFrame_eq (hcert : cert.Sound)
    (hfits : (req.sign cert).bytes.length ≤ commDataLen) :
    requestFrame cert req = some (req.sign cert).bytes := by
  have hbytes : (req.sign cert).bytes = req.signed ++ (req.payload cert).bytes := rfl
  have hmt : commDataLen ≤ fromMtLen := by decide
  have hhs : commDataLen ≤ maxWaiAuthHsLen := by decide
  have hsigned : [] ++ [req.flag] ++ req.aeAuthFlag.val ++ req.asueChallenge.val ++ req.fields =
      req.signed := by
    simp only [AccessAuthRequest.signed, List.append_assoc, List.nil_append]
  have hlen := congrArg List.length hsigned
  simp only [List.length_append] at hlen
  have hpayload : (req.payload cert).bytes.length =
      3 + (signatureBytes cert (cert.sign req.signed)).length := by
    rw [payload_bytes, List.length_append, List.length_append]
    simp only [List.length_singleton, length_wordBytes]
    omega
  rw [hbytes, List.length_append, hpayload] at hfits
  unfold requestFrame packAccessAuthRequest cPack32bytes
  simp only
  rw [(emits_cPackByte hhs req.flag).run_bind (by simp only [List.length_nil]; omega),
    (emits_cPackNbytes hhs req.aeAuthFlag.val).run_bind (by
      simp only [List.length_append]; omega),
    (emits_cPackNbytes hhs req.asueChallenge.val).run_bind (by
      simp only [List.length_append]; omega),
    (emits_packFields hmt req).run_bind (by simp only [List.length_append]; omega), hsigned]
  -- the test of the signing buffer, with the signed part packed
  change ((if req.signed.length > commDataLen then failure >>= fun _ : Unit => _ else
    memcpy [1] >>= fun _ => _ : Writer Unit).run req.signed).map (·.2) = _
  rw [if_neg (by omega), packPayload_run hcert hfits]
  rfl

theorem activeFrame_eq {active : AuthActive} (hfits : active.bytes.length ≤ commDataLen) :
    activeFrame active = some active.bytes := by
  have hhs : commDataLen ≤ maxWaiAuthHsLen := by decide
  have hemits : Emits commDataLen (do
      cPackByte active.flag maxWaiAuthHsLen
      cPack32bytes active.aeAuthFlag maxWaiAuthHsLen
      packAuthActive active maxWaiAuthHsLen) active.bytes () :=
    (emits_cPackByte hhs active.flag).bind ((emits_cPackNbytes hhs _).bind
      ((emits_packFixdata hhs active.asuId.idFlag active.asuId.idData).bind
        ((emits_packFixdata hhs active.aeCer.certFlag active.aeCer.certData).bind
          (emits_packEcdh hhs active.ecdh))))
  unfold activeFrame
  simp only
  rw [hemits [] (by simpa using hfits)]
  rfl

theorem requestFrame_unpacked (hcert : cert.Sound) (hreq : req.Readable)
    (hfits : (req.sign cert).bytes.length ≤ commDataLen) (stale : List U8) :
    ∃ frame, requestFrame cert req = some frame ∧
      unpackAccessAuthRequest (frame ++ stale) frame.length 0 =
        .read (req.sign cert, req.signed.length) frame.length ∧
      frame.take req.signed.length = req.signed := by
  have hread : Yields unpackAccessAuthRequest 0 (req.sign cert).bytes
      (req.sign cert, req.signed.length) := yields_unpackAccessAuthRequest
    ⟨hreq.keyData, hreq.aeId, hreq.asueCert, hreq.ecdh, hreq.listed, hreq.unlisted, hreq.idNo,
      hreq.ids⟩ (payload_readable hcert)
  have hrun := hread [] stale (req.sign cert).bytes.length rfl (by omega)
  rw [Nat.zero_add] at hrun
  exact ⟨(req.sign cert).bytes, requestFrame_eq hcert hfits, hrun, List.take_left⟩

theorem activeFrame_unpacked {active : AuthActive} (hid : active.asuId.idData.length ≤ maxIdDataLen)
    (hcer : active.aeCer.certData.length < 65536)
    (hecdh : active.ecdh.paraData.length ≤ maxParaLen)
    (hfits : active.bytes.length ≤ commDataLen) (stale : List U8) :
    ∃ frame, activeFrame active = some frame ∧
      unpackAeAuthActive (frame ++ stale) frame.length 0 = .read active frame.length := by
  have hrun := yields_unpackAeAuthActive hid hcer hecdh [] stale active.bytes.length rfl (by omega)
  rw [Nat.zero_add] at hrun
  exact ⟨active.bytes, activeFrame_eq hfits, hrun⟩

theorem wapiAuthActivateCreate_unpacked {pEntry : Entry} {asuId : FixdataId}
    (hid : asuId.idData.length ≤ maxIdDataLen) (hcer : cert.certBin.length < 65536)
    (hfits : (AuthActive.mk pEntry.idFlag pEntry.authId asuId cert.fixdataCert
      waiInitializeEcdh).bytes.length ≤ commDataLen) (stale : List U8) :
    ∃ frame, wapiAuthActivateCreate cert pEntry asuId = some frame ∧
      unpackAeAuthActive (frame ++ stale) frame.length 0 =
        .read ⟨pEntry.idFlag, pEntry.authId, asuId, cert.fixdataCert, waiInitializeEcdh⟩
          frame.length :=
  have hecdh : waiInitializeEcdh.paraData.length ≤ maxParaLen := by decide
  activeFrame_unpacked hid hcer hecdh hfits stale

theorem optionIsOn_or (flag : U8) : optionIsOn (flag ||| 0x08) = true := by
  revert flag
  decide

/-- The flag of a created request says whether it has a list, as long as the entry's own flag does
not claim one. -/
theorem requestContent_readable {pEntry : Entry} {keyData : List U8} {aeId : FixdataId}
    {asuIds : Option (List FixdataId)} (hkey : keyData ≠ [] ∧ keyData.length < 256)
    (hid : aeId.idData.length ≤ maxIdDataLen) (hcer : cert.certBin.length < 65536)
    (hflag : asuIds = none → optionIsOn pEntry.idFlag = false)
    (hids : ∀ ids ∈ asuIds, ids.length ≤ maxIdNo ∧ ∀ id ∈ ids, id.idData.length ≤ maxIdDataLen) :
    (requestContent cert pEntry keyData aeId asuIds).Readable := by
  have hecdh : waiInitializeEcdh.paraData.length ≤ maxParaLen := by decide
  cases asuIds with
  | none =>
    refine ⟨hkey, hid, hcer, hecdh, ?_, fun _ => rfl, Nat.zero_le _, by simp [requestContent, IdList.zero]⟩
    intro hon
    rw [requestContent, if_neg (by simp), hflag rfl] at hon
    cases hon
  | some ids =>
    obtain ⟨hno, hlen⟩ := hids ids rfl
    refine ⟨hkey, hid, hcer, hecdh, fun _ => rfl, ?_, hno, hlen⟩
    intro hoff
    rw [requestContent, if_pos (by rfl), optionIsOn_or] at hoff
    cases hoff

theorem wapiAccessAuthRequestCreate_unpacked {pEntry : Entry} {keyData : List U8}
    {aeId : FixdataId} {asuIds : Option (List FixdataId)} (hcert : cert.Sound)
    (hreq : (requestContent cert pEntry keyData aeId asuIds).Readable)
    (hfits : ((requestContent cert pEntry keyData aeId asuIds).sign cert).bytes.length ≤
      commDataLen) (stale : List U8) :
    ∃ frame, wapiAccessAuthRequestCreate cert pEntry keyData aeId asuIds = some frame ∧
      unpackAccessAuthRequest (frame ++ stale) frame.length 0 =
        .read ((requestContent cert pEntry keyData aeId asuIds).sign cert,
          (requestContent cert pEntry keyData aeId asuIds).signed.length) frame.length := by
  obtain ⟨frame, hframe, hrun, -⟩ := requestFrame_unpacked hcert hreq hfits stale
  exact ⟨frame, hframe, hrun⟩

end Request

/-- Frames that are packed are unpacked to what they were packed from, with whatever bytes lie
behind them in the buffer; the signature of a request is that of the part in front of its
payload. -/
theorem auth_frames_survive_packing (cert : LocalCert) (req : AccessAuthRequest)
    (active : AuthActive) (stale : List U8) (hcert : cert.Sound) (hreq : req.Readable)
    (hreqFits : (req.sign cert).bytes.length ≤ 3000)
    (hid : active.asuId.idData.length ≤ 1000) (hcer : active.aeCer.certData.length < 65536)
    (hecdh : active.ecdh.paraData.length ≤ 20) (hactiveFits : active.bytes.length ≤ 3000) :
    (∃ frame payload noSigndataLen, requestFrame cert req = some frame ∧
      unpackAccessAuthRequest (frame ++ stale) frame.length 0 =
        .read ({ req with asueSign := payload }, noSigndataLen) frame.length ∧
      payload.id = cert.localUserId ∧ payload.alg = cert.signAlg ∧
      payload.signData = (cert.sign (frame.take noSigndataLen)).val) ∧
    (∃ frame, activeFrame active = some frame ∧
      unpackAeAuthActive (frame ++ stale) frame.length 0 = .read active frame.length) := by
  obtain ⟨frame, hframe, hrun, hsigned⟩ := requestFrame_unpacked hcert hreq hreqFits stale
  constructor
  · refine ⟨frame, req.payload cert, req.signed.length, hframe, hrun, rfl, rfl, ?_⟩
    rw [hsigned]
    rfl
  · exact activeFrame_unpacked hid hcer hecdh hactiveFits stale

def exampleCert : LocalCert where
  usedCert := 1
  certBin := [1, 2, 3]
  localUserId := ⟨1, [4, 5]⟩
  signAlg := ⟨16, 1, 1, waiInitializeEcdh⟩
  sign data := padded 48 (data.take 1)

def exampleRequest : AccessAuthRequest where
  flag := 8
  aeAuthFlag := .zero 32
  asueChallenge := padded 32 [6]
  keyData := [7, 8]
  aeId := ⟨1, [9]⟩
  asueCert := exampleCert.fixdataCert
  asuIdList := asuIdListOf [⟨1, [10]⟩]
  ecdh := waiInitializeEcdh
  asueSign := ⟨0, 0, ⟨0, []⟩, ⟨0, 0, 0, ⟨0, []⟩⟩, []⟩

def exampleActive : AuthActive := ⟨0, .zero 32, ⟨1, [9]⟩, exampleCert.fixdataCert, waiInitializeEcdh⟩

theorem exampleCert_sound : exampleCert.Sound where
  userId := by decide
  para := by decide
  algLength := by decide

theorem exampleRequest_readable : exampleRequest.Readable where
  keyData := by decide
  aeId := by decide
  asueCert := by decide
  ecdh := by decide
  listed := by decide
  unlisted := by decide
  idNo := by decide
  ids := by decide

theorem auth_frames_survive_packing_listed :
    (∃ frame payload noSigndataLen, requestFrame exampleCert exampleRequest = some frame ∧
      unpackAccessAuthRequest (frame ++ [3]) frame.length 0 =
        .read ({ exampleRequest with asueSign := payload }, noSigndataLen) frame.length) ∧
    (∃ frame, activeFrame exampleActive = some frame) := by
  obtain ⟨⟨frame, payload, n, hframe, hrun, -⟩, active, hactive, -⟩ :=
    auth_frames_survive_packing exampleCert exampleRequest exampleActive [3] exampleCert_sound
      exampleRequest_readable (by decide +kernel) (by decide) (by decide) (by decide)
      (by decide +kernel)
  exact ⟨⟨frame, payload, n, hframe, hrun⟩, active, hactive⟩

end OpenwrtMtk.Wapi
