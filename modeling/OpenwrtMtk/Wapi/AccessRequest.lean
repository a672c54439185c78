import OpenwrtMtk.Wapi.KeyHandlers
import OpenwrtMtk.Wapi.Pack
import Mathlib.Tactic.Tauto

/-!
# The access authentication request at the AE

`WaiPeerAccessAuthReqAction` and the check it calls. The check finds out whether the request is
good, but it ends in `return 0` whatever it found; only a request of less than 12 bytes is refused
by its result. What becomes of a bad request, exactly.
-/

namespace OpenwrtMtk.Wapi

open Toolkit

set_option autoImplicit false

/-- The operations on certificates. -/
structure CertCrypto where
  /-- `decode` and `get_public_key`; `none` when there is no key to read. -/
  publicKey : List U8 → Option (List U8)
  /-- `verify` of a text and its signature under a key. -/
  verify : List U8 → List U8 → List U8 → Bool
  /-- `wai_fixdata_id_by_ident` of a certificate, over what was there. -/
  identify : List U8 → FixdataId → FixdataId
  sha256 : List U8 → Bytes 32

/-- What an AE is configured with. -/
structure Ap where
  mbss : Mbss
  localCert : LocalCert
  localEcdh : ParaAlg

/-- The answers one call gets. -/
structure AuthEnv where
  random : Nonce
  malloc : Bool
  /-- `send` to the authentication server succeeds. -/
  send : Bool

/-- The retry timer is that of the certificate authentication. -/
inductive AuthEffect where
  | cancelTimeout
  | registerTimeout
  | clientSend (msgType : SubType) (body : List U8)
  deriving DecidableEq

def authWaitCertRespCtr : U8 := 20

section Check

variable (pAd : Ap) (c : CertCrypto)

/-- The certificate and the list of ASUs fit their arrays, or there is no result. -/
def storeRequest (req : AccessAuthRequest) (pEntry : Entry) : Option Entry :=
  if req.asueCert.certData.length > 1000 then none
  else some { pEntry with
    snonce := req.asueChallenge
    cert :=
      { asueCertHash := c.sha256 req.asueCert.certData
        asueKeyData := req.keyData
        userId := c.identify req.asueCert.certData pEntry.cert.userId
        userCert := req.asueCert
        asuIdList := req.asuIdList } }

/-- What the check finds: the code in `ret`, or the good request. -/
def requestRet (recvfromAsue : List U8) (len : Nat) : Option (Except Int AccessAuthRequest) :=
  match unpackAccessAuthRequest recvfromAsue len 0 with
  | .fault => none
  | .refused => some (.error (-1))
  | .read (req, noSigndataLen) _ =>
    if req.aeId ≠ pAd.localCert.localUserId then some (.error (-1))
    else if req.ecdh ≠ pAd.localEcdh then some (.error (-1))
    else if noSigndataLen > commDataLen then none
    else if req.asueCert.certFlag ≠ 1 then some (.error (-2))
    else
      match c.publicKey req.asueCert.certData with
      | none => none
      | some pubkey =>
        if c.verify pubkey (recvfromAsue.take noSigndataLen) req.asueSign.signData then
          some (.ok req)
        else some (.error (-1))

/-- `ret` is not what is returned. -/
def wapiAccessAuthRequestCheck (recvfromAsue : List U8) (len : Nat) (pEntry : Entry) :
    Option (Int × Entry) :=
  if len < 12 then some (-1, pEntry)
  else
    match requestRet pAd c recvfromAsue len with
    | none => none
    | some (.error _) => some (0, pEntry)
    | some (.ok req) => (storeRequest c req pEntry).map fun pEntry => (0, pEntry)

end Check

section Action

variable (pAd : Ap) (c : CertCrypto) (env : AuthEnv) (elem : Elem) (pEntry : Entry)

def wapiCertificateAuthRequestCreate : Option (List U8) :=
  let pack : Writer Unit := do
    memcpy pEntry.addid.val
    cPack32bytes pEntry.anonce maxWaiAuthHsLen
    cPack32bytes pEntry.snonce maxWaiAuthHsLen
    packFixdata pEntry.cert.userCert.certFlag pEntry.cert.userCert.certData fromMtLen
    packFixdata pAd.localCert.usedCert pAd.localCert.certBin fromMtLen
    if pEntry.cert.asuIdList.identifier = idListIdentifier then
      packIdList pEntry.cert.asuIdList fromMtLen
    else pure ()
  (pack.run []).map (·.2)

/-- The header and the frame are put together in an array of 3000 bytes. -/
def wapiClientSend (body : List U8) : Option Bool :=
  if lengthHeaderWai + body.length > 3000 then none else some env.send

/-- `ADDID` and the two challenges of the request to the server. -/
def Entry.challenged : Entry :=
  { pEntry with
    addid := addidOf pAd.mbss.wlanAddr pEntry.addr
    anonce := env.random
    snonce := field elem.body 33 32 }

/-- A request that passed the check is sent on. -/
def sendCertAuthReq : Option (Entry × List AuthEffect) :=
  let pEntry := pEntry.challenged pAd env elem
  if env.malloc = false then some (pEntry, [.cancelTimeout])
  else
    match wapiCertificateAuthRequestCreate pAd pEntry with
    | none => none
    | some body =>
      match wapiClientSend env body with
      | none => none
      | some false => some (pEntry, [.cancelTimeout])
      | some true =>
        some ({ pEntry with
            waiAuthState := .waitCertAuthResp
            retryCnt := authWaitCertRespCtr },
          [.cancelTimeout, .clientSend .certAuthReq body, .registerTimeout])

/-- In a BK update the authentication identity of the last negotiation is used. -/
def Entry.expecting : Entry :=
  if pEntry.waiAuthState = .certAuthDone then { pEntry with authId := pEntry.bkAuthId } else pEntry

/-- The identity of an update, or the flag bits of a first request, are not the ones expected. -/
def unexpected : Bool :=
  if pEntry.waiAuthState = .certAuthDone then field elem.body 1 32 != pEntry.bkAuthId
  else byteAt elem.body 0 &&& 0x01 != pEntry.idFlag &&& 0x01 ||
    byteAt elem.body 0 &&& 0x02 != pEntry.idFlag &&& 0x02

def waiPeerAccessAuthReqAction : Option (Entry × List AuthEffect) :=
  if elem.msgLen ≤ lengthHeaderWai then some (pEntry, [])
  else if pEntry.valid = false then some (pEntry, [])
  else if unexpected elem pEntry then some (pEntry.expecting, [])
  else
    let pEntry := { pEntry.expecting with idFlag := byteAt elem.body 0 }
    match wapiAccessAuthRequestCheck pAd c elem.body (elem.msgLen - lengthHeaderWai) pEntry with
    | none => none
    | some (ret, pEntry) =>
      if ret ≠ 0 then some (pEntry, []) else sendCertAuthReq pAd env elem pEntry

end Action

section Refused

variable (pAd : Ap) (c : CertCrypto) (env : AuthEnv) (elem : Elem) (pEntry : Entry)

def BadRequest : Prop :=
  ∀ req, requestRet pAd c elem.body (elem.msgLen - lengthHeaderWai) ≠ some (.ok req)

def Refused (r : Option (Entry × List AuthEffect)) : Prop :=
  ∃ e effects, r = some (e, effects) ∧ (∀ t body, .clientSend t body ∉ effects) ∧
    e.waiAuthState = pEntry.waiAuthState ∧ e.anonce = pEntry.anonce ∧
    e.snonce = pEntry.snonce ∧ e.cert = pEntry.cert

def DroppedBefore : Prop :=
  elem.msgLen ≤ lengthHeaderWai ∨ pEntry.valid = false ∨ unexpected elem pEntry = true ∨
    elem.msgLen - lengthHeaderWai < 12

def Entry.requesting : Entry :=
  Entry.challenged pAd env elem { pEntry.expecting with idFlag := byteAt elem.body 0 }

/-- The request is taken for a good one, but the call stores the values that are there and sends
nothing. -/
def PassesUnnoticed : Prop :=
  requestRet pAd c elem.body (elem.msgLen - lengthHeaderWai) ≠ none ∧
  env.random = pEntry.anonce ∧ field elem.body 33 32 = pEntry.snonce ∧
  (env.malloc = false ∨ ∃ body,
    wapiCertificateAuthRequestCreate pAd (pEntry.requesting pAd env elem) = some body ∧
      lengthHeaderWai + body.length ≤ 3000 ∧ env.send = false)

variable {pAd c env elem pEntry}

theorem expecting_keeps : pEntry.expecting.waiAuthState = pEntry.waiAuthState ∧
    pEntry.expecting.anonce = pEntry.anonce ∧ pEntry.expecting.snonce = pEntry.snonce ∧
    pEntry.expecting.cert = pEntry.cert := by
  unfold Entry.expecting
  split <;> exact ⟨rfl, rfl, rfl, rfl⟩

theorem sendCertAuthReq_refused_iff :
    Refused pEntry (sendCertAuthReq pAd env elem
        { pEntry.expecting with idFlag := byteAt elem.body 0 }) ↔
      env.random = pEntry.anonce ∧ field elem.body 33 32 = pEntry.snonce ∧
        (env.malloc = false ∨ ∃ body,
          wapiCertificateAuthRequestCreate pAd (pEntry.requesting pAd env elem) = some body ∧
            lengthHeaderWai + body.length ≤ 3000 ∧ env.send = false) := by
  obtain ⟨hstate, -, -, hcert⟩ := @expecting_keeps pEntry
  have hkept : Refused pEntry (some (pEntry.requesting pAd env elem, [.cancelTimeout])) ↔
      env.random = pEntry.anonce ∧ field elem.body 33 32 = pEntry.snonce := by
    constructor
    · rintro ⟨e, effects, heq, -, -, hanonce, hsnonce, -⟩
      cases heq
      exact ⟨hanonce, hsnonce⟩
    · rintro ⟨hanonce, hsnonce⟩
      exact ⟨_, _, rfl, by simp, hstate, hanonce, hsnonce, hcert⟩
  unfold sendCertAuthReq
  change Refused pEntry (if env.malloc = false then some (pEntry.requesting pAd env elem, _) else
    match wapiCertificateAuthRequestCreate pAd (pEntry.requesting pAd env elem) with
    | none => none
    | some body => _) ↔ _
  split
  · rename_i hmalloc
    rw [hkept]
    simp [hmalloc]
  · rename_i hmalloc
    cases hcreate : wapiCertificateAuthRequestCreate pAd (pEntry.requesting pAd env elem) with
    | none =>
      constructor
      · rintro ⟨e, effects, heq, -⟩
        cases heq
      · rintro ⟨-, -, hfail | ⟨body, hbody, -⟩⟩
        · exact absurd hfail hmalloc
        · cases hbody
    | some body =>
      simp only [wapiClientSend]
      by_cases hlong : lengthHeaderWai + body.length > 3000
      · rw [if_pos hlong]
        constructor
        · rintro ⟨e, effects, heq, -⟩
          cases heq
        · rintro ⟨-, -, hfail | ⟨other, hother, hfits, -⟩⟩
          · exact absurd hfail hmalloc
          · cases hother
            omega
      · rw [if_neg hlong]
        cases hsend : env.send with
        | false =>
          refine hkept.trans ?_
          constructor
          · rintro ⟨hanonce, hsnonce⟩
            exact ⟨hanonce, hsnonce, Or.inr ⟨body, rfl, by omega, rfl⟩⟩
          · rintro ⟨hanonce, hsnonce, -⟩
            exact ⟨hanonce, hsnonce⟩
        | true =>
          constructor
          · rintro ⟨e, effects, heq, hnone, -⟩
            cases heq
            exact (hnone .certAuthReq body (by simp)).elim
          · rintro ⟨-, -, hfail | ⟨_, -, -, hunsent⟩⟩
            · exact absurd hfail hmalloc
            · cases hunsent

end Refused

/-- A bad request is refused exactly when it is dropped before the check has looked at it, or when
what the call stores is there already and nothing is sent. -/
theorem bad_access_request_refused_iff (pAd : Ap) (c : CertCrypto) (env : AuthEnv) (elem : Elem)
    (pEntry : Entry) (hbad : BadRequest pAd c elem) :
    Refused pEntry (waiPeerAccessAuthReqAction pAd c env elem pEntry) ↔
      DroppedBefore elem pEntry ∨ PassesUnnoticed pAd c env elem pEntry := by
  by_cases hdrop : DroppedBefore elem pEntry
  · have hkeep := @expecting_keeps pEntry
    have hrefused : ∀ e : Entry, e.waiAuthState = pEntry.waiAuthState ∧
        e.anonce = pEntry.anonce ∧ e.snonce = pEntry.snonce ∧ e.cert = pEntry.cert →
          Refused pEntry (some (e, [])) :=
      fun e hsame => ⟨e, [], rfl, by simp, hsame⟩
    refine iff_of_true ?_ (Or.inl hdrop)
    unfold waiPeerAccessAuthReqAction
    split
    · exact hrefused _ ⟨rfl, rfl, rfl, rfl⟩
    rename_i hlong
    split
    · exact hrefused _ ⟨rfl, rfl, rfl, rfl⟩
    rename_i hvalid
    split
    · exact hrefused _ hkeep
    rename_i hexpected
    have hshort : elem.msgLen - lengthHeaderWai < 12 :=
      ((hdrop.resolve_left hlong).resolve_left hvalid).resolve_left hexpected
    simp only [wapiAccessAuthRequestCheck]
    rw [if_pos hshort]
    exact hrefused _ hkeep
  · obtain ⟨hlong, hvalid, hexpected, hroom⟩ :
        ¬elem.msgLen ≤ lengthHeaderWai ∧ ¬pEntry.valid = false ∧
          ¬unexpected elem pEntry = true ∧ ¬elem.msgLen - lengthHeaderWai < 12 := by
      unfold DroppedBefore at hdrop
      tauto
    rw [or_iff_right hdrop]
    unfold waiPeerAccessAuthReqAction
    rw [if_neg hlong, if_neg hvalid, if_neg hexpected]
    simp only [wapiAccessAuthRequestCheck]
    rw [if_neg hroom]
    cases hret : requestRet pAd c elem.body (elem.msgLen - lengthHeaderWai) with
    | none =>
      constructor
      · rintro ⟨e, effects, heq, -⟩
        cases heq
      · rintro ⟨hresult, -⟩
        exact absurd hret hresult
    | some ret =>
      cases ret with
      | ok req => exact absurd hret (hbad req)
      | error code =>
        have hpass : PassesUnnoticed pAd c env elem pEntry ↔
            Refused pEntry (sendCertAuthReq pAd env elem
              { pEntry.expecting with idFlag := byteAt elem.body 0 }) := by
          rw [sendCertAuthReq_refused_iff, PassesUnnoticed, hret]
          simp
        rw [hpass]
        exact Iff.rfl

def exampleAp : Ap where
  mbss := ⟨padded 6 [2], .cert, 0, .zero 16, .zero 16, .zero 16, []⟩
  localCert := ⟨1, [], ⟨1, [5]⟩, ⟨0, 0, 0, ⟨0, []⟩⟩, fun _ => .zero 48⟩
  localEcdh := waiInitializeEcdh

def exampleStation : Entry :=
  { Mbss.insertEntry exampleAp.mbss (padded 6 [4]) with waiAuthState := .waitAccessAuthReq }

def noCertCrypto : CertCrypto := ⟨fun _ => some [], fun _ _ _ => false, fun _ id => id,
  fun _ => .zero 32⟩

def truncatedRequest : Elem := ⟨List.replicate 77 0, 77⟩

theorem truncatedRequest_bad : BadRequest exampleAp noCertCrypto truncatedRequest := by
  have hret : requestRet exampleAp noCertCrypto truncatedRequest.body
      (truncatedRequest.msgLen - lengthHeaderWai) = some (.error (-1)) := by decide +kernel
  intro req
  rw [hret]
  intro h
  cases h

theorem bad_access_request_refused_iff_truncated :
    Refused exampleStation (waiPeerAccessAuthReqAction exampleAp noCertCrypto
        ⟨padded 32 [9], true, true⟩ truncatedRequest exampleStation) ↔
      DroppedBefore truncatedRequest exampleStation ∨
        PassesUnnoticed exampleAp noCertCrypto ⟨padded 32 [9], true, true⟩ truncatedRequest
          exampleStation :=
  bad_access_request_refused_iff _ _ _ _ _ truncatedRequest_bad

/-- The request is sent on to the server. -/
theorem truncated_request_sent_on :
    ¬∀ (pAd : Ap) (c : CertCrypto) (env : AuthEnv) (elem : Elem) (pEntry : Entry),
      pEntry.valid = true →
      pEntry.waiAuthState = .waitAccessAuthReq ∨ pEntry.waiAuthState = .certAuthDone →
      BadRequest pAd c elem →
      Refused pEntry (waiPeerAccessAuthReqAction pAd c env elem pEntry) := by
  intro h
  obtain ⟨e, effects, hrun, hnone, -⟩ := h exampleAp noCertCrypto ⟨padded 32 [9], true, true⟩
    truncatedRequest exampleStation rfl (Or.inl rfl) truncatedRequest_bad
  have hsent : (waiPeerAccessAuthReqAction exampleAp noCertCrypto ⟨padded 32 [9], true, true⟩
      truncatedRequest exampleStation).any (fun r => r.2.any fun
        | .clientSend _ _ => true
        | _ => false) = true := by decide +kernel
  rw [hrun] at hsent
  obtain ⟨effect, hmem, heffect⟩ := List.any_eq_true.mp hsent
  cases effect with
  | clientSend t body => exact hnone t body hmem
  | cancelTimeout => cases heffect
  | registerTimeout => cases heffect

end OpenwrtMtk.Wapi
