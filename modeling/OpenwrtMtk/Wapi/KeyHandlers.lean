import OpenwrtMtk.Wapi.Pack

/-!
# The handlers of the key negotiation

`wapi.c`: the eight actions of the WAI key state machine, its table, the retry timer and the
driver's trigger messages. A frame that could not be sent is not among the effects.
-/

namespace OpenwrtMtk.Wapi

open Toolkit

set_option autoImplicit false

def ucastIdleCtr : U8 := 0
def ucastWaitRespCtr : U8 := 10
def ucastWaitCfmCtr : U8 := 20
def ucastDoneCtr : U8 := 30
def mcastWaitRespCtr : U8 := 40

variable (c : Crypto) (env : Env) (elem : Elem) (s : Side)

def Side.setUskid (uskid : U8) : Side := { s with entry := { s.entry with uskid := uskid } }

section UnicastRequest

/-- The challenge, `ADDID` and `BKID` of a new request: in a USK update the challenge is the seed
of the last negotiation. `usk_id` is a local variable of the function. -/
def Side.prepareUcastKeyReq : Side :=
  let addid := addidOf s.mbss.wlanAddr s.entry.addr
  { s with entry := { s.entry with
      anonce := if s.entry.portSecured then s.entry.ptkSeed else env.random
      addid := addid
      bkid := bkidOf c s.entry.bk addid } }

def Side.ucastKeyReqFrame : UcastKeyReqFrame where
  flag := if s.entry.portSecured then waiFlagUskUpdate else 0
  bkid := s.entry.bkid
  uskid := if s.entry.portSecured then rotated s.entry.uskid else s.entry.uskid
  addid := s.entry.addid
  aeChallenge := s.entry.anonce

/-- The state is set even when the frame could not be sent. -/
def Side.waitUcastResp : Side where
  mbss := s.mbss
  entry := { s.entry with
    waiKeyState := .waitUcastResp
    retryCnt := if s.entry.retryCnt = ucastIdleCtr then ucastWaitRespCtr else s.entry.retryCnt }
  timers := s.timers + 1

def waiMlmeUcastKeyReqAction : Side × List Effect :=
  if s.entry.valid = false then (s, [])
  else
    let s := s.prepareUcastKeyReq c env
    if env.malloc = false then (s, [])
    else
      (s.waitUcastResp, if env.send then [.l2Send .uniKeyReq s.ucastKeyReqFrame.bytes] else [])

end UnicastRequest

section UnicastResponse

def Side.ucastKeyRespFrame (flag : U8) : UcastKeyRespFrame where
  flag := flag
  bkid := s.entry.bkid
  uskid := s.entry.uskid
  addid := s.entry.addid
  asueChallenge := s.entry.snonce
  aeChallenge := s.entry.anonce

/-- The response of the ASUE, authenticated with the key the entry has. -/
def Side.ucastKeyResp (flag : U8) : List U8 :=
  sealedFrame c s.entry.mak ((s.ucastKeyRespFrame flag).bytes ++ s.mbss.wie)

def sendUcastKeyResp (flag retry : U8) : Side × List Effect :=
  if env.send = false then (s, [])
  else
    ({ s with
        entry := { s.entry with waiKeyState := .waitUcastCfm, retryCnt := retry }
        timers := s.timers + 1 },
      [.l2Send .uniKeyResp (s.ucastKeyResp c flag), s.ucastKey])

/-- The challenge of the peer and a fresh one, and the key of the two. -/
def Side.answerUcastKeyReq (pMsg : UcastKeyReqFrame) : Side :=
  calculatePairWiseKey c { s with
    entry := { s.entry with snonce := env.random, anonce := pMsg.aeChallenge }
    timers := 0 }

def acceptUcastKeyReq (pMsg : UcastKeyReqFrame) : Side × List Effect :=
  let s := s.answerUcastKeyReq c env pMsg
  if env.malloc = false then (s, [])
  else sendUcastKeyResp c env s pMsg.flag ucastWaitCfmCtr

/-- `ADDID` and `BKID` as the ASUE computes them: the peer is the AE. -/
def Side.asAsue : Side :=
  let addid := addidOf s.entry.addr s.mbss.wlanAddr
  { s with entry := { s.entry with addid := addid, bkid := bkidOf c s.entry.bk addid } }

def waiPeerUcastKeyReqAction : Side × List Effect :=
  if s.entry.valid = false then (s, [])
  else
    let pMsg := UcastKeyReqFrame.read elem.body
    let s := s.asAsue c
    if s.entry.bkid ≠ pMsg.bkid then (s, [])
    else if uskRenewIsOn pMsg.flag = false then acceptUcastKeyReq c env s pMsg
    else if pMsg.uskid = s.entry.uskid then (s, [])
    else if pMsg.aeChallenge ≠ s.entry.ptkSeed then (s, [])
    else acceptUcastKeyReq c env (s.setUskid pMsg.uskid) pMsg

/-- What `WaiMlmeUcastKeyRespAction` sets before it builds the frame. -/
def Side.prepareUcastKeyResp : Side :=
  { s with entry := { s.entry with
      uskid := if s.entry.portSecured then rotated s.entry.uskid else s.entry.uskid
      anonce := if s.entry.portSecured then s.entry.ptkSeed else s.entry.anonce
      snonce := env.random } }

/-- Here the key is not calculated anew. -/
def waiMlmeUcastKeyRespAction : Side × List Effect :=
  if s.entry.valid = false then (s, [])
  else if env.malloc = false then (s, [])
  else
    sendUcastKeyResp c env (s.prepareUcastKeyResp env)
      (if s.entry.portSecured then waiFlagUskUpdate else 0)
      (if s.entry.retryCnt = ucastIdleCtr then ucastWaitCfmCtr else s.entry.retryCnt)

end UnicastResponse

section UnicastConfirm

def wieMatches (size : Nat) : Bool :=
  match env.wie with
  | none => false
  | some wie => slice elem.body size wie.length == wie

def confirmFrame (pMsg : UcastKeyRespFrame) : UcastKeyCfmFrame where
  flag := pMsg.flag
  bkid := pMsg.bkid
  uskid := pMsg.uskid
  addid := pMsg.addid
  asueChallenge := pMsg.asueChallenge

def Side.ucastKeyCfm (pMsg : UcastKeyRespFrame) : List U8 :=
  sealedFrame c s.entry.mak ((confirmFrame pMsg).bytes ++ s.mbss.wie)

def Side.ucastKeyDone (timers : Nat) : Side where
  mbss := s.mbss
  entry := { s.entry with waiKeyState := .ucastKeyDone, retryCnt := ucastDoneCtr }
  timers := timers

/-- The response passed its checks. After a first handshake the timer starts the multicast one. -/
def acceptUcastKeyResp (pMsg : UcastKeyRespFrame) (bUskUpdate : Bool) : Side × List Effect :=
  let s := s.cancelTimeout
  if env.malloc = false then (s, [])
  else if env.send = false then (s, [])
  else
    (s.ucastKeyDone (if bUskUpdate then s.timers else s.timers + 1),
      [.l2Send .uniKeyConfirm (s.ucastKeyCfm c pMsg), s.ucastKey])

def Side.deriveFrom (pMsg : UcastKeyRespFrame) : Side :=
  calculatePairWiseKey c { s with entry := { s.entry with snonce := pMsg.asueChallenge } }

/-- The challenge is tested first, and the code with the key that is derived from the frame. -/
def verifyUcastKeyResp (pMsg : UcastKeyRespFrame) (bUskUpdate : Bool) : Side × List Effect :=
  if pMsg.aeChallenge ≠ s.entry.anonce then (s, [])
  else
    let s := s.deriveFrom c pMsg
    if elem.rcvdMac ≠ msgAuthCode c s.entry.mak elem.authenticated then (s, [])
    else acceptUcastKeyResp c env s pMsg bUskUpdate

def waiPeerUcastKeyRespAction : Side × List Effect :=
  let pMsg := UcastKeyRespFrame.read elem.body
  if elem.msgLen ≤ lengthHeaderWai + UcastKeyRespFrame.size then (s, [])
  else if s.entry.valid = false then (s, [])
  else if uskRenewIsOn pMsg.flag then
    if pMsg.uskid = s.entry.uskid then (s, [])
    else verifyUcastKeyResp c env elem (s.setUskid pMsg.uskid) pMsg true
  else if wieMatches env elem UcastKeyRespFrame.size = false then (s, [])
  else verifyUcastKeyResp c env elem s pMsg false

def Side.confirmed : Side :=
  { s with
    entry := { s.entry with waiKeyState := .ucastKeyDone }
    timers := 0 }

def waiPeerUcastKeyCfmAction : Side × List Effect :=
  let pMsg := UcastKeyCfmFrame.read elem.body
  if elem.msgLen ≤ lengthHeaderWai + UcastKeyCfmFrame.size then (s, [])
  else if pMsg.asueChallenge ≠ s.entry.snonce then (s, [])
  else if elem.rcvdMac ≠ msgAuthCode c s.entry.mak elem.authenticated then (s, [])
  else if uskRenewIsOn pMsg.flag = false ∧ wieMatches env elem UcastKeyCfmFrame.size = false then
    (s, [])
  else (s.confirmed, [])

end UnicastConfirm

section Multicast

/-- A 16-byte value of the driver in the byte order of the frames. -/
def inverted (v : Bytes 16) : Bytes 16 := ⟨v.val.reverse, by simp⟩

def Side.storeMcastKey (info : McastKey) : Side :=
  { s with mbss := { s.mbss with
      mskid := info.keyId.setWidth 8
      keyNotifyIv := inverted info.keyAnnounce
      nmk := info.nmk } }

def Side.mcastKeyNotifyFrame (info : McastKey) : McastKeyNotifyFrame where
  flag := 0
  mskid := s.mbss.mskid
  uskid := s.entry.uskid
  addid := s.entry.addid
  groupTxIv := inverted info.mTxIv
  keyNotifyIv := s.mbss.keyNotifyIv
  dataLen := 16
  data := c.wpiEncrypt s.mbss.keyNotifyIv s.mbss.nmk s.entry.kek

def Side.waitMcastResp : Side where
  mbss := s.mbss
  entry := { s.entry with
    waiKeyState := .waitMcastResp
    retryCnt :=
      if s.entry.waiKeyState = .waitMcastResp then s.entry.retryCnt else mcastWaitRespCtr }
  timers := s.timers + 1

def waiMlmeMcastKeyNotifyAction : Side × List Effect :=
  if s.entry.valid = false then (s, [])
  else
    match env.mcastKey with
    | none => (s, [])
    | some info =>
      let s := s.storeMcastKey info
      if env.malloc = false then (s, [])
      else
        (s.waitMcastResp,
          if env.send then
            [.l2Send .multiKeyNotify (sealedFrame c s.entry.mak
              (s.mcastKeyNotifyFrame c info).bytes)]
          else [])

def Side.mcastKeyDone : Side :=
  { s with entry := { s.entry with waiKeyState := .mcastKeyDone, portSecured := true } }

def waiPeerMcastKeyRespAction : Side × List Effect :=
  let pMsg := McastKeyRespFrame.read elem.body
  if elem.msgLen < lengthHeaderWai + McastKeyRespFrame.size then (s, [])
  else if s.entry.valid = false then (s, [])
  else if elem.rcvdMac ≠ msgAuthCode c s.entry.mak elem.authenticated then (s, [])
  else if pMsg.mskid ≠ s.mbss.mskid then (s, [])
  else if pMsg.uskid ≠ s.entry.uskid then (s, [])
  else if pMsg.addid ≠ s.entry.addid then (s, [])
  else (s.cancelTimeout.mcastKeyDone, [.setPortSecured])

def Side.storeNotified (pMsg : McastKeyNotifyFrame) : Side :=
  { s with mbss := { s.mbss with
      keyNotifyIv := pMsg.keyNotifyIv
      mskid := pMsg.mskid
      nmk := c.wpiDecrypt pMsg.keyNotifyIv pMsg.data s.entry.kek } }

def mcastRespFrame (pMsg : McastKeyNotifyFrame) : McastKeyRespFrame where
  flag := pMsg.flag
  mskid := pMsg.mskid
  uskid := pMsg.uskid
  addid := pMsg.addid
  keyNotifyIv := pMsg.keyNotifyIv

def Side.notifiedKey (pMsg : McastKeyNotifyFrame) : McastKey where
  keyId := s.mbss.mskid.setWidth 32
  mTxIv := pMsg.groupTxIv
  keyAnnounce := s.mbss.keyNotifyIv
  nmk := s.mbss.nmk

/-- The length is not tested: for a message without room for the code the read starts in front of
the buffer, and there is no result. -/
def waiPeerMcastKeyNotifyAction : Option (Side × List Effect) :=
  if elem.msgLen < lengthHeaderWai + lenMsgAuthCode then none
  else
    let pMsg := McastKeyNotifyFrame.read elem.body
    if elem.rcvdMac ≠ msgAuthCode c s.entry.mak elem.authenticated then some (s, [])
    else
      let s := s.storeNotified c pMsg
      if env.malloc = false then some (s, [])
      else if env.send = false then some (s, [])
      else
        some (s.mcastKeyDone,
          [.l2Send .multiKeyResp (sealedFrame c s.entry.mak (mcastRespFrame pMsg).bytes),
            .setMcastKeyInfo (s.notifiedKey pMsg), .setPortSecured])

end Multicast

section Machine

/-- `WAIKeyStateMachineInit`: the messages with an action; every other cell is `Drop`. -/
def keyActions : WaiKeyState → List WaiKeyMsg
  | .ucastKeyIdle => [.mlmeUcastKeyReq, .peerUcastKeyReq]
  | .waitUcastResp => [.mlmeUcastKeyReq, .peerUcastKeyResp]
  | .waitUcastCfm => [.mlmeUcastKeyResp, .peerUcastKeyCfm]
  | .ucastKeyDone =>
    [.peerUcastKeyResp, .mlmeMcastKeyNotify, .mlmeUcastKeyReq, .peerMcastKeyNotify,
      .mlmeUcastKeyResp, .peerUcastKeyReq]
  | .waitMcastResp => [.mlmeMcastKeyNotify, .peerMcastKeyResp]
  | .mcastKeyDone =>
    [.peerMcastKeyNotify, .mlmeUcastKeyReq, .mlmeUcastKeyResp, .peerUcastKeyReq,
      .peerUcastKeyResp, .mlmeMcastKeyNotify]

def keyAction : WaiKeyMsg → Option (Side × List Effect)
  | .mlmeUcastKeyReq => some (waiMlmeUcastKeyReqAction c env s)
  | .peerUcastKeyReq => some (waiPeerUcastKeyReqAction c env elem s)
  | .mlmeUcastKeyResp => some (waiMlmeUcastKeyRespAction c env s)
  | .peerUcastKeyResp => some (waiPeerUcastKeyRespAction c env elem s)
  | .peerUcastKeyCfm => some (waiPeerUcastKeyCfmAction c env elem s)
  | .mlmeMcastKeyNotify => some (waiMlmeMcastKeyNotifyAction c env s)
  | .peerMcastKeyNotify => waiPeerMcastKeyNotifyAction c env elem s
  | .peerMcastKeyResp => some (waiPeerMcastKeyRespAction c elem s)

/-- `MlmeHandler` with a message for the key state machine. -/
def mlmeHandler (msg : WaiKeyMsg) : Option (Side × List Effect) :=
  if s.entry.valid = false then some (s, [])
  else if msg ∈ keyActions s.entry.waiKeyState then keyAction c env elem s msg
  else some (s, [])

/-- `MsgTypeSubst`, for the frames of the key negotiation. -/
def SubType.keyMsg : SubType → Option WaiKeyMsg
  | .uniKeyReq => some .peerUcastKeyReq
  | .uniKeyResp => some .peerUcastKeyResp
  | .uniKeyConfirm => some .peerUcastKeyCfm
  | .multiKeyNotify => some .peerMcastKeyNotify
  | .multiKeyResp => some .peerMcastKeyResp
  | _ => none

end Machine

section Triggers

/-- What makes an entry act by itself. -/
inductive Trigger where
  /-- `WaiKeyHSTimerProc`, one registration of it. -/
  | keyHsTimer
  /-- `WAI_MLME_KEY_HS_START` of the driver. -/
  | keyHsStart
  /-- `wapi_trigger_timer_handler`, which the start message registers. -/
  | triggerTimer
  /-- `WAI_MLME_UPDATE_USK`. -/
  | updateUsk
  /-- `WAI_MLME_UPDATE_MSK`. -/
  | updateMsk
  deriving DecidableEq

/-- The state machine message that the retry count asks for; `none` for no message. -/
inductive TimerAction where
  | send (msg : WaiKeyMsg)
  | disconnect
  | nothing
  deriving DecidableEq

def timerAction (retry : U8) : TimerAction :=
  if retry > mcastWaitRespCtr + 3 then .disconnect
  else if retry > mcastWaitRespCtr then .send .mlmeMcastKeyNotify
  else if retry > ucastDoneCtr then .send .mlmeMcastKeyNotify
  else if retry > ucastWaitCfmCtr + 3 then .disconnect
  else if retry > ucastWaitCfmCtr then .send .mlmeUcastKeyResp
  else if retry > ucastWaitRespCtr + 3 then .disconnect
  else if retry > ucastWaitRespCtr then .send .mlmeUcastKeyReq
  else .nothing

def Side.setRetry (retry : U8) : Side := { s with entry := { s.entry with retryCnt := retry } }

/-- The timer has gone off, so one registration is used up. -/
def waiKeyHSTimerProc : Side × TimerAction :=
  let s := { s with timers := s.timers - 1 }
  if s.entry.valid = false then (s, .nothing)
  else (s.setRetry (s.entry.retryCnt + 1), timerAction (s.entry.retryCnt + 1))

/-- `ADDID` starts with the own address: the entry is that of an AE. -/
def Side.isAe : Bool := field s.entry.addid.val 0 6 == s.mbss.wlanAddr

def Side.trigger : Trigger → Side × TimerAction
  | .keyHsTimer => waiKeyHSTimerProc s
  | .keyHsStart => (s.setRetry ucastIdleCtr, .nothing)
  | .triggerTimer =>
    if s.entry.valid = false then (s, .nothing)
    else if s.entry.authMode = .psk ∨
        s.entry.authMode = .cert ∧ s.entry.waiAuthState = .certAuthDone then
      (s.setRetry ucastIdleCtr, .send .mlmeUcastKeyReq)
    else if s.entry.authMode = .cert then (s.setRetry ucastIdleCtr, .nothing)
    else (s, .nothing)
  | .updateUsk =>
    if s.entry.portSecured = false then (s, .nothing)
    else
      (s.setRetry ucastIdleCtr,
        if s.isAe then .send .mlmeUcastKeyReq else .send .mlmeUcastKeyResp)
  | .updateMsk =>
    if s.entry.portSecured = false then (s, .nothing)
    else (s.setRetry ucastDoneCtr, if s.isAe then .send .mlmeMcastKeyNotify else .nothing)

def runTrigger (t : Trigger) : Option (Side × List Effect) :=
  match s.trigger t with
  | (s, .send msg) => mlmeHandler c env ⟨s.entry.addr.val, 6⟩ s msg
  | (s, .disconnect) => some (s, [.disconnect])
  | (s, .nothing) => some (s, [])

end Triggers

section Table

def CertData.zero : CertData where
  asueCertHash := .zero 32
  asueKeyData := []
  userId := ⟨0, []⟩
  userCert := ⟨0, []⟩
  asuIdList := ⟨0, 0, 0, []⟩

/-- `StaTableInsertEntry` in a free slot, which is all zero. -/
def Mbss.insertEntry (m : Mbss) (addr : MacAddr) : Entry where
  valid := true
  addr := addr
  authMode := m.authMode
  waiAuthState := .certAuthIdle
  waiKeyState := .ucastKeyIdle
  portSecured := false
  bk := if m.authMode = .psk then m.bk else .zero 16
  bkid := .zero 16
  bkAuthId := .zero 32
  idFlag := 0
  authId := .zero 32
  anonce := .zero 32
  snonce := .zero 32
  addid := .zero 12
  uskid := 0
  ptk := .zero 96
  ptkSeed := .zero 32
  retryCnt := 0
  cert := .zero

/-- The driver lets a station go (`StaTableDeleteEntry`) and it comes back into the same slot. A
timer that is still registered for the slot stays registered. -/
def Side.reinsert : Side := { s with entry := s.mbss.insertEntry s.entry.addr }

end Table

def exampleMbss (addr : U8) : Mbss :=
  ⟨padded 6 [addr], .psk, 0, padded 16 [7], .zero 16, .zero 16, [1, 2]⟩

def exampleAe : Side := ⟨exampleMbss 2, (exampleMbss 2).insertEntry (padded 6 [4]), 0⟩

def exampleAsue : Side := ⟨exampleMbss 4, (exampleMbss 4).insertEntry (padded 6 [2]), 0⟩

def exampleEnv (random : U8) : Env where
  random := padded 32 [random]
  malloc := true
  send := true
  wie := some [1, 2]
  mcastKey := some ⟨1, .zero 16, .zero 16, .zero 16⟩

end OpenwrtMtk.Wapi
