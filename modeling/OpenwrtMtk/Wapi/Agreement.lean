import OpenwrtMtk.Wapi.Link
import Mathlib.Logic.Function.Iterate

/-!
# Both ends agree on the keys

A line that loses nothing: frames are delivered once, in the order they were sent, and before any
retry. The AE starts the unicast handshake, the multicast handshake and then USK updates. Whenever
no frame is in flight the two ends hold the same keys.
-/

namespace OpenwrtMtk.Wapi

open Toolkit

set_option autoImplicit false

/-- The two ends and what is in flight, the oldest frame first. -/
structure Wire where
  ae : Side
  asue : Side
  toAsue : List Frame
  toAe : List Frame
  deriving DecidableEq

inductive Move where
  | start (t : Trigger) (env : Env)
  | toAsue (hdr : Bytes 12) (stale : List U8) (env : Env)
  | toAe (hdr : Bytes 12) (stale : List U8) (env : Env)
  deriving DecidableEq

def Move.isUpdate : Move → Bool
  | .start .updateUsk _ => true
  | _ => false

section Steps

variable (c : Crypto) (w : Wire)

def Wire.aeStarts (r : Side × List Effect) : Wire :=
  { w with ae := r.1, toAsue := w.toAsue ++ sent r }

def Wire.asueTakes (rest : List Frame) (r : Side × List Effect) : Wire :=
  { w with asue := r.1, toAsue := rest, toAe := w.toAe ++ sent r }

def Wire.aeTakes (rest : List Frame) (r : Side × List Effect) : Wire :=
  { w with ae := r.1, toAe := rest, toAsue := w.toAsue ++ sent r }

def Wire.step : Move → Option Wire
  | .start t env => if w.ae.ready t then (runTrigger c env w.ae t).map w.aeStarts else none
  | .toAsue hdr stale env =>
    match w.toAsue with
    | [] => none
    | f :: rest => (receive c env hdr stale f w.asue).map (w.asueTakes rest)
  | .toAe hdr stale env =>
    match w.toAe with
    | [] => none
    | f :: rest => (receive c env hdr stale f w.ae).map (w.aeTakes rest)

/-- Everything a handler asks for is there, and the driver knows the WIE of the peer. -/
structure Supplied (env : Env) (peer : Side) : Prop where
  malloc : env.malloc = true
  send : env.send = true
  wie : env.wie = some peer.mbss.wie
  mcastKey : env.mcastKey.isSome = true

instance (env : Env) (peer : Side) : Decidable (Supplied env peer) :=
  decidable_of_iff (env.malloc = true ∧ env.send = true ∧ env.wie = some peer.mbss.wie ∧
      env.mcastKey.isSome = true)
    ⟨fun ⟨hmalloc, hsend, hwie, hmcastKey⟩ => ⟨hmalloc, hsend, hwie, hmcastKey⟩,
      fun h => ⟨h.malloc, h.send, h.wie, h.mcastKey⟩⟩

def WaiKeyState.isDone (state : WaiKeyState) : Prop :=
  state = .ucastKeyDone ∨ state = .mcastKeyDone

instance (state : WaiKeyState) : Decidable state.isDone :=
  inferInstanceAs (Decidable (state = .ucastKeyDone ∨ state = .mcastKeyDone))

def Smooth : Move → Prop
  | .start t env => Supplied env w.asue ∧ (
    t = .triggerTimer ∧ w.ae.entry.waiKeyState = .ucastKeyIdle ∨
    t = .keyHsTimer ∧ w.ae.entry.waiKeyState = .ucastKeyDone ∧ w.ae.entry.portSecured = false ∨
    t = .updateUsk ∧ w.ae.entry.waiKeyState.isDone ∧ w.ae.entry.portSecured = true)
  | .toAsue _ _ env => Supplied env w.ae
  | .toAe _ _ env => Supplied env w.asue

instance (m : Move) : Decidable (Smooth w m) :=
  match m with
  | .start t env => inferInstanceAs (Decidable (Supplied env w.asue ∧ (
      t = .triggerTimer ∧ w.ae.entry.waiKeyState = .ucastKeyIdle ∨
      t = .keyHsTimer ∧ w.ae.entry.waiKeyState = .ucastKeyDone ∧
        w.ae.entry.portSecured = false ∨
      t = .updateUsk ∧ w.ae.entry.waiKeyState.isDone ∧ w.ae.entry.portSecured = true)))
  | .toAsue _ _ env => inferInstanceAs (Decidable (Supplied env w.ae))
  | .toAe _ _ env => inferInstanceAs (Decidable (Supplied env w.asue))

end Steps

section Handlers

variable {c : Crypto} {env : Env} {s peer : Side} {hdr : Bytes 12} {stale : List U8}

theorem receive_acts {f : Frame} {msg : WaiKeyMsg} (hmsg : f.subType.keyMsg = some msg)
    (hvalid : s.entry.valid = true) (hmem : msg ∈ keyActions s.entry.waiKeyState) :
    receive c env hdr stale f s = keyAction c env (.received hdr f.body stale) s msg := by
  unfold receive
  rw [hmsg]
  simp only [mlmeHandler]
  rw [if_neg (by rw [hvalid]; simp), if_pos hmem]

theorem mlmeUcastKeyReq_asks (hvalid : s.entry.valid = true) (henv : Supplied env peer) :
    waiMlmeUcastKeyReqAction c env s = ((s.prepareUcastKeyReq c env).waitUcastResp,
      [.l2Send .uniKeyReq (s.prepareUcastKeyReq c env).ucastKeyReqFrame.bytes]) := by
  unfold waiMlmeUcastKeyReqAction
  rw [if_neg (by rw [hvalid]; simp)]
  simp only [henv.malloc, henv.send, Bool.true_eq_false, if_false, if_true]

def Side.answering (c : Crypto) (env : Env) (s : Side) (pMsg : UcastKeyReqFrame) : Side :=
  ((s.asAsue c).setUskid (if uskRenewIsOn pMsg.flag then pMsg.uskid
    else s.entry.uskid)).answerUcastKeyReq c env pMsg

def Side.awaitCfm (s : Side) : Side :=
  { s with
    entry := { s.entry with waiKeyState := .waitUcastCfm, retryCnt := ucastWaitCfmCtr }
    timers := s.timers + 1 }

theorem peerUcastKeyReq_answers {pMsg : UcastKeyReqFrame} (hvalid : s.entry.valid = true)
    (henv : Supplied env peer) (hbkid : (s.asAsue c).entry.bkid = pMsg.bkid)
    (hnew : uskRenewIsOn pMsg.flag = true →
      pMsg.uskid ≠ s.entry.uskid ∧ pMsg.aeChallenge = s.entry.ptkSeed) :
    waiPeerUcastKeyReqAction c env (.received hdr pMsg.bytes stale) s =
      ((s.answering c env pMsg).awaitCfm,
        [.l2Send .uniKeyResp ((s.answering c env pMsg).ucastKeyResp c pMsg.flag),
          (s.answering c env pMsg).ucastKey]) := by
  unfold waiPeerUcastKeyReqAction
  simp only [Elem.received_body, UcastKeyReqFrame.read_bytes]
  rw [if_neg (by rw [hvalid]; simp), if_neg (not_not.mpr hbkid)]
  cases hflag : uskRenewIsOn pMsg.flag with
  | false =>
    simp only [if_true, Side.answering, hflag, Bool.false_eq_true, if_false, acceptUcastKeyReq,
      henv.malloc, sendUcastKeyResp, henv.send, Bool.true_eq_false]
    rfl
  | true =>
    obtain ⟨hidx, hchal⟩ := hnew hflag
    have hidx' : pMsg.uskid ≠ (s.asAsue c).entry.uskid := hidx
    have hchal' : pMsg.aeChallenge = (s.asAsue c).entry.ptkSeed := hchal
    rw [if_neg (by simp), if_neg hidx', if_neg (not_not.mpr hchal')]
    simp only [Side.answering, hflag, if_true, acceptUcastKeyReq, henv.malloc, sendUcastKeyResp,
      henv.send, Bool.true_eq_false, if_false]
    rfl

def Confirms (c : Crypto) (wie : List U8) (s : Side) (f : Frame) : Prop :=
  ∃ cfm : UcastKeyCfmFrame, cfm.asueChallenge = s.entry.snonce ∧
    f = ⟨.uniKeyConfirm, sealedFrame c s.entry.mak (cfm.bytes ++ wie)⟩

theorem peerUcastKeyCfm_confirms {f : Frame} (hcfm : Confirms c peer.mbss.wie s f)
    (henv : Supplied env peer) :
    waiPeerUcastKeyCfmAction c env (.received hdr f.body stale) s = (s.confirmed, []) := by
  obtain ⟨cfm, hnonce, rfl⟩ := hcfm
  have hread : UcastKeyCfmFrame.read
      (sealedFrame c s.entry.mak (cfm.bytes ++ peer.mbss.wie) ++ stale) = cfm := by
    rw [sealedFrame, List.append_assoc, List.append_assoc, UcastKeyCfmFrame.read_bytes]
  have hlen : lengthHeaderWai + UcastKeyCfmFrame.size < (Elem.received hdr
      (sealedFrame c s.entry.mak (cfm.bytes ++ peer.mbss.wie)) stale).msgLen := by
    rw [Elem.received_msgLen, length_sealedFrame, List.length_append,
      UcastKeyCfmFrame.length_bytes, lenMsgAuthCode]
    omega
  have hwie : wieMatches env (.received hdr
      (sealedFrame c s.entry.mak (cfm.bytes ++ peer.mbss.wie)) stale) UcastKeyCfmFrame.size =
        true := by
    unfold wieMatches
    rw [henv.wie]
    simp only [Elem.received_body]
    rw [sealedFrame, List.append_assoc, List.append_assoc, UcastKeyCfmFrame.wie_bytes]
    exact beq_self_eq_true _
  unfold waiPeerUcastKeyCfmAction
  simp only [Elem.received_body, hread, Elem.received_rcvdMac, Elem.received_authenticated]
  rw [if_neg (by omega), if_neg (not_not.mpr hnonce), if_neg (not_not.mpr rfl),
    if_neg (by rw [hwie]; simp)]

theorem mlmeMcastKeyNotify_notifies {info : McastKey} (hvalid : s.entry.valid = true)
    (henv : Supplied env peer) (hinfo : env.mcastKey = some info) :
    waiMlmeMcastKeyNotifyAction c env s = ((s.storeMcastKey info).waitMcastResp,
      [.l2Send .multiKeyNotify (sealedFrame c s.entry.mak
        ((s.storeMcastKey info).mcastKeyNotifyFrame c info).bytes)]) := by
  unfold waiMlmeMcastKeyNotifyAction
  rw [if_neg (by rw [hvalid]; simp), hinfo]
  simp only [henv.malloc, henv.send, Bool.true_eq_false, if_false, if_true]
  rfl

theorem peerMcastKeyNotify_answers {pMsg : McastKeyNotifyFrame} (henv : Supplied env peer) :
    waiPeerMcastKeyNotifyAction c env
        (.received hdr (sealedFrame c s.entry.mak pMsg.bytes) stale) s =
      some ((s.storeNotified c pMsg).mcastKeyDone,
        [.l2Send .multiKeyResp (sealedFrame c s.entry.mak (mcastRespFrame pMsg).bytes),
          .setMcastKeyInfo ((s.storeNotified c pMsg).notifiedKey pMsg), .setPortSecured]) := by
  have hread : McastKeyNotifyFrame.read (sealedFrame c s.entry.mak pMsg.bytes ++ stale) =
      pMsg := by
    rw [sealedFrame, List.append_assoc, McastKeyNotifyFrame.read_bytes]
  unfold waiPeerMcastKeyNotifyAction
  simp only [Elem.received_body, hread, Elem.received_rcvdMac, Elem.received_authenticated,
    Elem.received_msgLen, length_sealedFrame]
  rw [if_neg (by omega), if_neg (not_not.mpr rfl)]
  simp only [henv.malloc, henv.send, Bool.true_eq_false, if_false]
  rfl

theorem peerMcastKeyResp_completes {resp : McastKeyRespFrame} (hvalid : s.entry.valid = true)
    (hmskid : resp.mskid = s.mbss.mskid) (huskid : resp.uskid = s.entry.uskid)
    (haddid : resp.addid = s.entry.addid) :
    waiPeerMcastKeyRespAction c (.received hdr (sealedFrame c s.entry.mak resp.bytes) stale) s =
      (s.cancelTimeout.mcastKeyDone, [.setPortSecured]) := by
  have hread : McastKeyRespFrame.read (sealedFrame c s.entry.mak resp.bytes ++ stale) = resp := by
    rw [sealedFrame, List.append_assoc, McastKeyRespFrame.read_bytes]
  unfold waiPeerMcastKeyRespAction
  simp only [Elem.received_body, hread, Elem.received_rcvdMac, Elem.received_authenticated,
    Elem.received_msgLen, length_sealedFrame, McastKeyRespFrame.length_bytes, hvalid,
    hmskid, huskid, haddid]
  rw [if_neg (by simp [lenMsgAuthCode, McastKeyRespFrame.size]), if_neg (by simp),
    if_neg (by simp), if_neg (by simp), if_neg (by simp), if_neg (by simp)]

end Handlers

/-- The two entries are for each other and under one base key. -/
structure Paired (ae asue : Side) : Prop where
  aeValid : ae.entry.valid = true
  asueValid : asue.entry.valid = true
  bk : asue.entry.bk = ae.entry.bk
  aeAddr : ae.entry.addr = asue.mbss.wlanAddr
  asueAddr : asue.entry.addr = ae.mbss.wlanAddr

structure SharedKeys (ae asue : Side) : Prop where
  ptk : asue.entry.ptk = ae.entry.ptk
  ptkSeed : asue.entry.ptkSeed = ae.entry.ptkSeed
  uskid : asue.entry.uskid = ae.entry.uskid

/-- The AE has computed its `ADDID` and `BKID`. -/
structure Identified (c : Crypto) (ae : Side) : Prop where
  addid : ae.entry.addid = addidOf ae.mbss.wlanAddr ae.entry.addr
  bkid : ae.entry.bkid = bkidOf c ae.entry.bk ae.entry.addid

/-- `rest` is on its way to the station, which has ended its handshake or will end it with the
confirm in front of `rest`. -/
def Wire.Settled (c : Crypto) (w : Wire) (rest : List Frame) : Prop :=
  w.asue.entry.waiKeyState.isDone ∧ w.toAsue = rest ∨
  w.asue.entry.waiKeyState = .waitUcastCfm ∧
    ∃ f, Confirms c w.ae.mbss.wie w.asue f ∧ w.toAsue = f :: rest

def Side.nextUskid (s : Side) : U8 :=
  if s.entry.waiKeyState = .waitUcastResp ∧ s.entry.portSecured = true then
    rotated s.entry.uskid
  else s.entry.uskid

/-- Where the two ends are in their handshakes. -/
inductive Phase (c : Crypto) (w : Wire) : Prop where
  | idle (hae : w.ae.entry.waiKeyState = .ucastKeyIdle)
      (hasue : w.asue.entry.waiKeyState = .ucastKeyIdle)
      (hopen : w.ae.entry.portSecured = false)
      (hsecured : w.asue.entry.portSecured = w.ae.entry.portSecured)
      (huskid : w.asue.entry.uskid = w.ae.entry.uskid)
      (htoAsue : w.toAsue = []) (htoAe : w.toAe = [])
  | asked (hae : w.ae.entry.waiKeyState = .waitUcastResp) (hid : Identified c w.ae)
      (hsecured : w.asue.entry.portSecured = w.ae.entry.portSecured)
      (hfirst : w.ae.entry.portSecured = false → w.asue.entry.waiKeyState = .ucastKeyIdle ∧
        w.asue.entry.uskid = w.ae.entry.uskid ∧
        w.toAsue = [⟨.uniKeyReq, w.ae.ucastKeyReqFrame.bytes⟩])
      (hupdate : w.ae.entry.portSecured = true → SharedKeys w.ae w.asue ∧
        w.ae.entry.anonce = w.ae.entry.ptkSeed ∧
        w.Settled c [⟨.uniKeyReq, w.ae.ucastKeyReqFrame.bytes⟩])
      (htoAe : w.toAe = [])
  | answered (hae : w.ae.entry.waiKeyState = .waitUcastResp) (hid : Identified c w.ae)
      (hasue : w.asue.entry.waiKeyState = .waitUcastCfm)
      (hsecured : w.asue.entry.portSecured = w.ae.entry.portSecured)
      (hanonce : w.asue.entry.anonce = w.ae.entry.anonce)
      (hptk : w.asue.entry.ptk =
        pairwiseKey c w.ae.entry.bk w.ae.entry.addid w.ae.entry.anonce w.asue.entry.snonce)
      (hseed : w.asue.entry.ptkSeed = seedOf c w.asue.entry.ptk)
      (huskid : w.asue.entry.uskid = w.ae.nextUskid)
      (htoAsue : w.toAsue = [])
      (htoAe : w.toAe = [⟨.uniKeyResp, w.asue.ucastKeyResp c
        (if w.ae.entry.portSecured then waiFlagUskUpdate else 0)⟩])
  | agreed (hae : w.ae.entry.waiKeyState.isDone) (hid : Identified c w.ae)
      (hkeys : SharedKeys w.ae w.asue)
      (hsecured : w.asue.entry.portSecured = w.ae.entry.portSecured)
      (hfirst : w.ae.entry.portSecured = false → w.ae.entry.retryCnt = ucastDoneCtr)
      (hsettled : w.Settled c []) (htoAe : w.toAe = [])
  | notified (pMsg : McastKeyNotifyFrame) (hae : w.ae.entry.waiKeyState = .waitMcastResp)
      (hid : Identified c w.ae) (hkeys : SharedKeys w.ae w.asue)
      (hmskid : pMsg.mskid = w.ae.mbss.mskid) (huskid : pMsg.uskid = w.ae.entry.uskid)
      (haddid : pMsg.addid = w.ae.entry.addid)
      (hsettled : w.Settled c
        [⟨.multiKeyNotify, sealedFrame c w.ae.entry.mak pMsg.bytes⟩])
      (htoAe : w.toAe = [])
  | mcastAnswered (resp : McastKeyRespFrame) (hae : w.ae.entry.waiKeyState = .waitMcastResp)
      (hid : Identified c w.ae) (hkeys : SharedKeys w.ae w.asue)
      (hasue : w.asue.entry.waiKeyState.isDone) (hsecured : w.asue.entry.portSecured = true)
      (hmskid : resp.mskid = w.ae.mbss.mskid) (huskid : resp.uskid = w.ae.entry.uskid)
      (haddid : resp.addid = w.ae.entry.addid) (htoAsue : w.toAsue = [])
      (htoAe : w.toAe = [⟨.multiKeyResp, sealedFrame c w.ae.entry.mak resp.bytes⟩])

/-- The invariant of a run; `uskid` is the index that the last handshake leaves. -/
structure Talking (c : Crypto) (w : Wire) (uskid : U8) : Prop where
  paired : Paired w.ae w.asue
  phase : Phase c w
  uskid : w.ae.nextUskid = uskid

section Starts

variable {c : Crypto} {env : Env} {w : Wire} {uskid : U8} {r : Side × List Effect}

theorem runTrigger_acts {s s' : Side} {t : Trigger} {msg : WaiKeyMsg}
    (htrigger : s.trigger t = (s', .send msg)) (hvalid : s'.entry.valid = true)
    (hmem : msg ∈ keyActions s'.entry.waiKeyState) :
    runTrigger c env s t = keyAction c env ⟨s'.entry.addr.val, 6⟩ s' msg := by
  unfold runTrigger
  rw [htrigger]
  simp only [mlmeHandler]
  rw [if_neg (by rw [hvalid]; simp), if_pos hmem]

theorem Talking.first (h : Talking c w uskid) (henv : Supplied env w.asue)
    (hidle : w.ae.entry.waiKeyState = .ucastKeyIdle)
    (hr : runTrigger c env w.ae .triggerTimer = some r) : Talking c (w.aeStarts r) uskid := by
  obtain ⟨hpaired, hphase, huskid⟩ := h
  cases hphase with
  | idle hae hasue hopen hsecured husk htoAsue htoAe =>
    have hnext : w.ae.entry.uskid = uskid := by
      rw [← huskid, Side.nextUskid, if_neg (by rw [hae]; simp)]
    have hquiet : ∀ retry, Talking c (w.aeStarts (w.ae.setRetry retry, [])) uskid := by
      intro retry
      refine ⟨⟨hpaired.aeValid, hpaired.asueValid, hpaired.bk, hpaired.aeAddr, hpaired.asueAddr⟩,
        .idle hae hasue hopen hsecured husk ?_ htoAe, huskid⟩
      rw [Wire.aeStarts, htoAsue]
      rfl
    by_cases hmode : w.ae.entry.authMode = .psk ∨
        w.ae.entry.authMode = .cert ∧ w.ae.entry.waiAuthState = .certAuthDone
    · have htrigger : w.ae.trigger .triggerTimer =
          (w.ae.setRetry ucastIdleCtr, .send .mlmeUcastKeyReq) := by
        simp only [Side.trigger]
        rw [if_neg (by rw [hpaired.aeValid]; simp), if_pos hmode]
      have hvalid : (w.ae.setRetry ucastIdleCtr).entry.valid = true := hpaired.aeValid
      rw [runTrigger_acts htrigger hvalid (by
        change _ ∈ keyActions w.ae.entry.waiKeyState
        rw [hidle]
        decide)] at hr
      simp only [keyAction] at hr
      rw [mlmeUcastKeyReq_asks hvalid henv] at hr
      cases hr
      refine ⟨⟨hpaired.aeValid, hpaired.asueValid, hpaired.bk, hpaired.aeAddr, hpaired.asueAddr⟩,
        .asked rfl ⟨rfl, rfl⟩ hsecured ?_ ?_ htoAe, ?_⟩
      · intro _
        refine ⟨hasue, husk, ?_⟩
        rw [Wire.aeStarts, htoAsue]
        rfl
      · intro hsec
        change w.ae.entry.portSecured = true at hsec
        rw [hopen] at hsec
        cases hsec
      · rw [Side.nextUskid, if_neg]
        · exact hnext
        · rintro ⟨-, hsec⟩
          change w.ae.entry.portSecured = true at hsec
          rw [hopen] at hsec
          cases hsec
    · by_cases hcert : w.ae.entry.authMode = .cert
      · have htrigger : w.ae.trigger .triggerTimer = (w.ae.setRetry ucastIdleCtr, .nothing) := by
          simp only [Side.trigger]
          rw [if_neg (by rw [hpaired.aeValid]; simp), if_neg hmode, if_pos hcert]
        rw [runTrigger, htrigger] at hr
        cases hr
        exact hquiet _
      · have htrigger : w.ae.trigger .triggerTimer = (w.ae, .nothing) := by
          simp only [Side.trigger]
          rw [if_neg (by rw [hpaired.aeValid]; simp), if_neg hmode, if_neg hcert]
        rw [runTrigger, htrigger] at hr
        cases hr
        exact hquiet w.ae.entry.retryCnt
  | asked hae => rw [hidle] at hae; cases hae
  | answered hae => rw [hidle] at hae; cases hae
  | agreed hae => rw [hidle] at hae; rcases hae with hae | hae <;> cases hae
  | notified _ hae => rw [hidle] at hae; cases hae
  | mcastAnswered _ hae => rw [hidle] at hae; cases hae

theorem nextUskid_of_ne {s : Side} (h : s.entry.waiKeyState ≠ .waitUcastResp) :
    s.nextUskid = s.entry.uskid := by
  rw [Side.nextUskid, if_neg]
  rintro ⟨hwait, -⟩
  exact h hwait

theorem isDone_ne {state : WaiKeyState} (h : state.isDone) : state ≠ .waitUcastResp := by
  rcases h with rfl | rfl <;> decide

theorem Wire.Settled.aeStarts (h : w.Settled c []) (hwie : r.1.mbss.wie = w.ae.mbss.wie) :
    (w.aeStarts r).Settled c (sent r) := by
  rcases h with ⟨hasue, htoAsue⟩ | ⟨hasue, f, hcfm, htoAsue⟩
  · left
    refine ⟨hasue, ?_⟩
    rw [Wire.aeStarts, htoAsue]
    rfl
  · right
    refine ⟨hasue, f, ?_, ?_⟩
    · change Confirms c r.1.mbss.wie w.asue f
      rw [hwie]
      exact hcfm
    · rw [Wire.aeStarts, htoAsue]
      rfl

theorem Talking.update (h : Talking c w uskid) (henv : Supplied env w.asue)
    (hdone : w.ae.entry.waiKeyState.isDone) (hsec : w.ae.entry.portSecured = true)
    (hr : runTrigger c env w.ae .updateUsk = some r) :
    Talking c (w.aeStarts r) (rotated uskid) := by
  obtain ⟨hpaired, hphase, huskid⟩ := h
  cases hphase with
  | agreed hae hid hkeys hsecured hfirst hsettled htoAe =>
    have hisAe : w.ae.isAe = true := by
      rw [Side.isAe, hid.addid, addidOf]
      simp
    have htrigger : w.ae.trigger .updateUsk =
        (w.ae.setRetry ucastIdleCtr, .send .mlmeUcastKeyReq) := by
      simp only [Side.trigger]
      rw [if_neg (by rw [hsec]; simp), if_pos hisAe]
    have hvalid : (w.ae.setRetry ucastIdleCtr).entry.valid = true := hpaired.aeValid
    rw [runTrigger_acts htrigger hvalid (by
      change _ ∈ keyActions w.ae.entry.waiKeyState
      rcases hdone with hdone | hdone <;> rw [hdone] <;> decide)] at hr
    simp only [keyAction] at hr
    rw [mlmeUcastKeyReq_asks hvalid henv] at hr
    cases hr
    refine ⟨⟨hpaired.aeValid, hpaired.asueValid, hpaired.bk, hpaired.aeAddr, hpaired.asueAddr⟩,
      .asked rfl ⟨rfl, rfl⟩ hsecured ?_ ?_ htoAe, ?_⟩
    · intro hopen
      change w.ae.entry.portSecured = false at hopen
      rw [hsec] at hopen
      cases hopen
    · intro _
      refine ⟨⟨hkeys.ptk, hkeys.ptkSeed, hkeys.uskid⟩, ?_, ?_⟩
      · change (if w.ae.entry.portSecured then w.ae.entry.ptkSeed else env.random) = _
        rw [if_pos hsec]
        rfl
      · exact hsettled.aeStarts rfl
    · rw [Side.nextUskid, if_pos ⟨rfl, hsec⟩, ← huskid, nextUskid_of_ne (isDone_ne hdone)]
      rfl
  | idle hae => rw [hae] at hdone; rcases hdone with hdone | hdone <;> cases hdone
  | asked hae => rw [hae] at hdone; rcases hdone with hdone | hdone <;> cases hdone
  | answered hae => rw [hae] at hdone; rcases hdone with hdone | hdone <;> cases hdone
  | notified _ hae => rw [hae] at hdone; rcases hdone with hdone | hdone <;> cases hdone
  | mcastAnswered _ hae => rw [hae] at hdone; rcases hdone with hdone | hdone <;> cases hdone

theorem Talking.notify (h : Talking c w uskid) (henv : Supplied env w.asue)
    (hdone : w.ae.entry.waiKeyState = .ucastKeyDone) (hopen : w.ae.entry.portSecured = false)
    (hr : runTrigger c env w.ae .keyHsTimer = some r) : Talking c (w.aeStarts r) uskid := by
  obtain ⟨hpaired, hphase, huskid⟩ := h
  cases hphase with
  | agreed hae hid hkeys hsecured hfirst hsettled htoAe =>
    obtain ⟨info, hinfo⟩ := Option.isSome_iff_exists.mp henv.mcastKey
    have hretry := hfirst hopen
    generalize hs : (w.ae.trigger .keyHsTimer).1 = s
    have htrigger : w.ae.trigger .keyHsTimer = (s, .send .mlmeMcastKeyNotify) := by
      rw [← hs]
      simp only [Side.trigger, waiKeyHSTimerProc]
      rw [if_neg (by rw [hpaired.aeValid]; simp), hretry]
      rfl
    have hkept : s = { w.ae with
        entry := { w.ae.entry with retryCnt := s.entry.retryCnt }
        timers := s.timers } := by
      rw [← hs]
      simp only [Side.trigger, waiKeyHSTimerProc]
      rw [if_neg (by rw [hpaired.aeValid]; simp)]
      rfl
    have hvalid : s.entry.valid = true := by
      rw [hkept]
      exact hpaired.aeValid
    have hstate : s.entry.waiKeyState = w.ae.entry.waiKeyState := by rw [hkept]
    rw [runTrigger_acts htrigger hvalid (by rw [hstate, hdone]; decide)] at hr
    simp only [keyAction] at hr
    rw [mlmeMcastKeyNotify_notifies hvalid henv hinfo] at hr
    rw [hkept] at hr
    cases hr
    refine ⟨⟨hpaired.aeValid, hpaired.asueValid, hpaired.bk, hpaired.aeAddr, hpaired.asueAddr⟩,
      .notified (Side.mcastKeyNotifyFrame c
        (Side.storeMcastKey _ info) info) rfl ⟨hid.addid, hid.bkid⟩
        ⟨hkeys.ptk, hkeys.ptkSeed, hkeys.uskid⟩ rfl rfl rfl ?_ htoAe, ?_⟩
    · exact hsettled.aeStarts rfl
    · rw [nextUskid_of_ne (by change WaiKeyState.waitMcastResp ≠ _; decide), ← huskid,
        nextUskid_of_ne (by rw [hdone]; decide)]
      rfl
  | idle hae => rw [hdone] at hae; cases hae
  | asked hae => rw [hdone] at hae; cases hae
  | answered hae => rw [hdone] at hae; cases hae
  | notified _ hae => rw [hdone] at hae; cases hae
  | mcastAnswered _ hae => rw [hdone] at hae; cases hae

end Starts

section ToStation

variable {c : Crypto} {env : Env} {w : Wire} {uskid : U8} {hdr : Bytes 12}
  {stale : List U8} {f : Frame} {fs rest : List Frame}

theorem identified_asue (hpaired : Paired w.ae w.asue) (hid : Identified c w.ae) :
    addidOf w.asue.entry.addr w.asue.mbss.wlanAddr = w.ae.entry.addid ∧
      (w.asue.asAsue c).entry.bkid = w.ae.entry.bkid := by
  have haddid : addidOf w.asue.entry.addr w.asue.mbss.wlanAddr = w.ae.entry.addid := by
    rw [hid.addid, hpaired.asueAddr, hpaired.aeAddr]
  refine ⟨haddid, ?_⟩
  rw [hid.bkid, ← hpaired.bk, ← haddid]
  rfl

theorem Talking.answers (hpaired : Paired w.ae w.asue)
    (hae : w.ae.entry.waiKeyState = .waitUcastResp) (hid : Identified c w.ae)
    (hsecured : w.asue.entry.portSecured = w.ae.entry.portSecured)
    (husk : w.asue.entry.uskid = w.ae.entry.uskid)
    (hseed : w.ae.entry.portSecured = true → w.ae.entry.anonce = w.asue.entry.ptkSeed)
    (hmem : .peerUcastKeyReq ∈ keyActions w.asue.entry.waiKeyState) (htoAe : w.toAe = [])
    (henv : Supplied env w.ae) :
    ∃ r, receive c env hdr stale ⟨.uniKeyReq, w.ae.ucastKeyReqFrame.bytes⟩ w.asue = some r ∧
      Talking c (w.asueTakes [] r) w.ae.nextUskid := by
  obtain ⟨haddid, hbkid⟩ := identified_asue hpaired hid
  rw [receive_acts rfl hpaired.asueValid hmem]
  simp only [keyAction]
  have hflag : uskRenewIsOn w.ae.ucastKeyReqFrame.flag = w.ae.entry.portSecured := by
    change uskRenewIsOn (if w.ae.entry.portSecured then waiFlagUskUpdate else 0) = _
    cases w.ae.entry.portSecured <;> rfl
  have hnext : w.ae.nextUskid = w.ae.ucastKeyReqFrame.uskid := by
    change _ = if w.ae.entry.portSecured then rotated w.ae.entry.uskid else w.ae.entry.uskid
    rw [Side.nextUskid, hae]
    simp
  rw [peerUcastKeyReq_answers hpaired.asueValid henv hbkid ?_]
  · have huskid : (if uskRenewIsOn w.ae.ucastKeyReqFrame.flag then w.ae.ucastKeyReqFrame.uskid
        else w.asue.entry.uskid) = w.ae.nextUskid := by
      have hframe : w.ae.ucastKeyReqFrame.uskid =
          if w.ae.entry.portSecured then rotated w.ae.entry.uskid else w.ae.entry.uskid := rfl
      rw [hflag, hnext, husk, hframe]
      cases w.ae.entry.portSecured <;> rfl
    refine ⟨_, rfl,
      ⟨hpaired.aeValid, hpaired.asueValid, hpaired.bk, hpaired.aeAddr, hpaired.asueAddr⟩,
      .answered hae hid rfl hsecured rfl ?_ rfl huskid rfl ?_, rfl⟩
    · change pairwiseKey c w.asue.entry.bk (addidOf w.asue.entry.addr w.asue.mbss.wlanAddr)
        w.ae.entry.anonce env.random = pairwiseKey c w.ae.entry.bk w.ae.entry.addid
        w.ae.entry.anonce env.random
      rw [haddid, hpaired.bk]
    · change w.toAe ++ [_] = [_]
      rw [htoAe]
      rfl
  · intro hon
    rw [hflag] at hon
    refine ⟨?_, hseed hon⟩
    rw [husk, ← hnext, Side.nextUskid, if_pos ⟨hae, hon⟩]
    exact rotated_ne _

theorem Wire.Settled.deliver (hdr : Bytes 12) (stale : List U8) (h : w.Settled c rest) (hvalid : w.asue.entry.valid = true)
    (henv : Supplied env w.ae) (hqueue : w.toAsue = f :: fs) :
    w.asue.entry.waiKeyState.isDone ∧ rest = f :: fs ∨
    fs = rest ∧ receive c env hdr stale f w.asue = some (w.asue.confirmed, []) := by
  rcases h with ⟨hasue, htoAsue⟩ | ⟨hasue, g, hcfm, htoAsue⟩
  · left
    exact ⟨hasue, htoAsue.symm.trans hqueue⟩
  · right
    rw [hqueue] at htoAsue
    cases htoAsue
    refine ⟨rfl, ?_⟩
    obtain ⟨frame, hnonce, rfl⟩ := hcfm
    rw [receive_acts rfl hvalid (by rw [hasue]; decide)]
    simp only [keyAction]
    rw [peerUcastKeyCfm_confirms ⟨frame, hnonce, rfl⟩ henv]

theorem Wire.Settled.confirmed : (w.asueTakes rest (w.asue.confirmed, [])).Settled c rest :=
  Or.inl ⟨Or.inl rfl, rfl⟩

theorem Talking.mcastAnswers {pMsg : McastKeyNotifyFrame} (hpaired : Paired w.ae w.asue)
    (hae : w.ae.entry.waiKeyState = .waitMcastResp) (hid : Identified c w.ae)
    (hkeys : SharedKeys w.ae w.asue) (hmskid : pMsg.mskid = w.ae.mbss.mskid)
    (husk : pMsg.uskid = w.ae.entry.uskid) (haddid : pMsg.addid = w.ae.entry.addid)
    (hasue : w.asue.entry.waiKeyState.isDone) (htoAe : w.toAe = []) (henv : Supplied env w.ae) :
    ∃ r, receive c env hdr stale
        ⟨.multiKeyNotify, sealedFrame c w.ae.entry.mak pMsg.bytes⟩ w.asue = some r ∧
      Talking c (w.asueTakes [] r) w.ae.nextUskid := by
  have hmak : w.ae.entry.mak = w.asue.entry.mak := by
    rw [Entry.mak, Entry.mak, hkeys.ptk]
  rw [receive_acts rfl hpaired.asueValid (by
    rcases hasue with hasue | hasue <;> rw [hasue] <;> decide)]
  simp only [keyAction, hmak]
  rw [peerMcastKeyNotify_answers henv]
  refine ⟨_, rfl,
    ⟨hpaired.aeValid, hpaired.asueValid, hpaired.bk, hpaired.aeAddr, hpaired.asueAddr⟩,
    .mcastAnswered (mcastRespFrame pMsg) hae hid ⟨hkeys.ptk, hkeys.ptkSeed, hkeys.uskid⟩
      (Or.inr rfl) rfl hmskid husk haddid rfl ?_, rfl⟩
  change w.toAe ++ [_] = [⟨_, sealedFrame c w.ae.entry.mak _⟩]
  rw [htoAe, hmak]
  rfl

theorem Talking.toAsue (hdr : Bytes 12) (stale : List U8) (h : Talking c w uskid) (henv : Supplied env w.ae)
    (hqueue : w.toAsue = f :: fs) :
    ∃ r, receive c env hdr stale f w.asue = some r ∧ Talking c (w.asueTakes fs r) uskid := by
  obtain ⟨hpaired, hphase, rfl⟩ := h
  have hsame : Paired w.ae w.asue.confirmed :=
    ⟨hpaired.aeValid, hpaired.asueValid, hpaired.bk, hpaired.aeAddr, hpaired.asueAddr⟩
  cases hphase with
  | idle _ _ _ _ _ htoAsue => rw [hqueue] at htoAsue; cases htoAsue
  | asked hae hid hsecured hfirst hupdate htoAe =>
    cases hport : w.ae.entry.portSecured with
    | false =>
      obtain ⟨hasue, husk, htoAsue⟩ := hfirst hport
      rw [hqueue] at htoAsue
      cases htoAsue
      apply Talking.answers hpaired hae hid hsecured husk _ (by rw [hasue]; decide) htoAe henv
      intro hsec
      rw [hport] at hsec
      cases hsec
    | true =>
      obtain ⟨hkeys, hanonce, hsettled⟩ := hupdate hport
      rcases hsettled.deliver hdr stale hpaired.asueValid henv hqueue with
        ⟨hdone, hreq⟩ | ⟨rfl, hcfm⟩
      · cases hreq
        apply Talking.answers hpaired hae hid hsecured hkeys.uskid _ _ htoAe henv
        · intro _
          rw [hanonce, hkeys.ptkSeed]
        · rcases hdone with hdone | hdone <;> rw [hdone] <;> decide
      · refine ⟨_, hcfm, hsame,
          .asked hae hid hsecured ?_ ?_ (by rw [Wire.asueTakes, htoAe]; rfl), rfl⟩
        · intro hopen
          change w.ae.entry.portSecured = false at hopen
          rw [hport] at hopen
          cases hopen
        · intro _
          exact ⟨⟨hkeys.ptk, hkeys.ptkSeed, hkeys.uskid⟩, hanonce, .confirmed⟩
  | answered _ _ _ _ _ _ _ _ htoAsue => rw [hqueue] at htoAsue; cases htoAsue
  | agreed hae hid hkeys hsecured hfirst hsettled htoAe =>
    rcases hsettled.deliver hdr stale hpaired.asueValid henv hqueue with
      ⟨-, hnone⟩ | ⟨rfl, hcfm⟩
    · cases hnone
    · exact ⟨_, hcfm, hsame, .agreed hae hid ⟨hkeys.ptk, hkeys.ptkSeed, hkeys.uskid⟩ hsecured hfirst
        .confirmed (by rw [Wire.asueTakes, htoAe]; rfl), rfl⟩
  | notified pMsg hae hid hkeys hmskid husk haddid hsettled htoAe =>
    rcases hsettled.deliver hdr stale hpaired.asueValid henv hqueue with
      ⟨hdone, hnotify⟩ | ⟨rfl, hcfm⟩
    · cases hnotify
      exact Talking.mcastAnswers hpaired hae hid hkeys hmskid husk haddid hdone htoAe henv
    · exact ⟨_, hcfm, hsame, .notified pMsg hae hid ⟨hkeys.ptk, hkeys.ptkSeed, hkeys.uskid⟩ hmskid
        husk haddid .confirmed (by rw [Wire.asueTakes, htoAe]; rfl), rfl⟩
  | mcastAnswered _ _ _ _ _ _ _ _ _ htoAsue => rw [hqueue] at htoAsue; cases htoAsue

end ToStation

section ToAccessPoint

variable {c : Crypto} {env : Env} {w : Wire} {uskid : U8} {hdr : Bytes 12}
  {stale : List U8} {f : Frame} {fs : List Frame}

theorem ucastKeyResp_accepted {ae asue : Side} {flag : U8} (hvalid : ae.entry.valid = true)
    (hanonce : asue.entry.anonce = ae.entry.anonce)
    (hptk : asue.entry.ptk =
      pairwiseKey c ae.entry.bk ae.entry.addid ae.entry.anonce asue.entry.snonce)
    (hidx : uskRenewIsOn flag = true → asue.entry.uskid ≠ ae.entry.uskid)
    (henv : Supplied env asue) :
    AcceptsUcastKeyResp c env (.received hdr (asue.ucastKeyResp c flag) stale) ae := by
  have hread : UcastKeyRespFrame.read (Elem.received hdr (asue.ucastKeyResp c flag) stale).body =
      asue.ucastKeyRespFrame flag := by
    rw [Elem.received_body, Side.ucastKeyResp, sealedFrame, List.append_assoc, List.append_assoc,
      UcastKeyRespFrame.read_bytes]
  have hmak : (ae.deriveFrom c (asue.ucastKeyRespFrame flag)).entry.mak = asue.entry.mak := by
    unfold Entry.mak
    rw [hptk]
    rfl
  unfold AcceptsUcastKeyResp
  simp only
  rw [hread, Side.ucastKeyResp, Elem.received_rcvdMac, Elem.received_authenticated, hmak]
  refine ⟨?_, hvalid, hidx, ?_, hanonce, rfl, henv.malloc, henv.send⟩
  · rw [Elem.received_msgLen, length_sealedFrame, List.length_append,
      UcastKeyRespFrame.length_bytes, lenMsgAuthCode]
    omega
  · intro _
    unfold wieMatches
    rw [henv.wie]
    simp only [Elem.received_body]
    rw [sealedFrame, List.append_assoc, List.append_assoc, UcastKeyRespFrame.wie_bytes]
    exact beq_self_eq_true _

theorem completed_nextUskid {ae : Side} {pMsg : UcastKeyRespFrame}
    (hflag : uskRenewIsOn pMsg.flag = ae.entry.portSecured)
    (huskid : pMsg.uskid = ae.nextUskid) :
    (ae.completed c pMsg).entry.uskid = ae.nextUskid := by
  rw [completed_uskid, hflag, huskid, Side.nextUskid]
  cases hport : ae.entry.portSecured with
  | true => rw [if_pos rfl]
  | false => simp

theorem completed_keeps {ae : Side} {pMsg : UcastKeyRespFrame} :
    (ae.completed c pMsg).mbss = ae.mbss ∧ (ae.completed c pMsg).entry.valid = ae.entry.valid ∧
      (ae.completed c pMsg).entry.addr = ae.entry.addr ∧
      (ae.completed c pMsg).entry.bk = ae.entry.bk ∧
      (ae.completed c pMsg).entry.addid = ae.entry.addid ∧
      (ae.completed c pMsg).entry.bkid = ae.entry.bkid ∧
      (ae.completed c pMsg).entry.portSecured = ae.entry.portSecured ∧
      (ae.completed c pMsg).entry.mak = (ae.deriveFrom c pMsg).entry.mak := by
  unfold Side.completed Side.takeUskid
  split <;> exact ⟨rfl, rfl, rfl, rfl, rfl, rfl, rfl, rfl⟩

theorem Talking.toAe (hdr : Bytes 12) (stale : List U8) (h : Talking c w uskid) (henv : Supplied env w.asue)
    (hqueue : w.toAe = f :: fs) :
    ∃ r, receive c env hdr stale f w.ae = some r ∧ Talking c (w.aeTakes fs r) uskid := by
  obtain ⟨hpaired, hphase, rfl⟩ := h
  cases hphase with
  | idle _ _ _ _ _ _ htoAe => rw [hqueue] at htoAe; cases htoAe
  | asked _ _ _ _ _ htoAe => rw [hqueue] at htoAe; cases htoAe
  | answered hae hid hasue hsecured hanonce hptk hseed huskid htoAsue htoAe =>
    rw [hqueue] at htoAe
    cases htoAe
    generalize hflag : (if w.ae.entry.portSecured then waiFlagUskUpdate else 0) = flag
    have hrenew : uskRenewIsOn flag = w.ae.entry.portSecured := by
      rw [← hflag]
      cases w.ae.entry.portSecured <;> rfl
    have hread : UcastKeyRespFrame.read
        (Elem.received hdr (w.asue.ucastKeyResp c flag) stale).body =
          w.asue.ucastKeyRespFrame flag := by
      rw [Elem.received_body, Side.ucastKeyResp, sealedFrame, List.append_assoc,
        List.append_assoc, UcastKeyRespFrame.read_bytes]
    have hacc : AcceptsUcastKeyResp c env (.received hdr (w.asue.ucastKeyResp c flag) stale)
        w.ae := by
      apply ucastKeyResp_accepted hpaired.aeValid hanonce hptk _ henv
      intro hon
      rw [hrenew] at hon
      rw [huskid, Side.nextUskid, if_pos ⟨hae, hon⟩]
      exact rotated_ne _
    rw [receive_acts rfl hpaired.aeValid (by rw [hae]; decide)]
    simp only [keyAction]
    rw [waiPeerUcastKeyRespAction_accepts hacc, hread]
    have hafter := @completed_keeps c w.ae (w.asue.ucastKeyRespFrame flag)
    have hindex : (w.ae.completed c (w.asue.ucastKeyRespFrame flag)).entry.uskid =
        w.ae.nextUskid := completed_nextUskid hrenew huskid
    obtain ⟨hmbss, hvalid, haddr, hbk, haddid, hbkid, hport, hmak⟩ := hafter
    have hkeys : SharedKeys (w.ae.completed c (w.asue.ucastKeyRespFrame flag)) w.asue := by
      have hsame : w.asue.entry.ptk =
          (w.ae.completed c (w.asue.ucastKeyRespFrame flag)).entry.ptk := by
        rw [completed_ptk]
        exact hptk
      refine ⟨hsame, ?_, ?_⟩
      · rw [completed_ptkSeed, ← hsame]
        exact hseed
      · rw [hindex]
        exact huskid
    refine ⟨_, rfl, ⟨?_, hpaired.asueValid, ?_, ?_, ?_⟩,
      .agreed (Or.inl rfl) ⟨?_, ?_⟩ hkeys ?_ (fun _ => rfl) (Or.inr ⟨hasue, ?_⟩) rfl, ?_⟩
    · exact hvalid.trans hpaired.aeValid
    · exact hpaired.bk.trans hbk.symm
    · exact haddr.trans hpaired.aeAddr
    · rw [Wire.aeTakes, hmbss]
      exact hpaired.asueAddr
    · rw [Wire.aeTakes, hmbss, haddid, haddr]
      exact hid.addid
    · rw [Wire.aeTakes, hbkid, hbk, haddid]
      exact hid.bkid
    · exact hsecured.trans hport.symm
    · refine ⟨⟨.uniKeyConfirm, (w.ae.deriveFrom c (w.asue.ucastKeyRespFrame flag)).ucastKeyCfm c
        (w.asue.ucastKeyRespFrame flag)⟩,
        ⟨confirmFrame (w.asue.ucastKeyRespFrame flag), rfl, ?_⟩, ?_⟩
      · have hmak' : w.asue.entry.mak =
            (w.ae.deriveFrom c (w.asue.ucastKeyRespFrame flag)).entry.mak := by
          rw [← hmak, Entry.mak, Entry.mak, hkeys.ptk]
        rw [Wire.aeTakes, hmbss, hmak']
        rfl
      · rw [Wire.aeTakes, htoAsue]
        rfl
    · rw [nextUskid_of_ne (by change WaiKeyState.ucastKeyDone ≠ _; decide)]
      exact hindex
  | agreed _ _ _ _ _ _ htoAe => rw [hqueue] at htoAe; cases htoAe
  | notified _ _ _ _ _ _ _ _ htoAe => rw [hqueue] at htoAe; cases htoAe
  | mcastAnswered resp hae hid hkeys hasue hsecured hmskid huskid haddid htoAsue htoAe =>
    rw [hqueue] at htoAe
    cases htoAe
    rw [receive_acts rfl hpaired.aeValid (by rw [hae]; decide)]
    simp only [keyAction]
    rw [peerMcastKeyResp_completes hpaired.aeValid hmskid huskid haddid]
    refine ⟨_, rfl,
      ⟨hpaired.aeValid, hpaired.asueValid, hpaired.bk, hpaired.aeAddr, hpaired.asueAddr⟩,
      .agreed (Or.inr rfl) ⟨hid.addid, hid.bkid⟩ ⟨hkeys.ptk, hkeys.ptkSeed, hkeys.uskid⟩ hsecured
        ?_ (Or.inl ⟨hasue, ?_⟩) rfl, ?_⟩
    · intro hopen
      cases hopen
    · rw [Wire.aeTakes, htoAsue]
      rfl
    · rw [nextUskid_of_ne (by change WaiKeyState.mcastKeyDone ≠ _; decide),
        nextUskid_of_ne (by rw [hae]; decide)]
      rfl

end ToAccessPoint

section Runs

variable {c : Crypto} {w w' : Wire} {uskid : U8} {m : Move}

/-- Before any handshake: nothing is in flight, and no port is open. -/
structure Fresh (ae asue : Side) : Prop extends Paired ae asue where
  aeIdle : ae.entry.waiKeyState = .ucastKeyIdle
  asueIdle : asue.entry.waiKeyState = .ucastKeyIdle
  aeOpen : ae.entry.portSecured = false
  asueOpen : asue.entry.portSecured = false
  uskid : asue.entry.uskid = ae.entry.uskid

theorem Fresh.talking {ae asue : Side} (h : Fresh ae asue) :
    Talking c ⟨ae, asue, [], []⟩ ae.entry.uskid where
  paired := h.toPaired
  phase := .idle h.aeIdle h.asueIdle h.aeOpen (h.asueOpen.trans h.aeOpen.symm) h.uskid rfl rfl
  uskid := nextUskid_of_ne (by rw [h.aeIdle]; decide)

theorem Talking.step (h : Talking c w uskid) (hm : Smooth w m) (hstep : w.step c m = some w') :
    Talking c w' (if m.isUpdate then rotated uskid else uskid) := by
  cases m with
  | start t env =>
    simp only [Wire.step] at hstep
    split at hstep
    · obtain ⟨r, hr, rfl⟩ := Option.map_eq_some_iff.mp hstep
      obtain ⟨henv, ⟨rfl, hidle⟩ | ⟨rfl, hdone, hopen⟩ | ⟨rfl, hdone, hsec⟩⟩ := hm
      · exact h.first henv hidle hr
      · exact h.notify henv hdone hopen hr
      · exact h.update henv hdone hsec hr
    · cases hstep
  | toAsue hdr stale env =>
    simp only [Wire.step] at hstep
    split at hstep
    · cases hstep
    · rename_i hqueue
      obtain ⟨r, hr, rfl⟩ := Option.map_eq_some_iff.mp hstep
      obtain ⟨r', hr', htalk⟩ := h.toAsue hdr stale hm hqueue
      cases hr.symm.trans hr'
      exact htalk
  | toAe hdr stale env =>
    simp only [Wire.step] at hstep
    split at hstep
    · cases hstep
    · rename_i hqueue
      obtain ⟨r, hr, rfl⟩ := Option.map_eq_some_iff.mp hstep
      obtain ⟨r', hr', htalk⟩ := h.toAe hdr stale hm hqueue
      cases hr.symm.trans hr'
      exact htalk

theorem Talking.delivers (h : Talking c w uskid) (hdr : Bytes 12) (stale : List U8) (env : Env) :
    (Supplied env w.ae → w.toAsue ≠ [] → (w.step c (.toAsue hdr stale env)).isSome = true) ∧
    (Supplied env w.asue → w.toAe ≠ [] → (w.step c (.toAe hdr stale env)).isSome = true) := by
  constructor
  · intro henv hne
    obtain ⟨f, fs, hqueue⟩ := List.exists_cons_of_ne_nil hne
    obtain ⟨r, hr, -⟩ := h.toAsue hdr stale henv hqueue
    simp only [Wire.step, hqueue, hr]
    rfl
  · intro henv hne
    obtain ⟨f, fs, hqueue⟩ := List.exists_cons_of_ne_nil hne
    obtain ⟨r, hr, -⟩ := h.toAe hdr stale henv hqueue
    simp only [Wire.step, hqueue, hr]
    rfl

theorem Talking.quiet (h : Talking c w uskid) (htoAsue : w.toAsue = []) (htoAe : w.toAe = [])
    (hstarted : w.ae.entry.waiKeyState ≠ .ucastKeyIdle) :
    SharedKeys w.ae w.asue ∧ w.ae.entry.waiKeyState.isDone ∧ w.asue.entry.waiKeyState.isDone ∧
      w.ae.entry.uskid = uskid := by
  obtain ⟨-, hphase, rfl⟩ := h
  have hnone : ∀ {f : Frame} {fs : List Frame}, w.Settled c (f :: fs) → False := by
    rintro f fs (⟨-, hqueue⟩ | ⟨-, g, -, hqueue⟩)
    · rw [htoAsue] at hqueue
      cases hqueue
    · rw [htoAsue] at hqueue
      cases hqueue
  cases hphase with
  | idle hae => exact absurd hae hstarted
  | asked _ _ _ hfirst hupdate =>
    cases hport : w.ae.entry.portSecured with
    | false =>
      have hqueue := (hfirst hport).2.2
      rw [htoAsue] at hqueue
      cases hqueue
    | true => exact (hnone (hupdate hport).2.2).elim
  | answered _ _ _ _ _ _ _ _ _ hqueue => rw [htoAe] at hqueue; cases hqueue
  | agreed hae hid hkeys hsecured hfirst hsettled =>
    refine ⟨hkeys, hae, ?_, (nextUskid_of_ne (isDone_ne hae)).symm⟩
    rcases hsettled with ⟨hasue, -⟩ | ⟨-, g, -, hqueue⟩
    · exact hasue
    · rw [htoAsue] at hqueue
      cases hqueue
  | notified _ _ _ _ _ _ _ hsettled => exact (hnone hsettled).elim
  | mcastAnswered _ _ _ _ _ _ _ _ _ _ hqueue => rw [htoAe] at hqueue; cases hqueue

/-- Any number of moves, by induction on the run. -/
theorem Talking.run {ae asue : Side} {ms : List Move} (hfresh : Fresh ae asue)
    (hrun : Run (Guarded Smooth (Toolkit.Graph (Wire.step c))) ⟨ae, asue, [], []⟩ ms w) :
    Talking c w (rotated^[ms.countP Move.isUpdate] ae.entry.uskid) := by
  induction hrun with
  | nil => exact hfresh.talking
  | @snoc ms _ _ m _ hstep ih =>
    have hnext := ih.step hstep.1 hstep.2
    rw [List.countP_append, List.countP_singleton]
    cases hm : m.isUpdate with
    | false => simpa [hm] using hnext
    | true =>
      rw [if_pos rfl, Function.iterate_succ_apply']
      simpa [hm] using hnext

end Runs

/-- On a line that loses nothing every frame in flight can be delivered, and once nothing is in
flight after the first handshake both ends hold the same keys, have ended their handshakes, and
the key index has been turned over by every update. -/
theorem keys_agree_after_exchanges (c : Crypto) (ae asue : Side) (ms : List Move) (w : Wire)
    (hfresh : Fresh ae asue)
    (hrun : Run (Guarded Smooth (Toolkit.Graph (Wire.step c))) ⟨ae, asue, [], []⟩ ms w) :
    (∀ hdr stale env,
      (Supplied env w.ae → w.toAsue ≠ [] → (w.step c (.toAsue hdr stale env)).isSome = true) ∧
      (Supplied env w.asue → w.toAe ≠ [] → (w.step c (.toAe hdr stale env)).isSome = true)) ∧
    (w.toAsue = [] → w.toAe = [] → w.ae.entry.waiKeyState ≠ .ucastKeyIdle →
      SharedKeys w.ae w.asue ∧ w.ae.entry.waiKeyState.isDone ∧ w.asue.entry.waiKeyState.isDone ∧
        w.ae.entry.uskid = rotated^[ms.countP Move.isUpdate] ae.entry.uskid) := by
  have htalk := Talking.run hfresh hrun
  exact ⟨fun hdr stale env => htalk.delivers hdr stale env, htalk.quiet⟩

def exampleMoves : List Move :=
  [.start .triggerTimer (exampleEnv 1), .toAsue (.zero 12) [] (exampleEnv 2),
    .toAe (.zero 12) [] (exampleEnv 3), .start .keyHsTimer (exampleEnv 4),
    .toAsue (.zero 12) [] (exampleEnv 5), .toAsue (.zero 12) [] (exampleEnv 6),
    .toAe (.zero 12) [] (exampleEnv 7), .start .updateUsk (exampleEnv 8),
    .toAsue (.zero 12) [] (exampleEnv 9), .toAe (.zero 12) [] (exampleEnv 10),
    .start .updateUsk (exampleEnv 11), .toAsue (.zero 12) [] (exampleEnv 12),
    .toAsue (.zero 12) [] (exampleEnv 13), .toAe (.zero 12) [] (exampleEnv 14),
    .toAsue (.zero 12) [] (exampleEnv 15)]

theorem exampleAe_fresh : Fresh exampleAe exampleAsue where
  aeValid := rfl
  asueValid := rfl
  bk := rfl
  aeAddr := rfl
  asueAddr := rfl
  aeIdle := rfl
  asueIdle := rfl
  aeOpen := rfl
  asueOpen := rfl
  uskid := rfl

theorem keys_agree_after_exchanges_twice :
    ∃ w : Wire, w.ae.entry.uskid = rotated^[2] 0 ∧ w.ae.entry.ptk = w.asue.entry.ptk ∧
      w.ae.entry.snonce = padded 32 [13] := by
  obtain ⟨w, hw, hfacts⟩ := (Option.any_eq_true _ _).mp (by decide +kernel :
    (exec (guardStep Smooth (Wire.step plainCrypto)) ⟨exampleAe, exampleAsue, [], []⟩
      exampleMoves).any (fun w => decide (w.toAsue = [] ∧ w.toAe = [] ∧
        w.ae.entry.waiKeyState ≠ .ucastKeyIdle ∧ w.ae.entry.snonce = padded 32 [13])) = true)
  obtain ⟨htoAsue, htoAe, hstarted, hsnonce⟩ := of_decide_eq_true hfacts
  obtain ⟨-, hquiet⟩ := keys_agree_after_exchanges plainCrypto exampleAe exampleAsue exampleMoves w
    exampleAe_fresh (exec_guarded_run hw)
  obtain ⟨hkeys, -, -, huskid⟩ := hquiet htoAsue htoAe hstarted
  exact ⟨w, huskid, hkeys.ptk.symm, hsnonce⟩

end OpenwrtMtk.Wapi
