import OpenwrtMtk.Wapi.KeyHandlers

/-!
# What an exchange accepts and refuses

The messages that are accepted, with what is taken from them, and those that are refused.
-/

/-!
## What the handlers do with a frame

For a received unicast key response, exactly when it is accepted and what the AE is then; for the
other handlers, which frames they can send and whether they give a key to the driver.
-/

namespace OpenwrtMtk.Wapi

open Toolkit

set_option autoImplicit false

section Response

variable (c : Crypto) (env : Env) (elem : Elem) (s : Side)

def Side.takeUskid (pMsg : UcastKeyRespFrame) : Side :=
  if uskRenewIsOn pMsg.flag then s.setUskid pMsg.uskid else s

/-- The AE answers the response with a confirm. -/
def AcceptsUcastKeyResp : Prop :=
  let pMsg := UcastKeyRespFrame.read elem.body
  lengthHeaderWai + UcastKeyRespFrame.size < elem.msgLen ∧
  s.entry.valid = true ∧
  (uskRenewIsOn pMsg.flag = true → pMsg.uskid ≠ s.entry.uskid) ∧
  (uskRenewIsOn pMsg.flag = false → wieMatches env elem UcastKeyRespFrame.size = true) ∧
  pMsg.aeChallenge = s.entry.anonce ∧
  elem.rcvdMac = msgAuthCode c (s.deriveFrom c pMsg).entry.mak elem.authenticated ∧
  env.malloc = true ∧ env.send = true

def Side.completed (pMsg : UcastKeyRespFrame) : Side :=
  ((s.takeUskid pMsg).deriveFrom c pMsg).ucastKeyDone (if uskRenewIsOn pMsg.flag then 0 else 1)

variable {c env elem s}

theorem verifyUcastKeyResp_accepts {pMsg : UcastKeyRespFrame} {bUskUpdate : Bool}
    (hchal : pMsg.aeChallenge = s.entry.anonce)
    (hmac : elem.rcvdMac = msgAuthCode c (s.deriveFrom c pMsg).entry.mak elem.authenticated)
    (hmalloc : env.malloc = true) (hsend : env.send = true) :
    verifyUcastKeyResp c env elem s pMsg bUskUpdate =
      ((s.deriveFrom c pMsg).ucastKeyDone (if bUskUpdate then 0 else 1),
        [.l2Send .uniKeyConfirm ((s.deriveFrom c pMsg).ucastKeyCfm c pMsg),
          (s.deriveFrom c pMsg).ucastKey]) := by
  unfold verifyUcastKeyResp
  rw [if_neg (not_not.mpr hchal)]
  simp only
  rw [if_neg (not_not.mpr hmac)]
  simp only [acceptUcastKeyResp, hmalloc, hsend, Bool.true_eq_false, if_false]
  rfl

theorem verifyUcastKeyResp_refuses {pMsg : UcastKeyRespFrame} {bUskUpdate : Bool}
    (h : pMsg.aeChallenge = s.entry.anonce →
      elem.rcvdMac = msgAuthCode c (s.deriveFrom c pMsg).entry.mak elem.authenticated →
      env.malloc = true → env.send = false) :
    (verifyUcastKeyResp c env elem s pMsg bUskUpdate).2 = [] := by
  unfold verifyUcastKeyResp
  split
  · rfl
  · rename_i hchal
    simp only
    split
    · rfl
    · rename_i hmac
      unfold acceptUcastKeyResp
      cases hmalloc : env.malloc with
      | false => rfl
      | true =>
        rw [h (not_not.mp hchal) (not_not.mp hmac) hmalloc]
        rfl

theorem waiPeerUcastKeyRespAction_accepts (h : AcceptsUcastKeyResp c env elem s) :
    waiPeerUcastKeyRespAction c env elem s =
      (s.completed c (UcastKeyRespFrame.read elem.body),
        [.l2Send .uniKeyConfirm ((s.deriveFrom c (UcastKeyRespFrame.read elem.body)).ucastKeyCfm c
            (UcastKeyRespFrame.read elem.body)),
          (s.completed c (UcastKeyRespFrame.read elem.body)).ucastKey]) := by
  obtain ⟨hlen, hvalid, hidx, hwie, hchal, hmac, hmalloc, hsend⟩ := h
  unfold waiPeerUcastKeyRespAction Side.completed Side.takeUskid
  simp only
  rw [if_neg (by omega), if_neg (by rw [hvalid]; simp)]
  cases hflag : uskRenewIsOn (UcastKeyRespFrame.read elem.body).flag with
  | true =>
    rw [if_pos rfl, if_neg (hidx hflag)]
    exact verifyUcastKeyResp_accepts (s := s.setUskid (UcastKeyRespFrame.read elem.body).uskid)
      hchal hmac hmalloc hsend
  | false =>
    rw [if_neg (by simp), if_neg (by rw [hwie hflag]; simp)]
    exact verifyUcastKeyResp_accepts hchal hmac hmalloc hsend

theorem waiPeerUcastKeyRespAction_refuses (h : ¬AcceptsUcastKeyResp c env elem s) :
    (waiPeerUcastKeyRespAction c env elem s).2 = [] := by
  unfold waiPeerUcastKeyRespAction
  simp only
  split
  · rfl
  rename_i hlen
  split
  · rfl
  rename_i hvalid
  split
  · rename_i hflag
    split
    · rfl
    · rename_i hidx
      apply verifyUcastKeyResp_refuses
      intro hchal hmac hmalloc
      by_contra hsend
      exact h ⟨by omega, by simpa using hvalid, fun _ => hidx, by rw [hflag]; simp, hchal, hmac,
        hmalloc, by simpa using hsend⟩
  · rename_i hflag
    split
    · rfl
    · rename_i hwie
      apply verifyUcastKeyResp_refuses
      intro hchal hmac hmalloc
      by_contra hsend
      exact h ⟨by omega, by simpa using hvalid, fun hon => absurd hon hflag,
        fun _ => by simpa using hwie, hchal, hmac, hmalloc, by simpa using hsend⟩

@[simp] theorem completed_ptk (pMsg : UcastKeyRespFrame) :
    (s.completed c pMsg).entry.ptk =
      pairwiseKey c s.entry.bk s.entry.addid s.entry.anonce pMsg.asueChallenge := by
  unfold Side.completed Side.takeUskid
  split <;> rfl

@[simp] theorem completed_ptkSeed (pMsg : UcastKeyRespFrame) :
    (s.completed c pMsg).entry.ptkSeed = seedOf c (s.completed c pMsg).entry.ptk := by
  unfold Side.completed Side.takeUskid
  split <;> rfl

@[simp] theorem completed_uskid (pMsg : UcastKeyRespFrame) :
    (s.completed c pMsg).entry.uskid =
      if uskRenewIsOn pMsg.flag then pMsg.uskid else s.entry.uskid := by
  unfold Side.completed Side.takeUskid
  split <;> rfl

end Response

section Sends

variable {c : Crypto} {env : Env} {elem : Elem} {s : Side}

theorem mlmeUcastKeyReq_effects :
    (waiMlmeUcastKeyReqAction c env s).2 = [] ∨
    ∃ body, (waiMlmeUcastKeyReqAction c env s).2 = [.l2Send .uniKeyReq body] := by
  unfold waiMlmeUcastKeyReqAction
  split
  · exact Or.inl rfl
  · simp only
    split
    · exact Or.inl rfl
    · cases env.send with
      | false => exact Or.inl rfl
      | true => exact Or.inr ⟨_, rfl⟩

theorem mlmeMcastKeyNotify_effects :
    (waiMlmeMcastKeyNotifyAction c env s).2 = [] ∨
    ∃ body, (waiMlmeMcastKeyNotifyAction c env s).2 = [.l2Send .multiKeyNotify body] := by
  unfold waiMlmeMcastKeyNotifyAction
  split
  · exact Or.inl rfl
  · split
    · exact Or.inl rfl
    · simp only
      split
      · exact Or.inl rfl
      · cases env.send with
        | false => exact Or.inl rfl
        | true => exact Or.inr ⟨_, rfl⟩

theorem peerMcastKeyResp_effects :
    (waiPeerMcastKeyRespAction c elem s).2 = [] ∨
    (waiPeerMcastKeyRespAction c elem s).2 = [.setPortSecured] := by
  unfold waiPeerMcastKeyRespAction
  simp only
  repeat' split
  all_goals first
    | exact Or.inl rfl
    | exact Or.inr rfl

theorem sendUcastKeyResp_effects {flag retry : U8} :
    (sendUcastKeyResp c env s flag retry).2 = [] ∨
    ∃ body, (sendUcastKeyResp c env s flag retry).2 = [.l2Send .uniKeyResp body, s.ucastKey] ∧
      UcastKeyRespFrame.read body = s.ucastKeyRespFrame flag := by
  unfold sendUcastKeyResp
  split
  · exact Or.inl rfl
  · refine Or.inr ⟨_, rfl, ?_⟩
    unfold Side.ucastKeyResp sealedFrame
    rw [List.append_assoc, UcastKeyRespFrame.read_bytes]

def RespondsWith (env : Env) (effects : List Effect) : Prop :=
  effects = [] ∨ ∃ body key, effects = [.l2Send .uniKeyResp body, key] ∧
    (∀ t b, key ≠ .l2Send t b) ∧ (UcastKeyRespFrame.read body).asueChallenge = env.random

theorem sendUcastKeyResp_responds {flag retry : U8} (h : s.entry.snonce = env.random) :
    RespondsWith env (sendUcastKeyResp c env s flag retry).2 := by
  rcases sendUcastKeyResp_effects (c := c) (s := s) with hnone | ⟨body, heff, hread⟩
  · exact Or.inl hnone
  · refine Or.inr ⟨body, s.ucastKey, heff, fun _ _ => by simp [Side.ucastKey], ?_⟩
    rw [hread]
    exact h

theorem acceptUcastKeyReq_responds {pMsg : UcastKeyReqFrame} :
    RespondsWith env (acceptUcastKeyReq c env s pMsg).2 := by
  unfold acceptUcastKeyReq
  simp only
  split
  · exact Or.inl rfl
  · exact sendUcastKeyResp_responds rfl

theorem peerUcastKeyReq_responds : RespondsWith env (waiPeerUcastKeyReqAction c env elem s).2 := by
  unfold waiPeerUcastKeyReqAction
  simp only
  split
  · exact Or.inl rfl
  split
  · exact Or.inl rfl
  split
  · exact acceptUcastKeyReq_responds
  split
  · exact Or.inl rfl
  split
  · exact Or.inl rfl
  · exact acceptUcastKeyReq_responds

theorem mlmeUcastKeyResp_responds : RespondsWith env (waiMlmeUcastKeyRespAction c env s).2 := by
  unfold waiMlmeUcastKeyRespAction
  split
  · exact Or.inl rfl
  split
  · exact Or.inl rfl
  · exact sendUcastKeyResp_responds rfl

theorem peerUcastKeyCfm_effects : (waiPeerUcastKeyCfmAction c env elem s).2 = [] := by
  unfold waiPeerUcastKeyCfmAction
  simp only
  repeat' split
  all_goals rfl

theorem peerMcastKeyNotify_effects {s' : Side} {effects : List Effect}
    (h : waiPeerMcastKeyNotifyAction c env elem s = some (s', effects)) :
    effects = [] ∨ ∃ body info,
      effects = [.l2Send .multiKeyResp body, .setMcastKeyInfo info, .setPortSecured] := by
  unfold waiPeerMcastKeyNotifyAction at h
  simp only at h
  repeat' split at h
  · cases h
  all_goals cases h
  · exact Or.inl rfl
  · exact Or.inl rfl
  · exact Or.inl rfl
  · exact Or.inr ⟨_, _, rfl⟩

end Sends

end OpenwrtMtk.Wapi

/-!
## Rejected key frames

What a unicast key frame that fails its test leaves behind. A request is refused before anything is
stored. A response is not: the key index of a USK update is taken over before the challenge is
tested, and the key is derived from the received challenge to test the code, in place of the one
in use.
-/

namespace OpenwrtMtk.Wapi

open Toolkit

set_option autoImplicit false

structure SameKeys (s s' : Side) : Prop where
  uskid : s'.entry.uskid = s.entry.uskid
  snonce : s'.entry.snonce = s.entry.snonce
  ptk : s'.entry.ptk = s.entry.ptk
  ptkSeed : s'.entry.ptkSeed = s.entry.ptkSeed

/-- And so are the state and the retry timer. -/
structure Undisturbed (s s' : Side) : Prop extends SameKeys s s' where
  waiKeyState : s'.entry.waiKeyState = s.entry.waiKeyState
  retryCnt : s'.entry.retryCnt = s.entry.retryCnt
  timers : s'.timers = s.timers

theorem SameKeys.refl (s : Side) : SameKeys s s := ⟨rfl, rfl, rfl, rfl⟩

theorem Undisturbed.refl (s : Side) : Undisturbed s s := ⟨.refl s, rfl, rfl, rfl⟩

variable (c : Crypto) (env : Env) (elem : Elem) (s : Side)

def WrongUcastKeyResp : Prop :=
  let pMsg := UcastKeyRespFrame.read elem.body
  pMsg.aeChallenge ≠ s.entry.anonce ∨
    elem.rcvdMac ≠ msgAuthCode c (s.deriveFrom c pMsg).entry.mak elem.authenticated

def WrongUcastKeyReq : Prop :=
  let pMsg := UcastKeyReqFrame.read elem.body
  pMsg.bkid ≠ bkidOf c s.entry.bk (addidOf s.entry.addr s.mbss.wlanAddr) ∨
    uskRenewIsOn pMsg.flag = true ∧
      (pMsg.uskid = s.entry.uskid ∨ pMsg.aeChallenge ≠ s.entry.ptkSeed)

def SameDerived (pMsg : UcastKeyRespFrame) : Prop :=
  SameKeys s (s.deriveFrom c pMsg)

def DroppedInTime : Prop :=
  let pMsg := UcastKeyRespFrame.read elem.body
  elem.msgLen ≤ lengthHeaderWai + UcastKeyRespFrame.size ∨
  s.entry.valid = false ∨
  (uskRenewIsOn pMsg.flag = true ∧ pMsg.uskid = s.entry.uskid) ∨
  (uskRenewIsOn pMsg.flag = false ∧
    (wieMatches env elem UcastKeyRespFrame.size = false ∨
      pMsg.aeChallenge ≠ s.entry.anonce ∨ SameDerived c s pMsg))

section Response

variable {c env elem s}

theorem deriveFrom_undisturbed {pMsg : UcastKeyRespFrame} :
    Undisturbed s (s.deriveFrom c pMsg) ↔ SameDerived c s pMsg := by
  constructor
  · intro h
    exact h.toSameKeys
  · intro h
    exact ⟨h, rfl, rfl, rfl⟩

theorem verifyUcastKeyResp_wrong {pMsg : UcastKeyRespFrame} {bUskUpdate : Bool}
    (h : pMsg.aeChallenge ≠ s.entry.anonce ∨
      elem.rcvdMac ≠ msgAuthCode c (s.deriveFrom c pMsg).entry.mak elem.authenticated) :
    verifyUcastKeyResp c env elem s pMsg bUskUpdate =
      (if pMsg.aeChallenge ≠ s.entry.anonce then s else s.deriveFrom c pMsg, []) := by
  unfold verifyUcastKeyResp
  by_cases hchal : pMsg.aeChallenge ≠ s.entry.anonce
  · rw [if_pos hchal, if_pos hchal]
  · have hmac := h.resolve_left hchal
    rw [if_neg hchal, if_neg hchal]
    exact if_pos hmac

theorem wrong_update_disturbs {pMsg : UcastKeyRespFrame} {bUskUpdate : Bool}
    (hidx : pMsg.uskid ≠ s.entry.uskid)
    (h : pMsg.aeChallenge ≠ s.entry.anonce ∨
      elem.rcvdMac ≠ msgAuthCode c (s.deriveFrom c pMsg).entry.mak elem.authenticated) :
    ¬Undisturbed s
      (verifyUcastKeyResp c env elem (s.setUskid pMsg.uskid) pMsg bUskUpdate).1 := by
  have hwrong : pMsg.aeChallenge ≠ (s.setUskid pMsg.uskid).entry.anonce ∨
      elem.rcvdMac ≠ msgAuthCode c ((s.setUskid pMsg.uskid).deriveFrom c pMsg).entry.mak
        elem.authenticated := h
  rw [verifyUcastKeyResp_wrong hwrong]
  intro hsame
  apply hidx
  have huskid := hsame.uskid
  split at huskid
  · exact huskid
  · exact huskid

theorem wrong_first_disturbs {pMsg : UcastKeyRespFrame} {bUskUpdate : Bool}
    (h : pMsg.aeChallenge ≠ s.entry.anonce ∨
      elem.rcvdMac ≠ msgAuthCode c (s.deriveFrom c pMsg).entry.mak elem.authenticated) :
    Undisturbed s (verifyUcastKeyResp c env elem s pMsg bUskUpdate).1 ↔
      pMsg.aeChallenge ≠ s.entry.anonce ∨ SameDerived c s pMsg := by
  rw [verifyUcastKeyResp_wrong h]
  by_cases hchal : pMsg.aeChallenge ≠ s.entry.anonce
  · rw [if_pos hchal]
    exact ⟨fun _ => Or.inl hchal, fun _ => .refl s⟩
  · rw [if_neg hchal, deriveFrom_undisturbed]
    exact ⟨Or.inr, fun h' => h'.resolve_left hchal⟩

theorem wrongUcastKeyResp_iff (h : WrongUcastKeyResp c elem s) :
    Undisturbed s (waiPeerUcastKeyRespAction c env elem s).1 ↔ DroppedInTime c env elem s := by
  unfold waiPeerUcastKeyRespAction DroppedInTime
  simp only
  by_cases hlen : elem.msgLen ≤ lengthHeaderWai + UcastKeyRespFrame.size
  · rw [if_pos hlen]
    exact ⟨fun _ => Or.inl hlen, fun _ => .refl s⟩
  rw [if_neg hlen]
  by_cases hvalid : s.entry.valid = false
  · rw [if_pos hvalid]
    exact ⟨fun _ => Or.inr (Or.inl hvalid), fun _ => .refl s⟩
  rw [if_neg hvalid]
  rw [or_iff_right hlen, or_iff_right hvalid]
  cases hflag : uskRenewIsOn (UcastKeyRespFrame.read elem.body).flag with
  | true =>
    rw [if_pos rfl, or_iff_left (by simp)]
    by_cases hidx : (UcastKeyRespFrame.read elem.body).uskid = s.entry.uskid
    · rw [if_pos hidx]
      exact ⟨fun _ => ⟨rfl, hidx⟩, fun _ => .refl s⟩
    · rw [if_neg hidx]
      have hdisturbed : ¬Undisturbed s (verifyUcastKeyResp c env elem
          (s.setUskid (UcastKeyRespFrame.read elem.body).uskid)
          (UcastKeyRespFrame.read elem.body) true).1 := wrong_update_disturbs hidx h
      exact ⟨fun hsame => absurd hsame hdisturbed, fun hsame => absurd hsame.2 hidx⟩
  | false =>
    rw [if_neg (by simp), or_iff_right (by simp)]
    by_cases hwie : wieMatches env elem UcastKeyRespFrame.size = false
    · rw [if_pos hwie]
      exact ⟨fun _ => ⟨rfl, Or.inl hwie⟩, fun _ => .refl s⟩
    · rw [if_neg hwie, or_iff_right hwie, and_iff_right rfl]
      exact wrong_first_disturbs h

/-- After a forged update the genuine one, with the same new index, is dropped. -/
theorem forged_update_blocks {forged genuine : Elem} {env' : Env}
    (hlen : lengthHeaderWai + UcastKeyRespFrame.size < forged.msgLen)
    (hvalid : s.entry.valid = true)
    (hforged : uskRenewIsOn (UcastKeyRespFrame.read forged.body).flag = true)
    (hgenuine : uskRenewIsOn (UcastKeyRespFrame.read genuine.body).flag = true)
    (hidx : (UcastKeyRespFrame.read genuine.body).uskid =
      (UcastKeyRespFrame.read forged.body).uskid)
    (hwrong : WrongUcastKeyResp c forged s) :
    let after := (waiPeerUcastKeyRespAction c env forged s).1
    waiPeerUcastKeyRespAction c env' genuine after = (after, []) := by
  intro after
  have hafter : after.entry.uskid = (UcastKeyRespFrame.read forged.body).uskid := by
    change (waiPeerUcastKeyRespAction c env forged s).1.entry.uskid = _
    unfold waiPeerUcastKeyRespAction
    simp only
    rw [if_neg (by omega), if_neg (by rw [hvalid]; simp), if_pos hforged]
    split
    · exact Eq.symm ‹_›
    · have hset : WrongUcastKeyResp c forged
          (s.setUskid (UcastKeyRespFrame.read forged.body).uskid) := hwrong
      rw [verifyUcastKeyResp_wrong hset]
      split <;> rfl
  unfold waiPeerUcastKeyRespAction
  simp only
  split
  · rfl
  · split
    · rfl
    · rw [if_pos (hidx.trans hafter.symm)]

end Response

section Request

variable {c elem s}

theorem wrongUcastKeyReq_keeps (h : WrongUcastKeyReq c elem s) :
    SameKeys s (waiPeerUcastKeyReqAction c env elem s).1 := by
  unfold waiPeerUcastKeyReqAction
  by_cases hvalid : s.entry.valid = false
  · rw [if_pos hvalid]
    exact .refl s
  rw [if_neg hvalid]
  have hasue : SameKeys s (s.asAsue c) := ⟨rfl, rfl, rfl, rfl⟩
  by_cases hbkid : (s.asAsue c).entry.bkid ≠ (UcastKeyReqFrame.read elem.body).bkid
  · rw [if_pos hbkid]
    exact hasue
  rw [if_neg hbkid]
  obtain ⟨hrenew, hwrong⟩ := h.resolve_left fun hne => hbkid (Ne.symm hne)
  rw [if_neg (by rw [hrenew]; simp)]
  by_cases hidx : (UcastKeyReqFrame.read elem.body).uskid = (s.asAsue c).entry.uskid
  · rw [if_pos hidx]
    exact hasue
  · have hchal : (UcastKeyReqFrame.read elem.body).aeChallenge ≠ (s.asAsue c).entry.ptkSeed :=
      hwrong.resolve_left hidx
    rw [if_neg hidx, if_pos hchal]
    exact hasue

end Request

def exampleWaiting : Side := (waiMlmeUcastKeyReqAction plainCrypto (exampleEnv 1) exampleAe).1

def exampleForged : Elem :=
  .received (.zero 12) (UcastKeyRespFrame.bytes ⟨waiFlagUskUpdate, .zero 16, 1, .zero 12,
    .zero 32, .zero 32⟩ ++ (Bytes.zero 20).val) []

/-- Rejected key frames and the key state. A wrong request leaves the keys alone. A wrong response
leaves the entry alone exactly when it is dropped before anything is stored: it is too short, it is
an update to the index in use, or it is no update and has a wrong WIE or the wrong challenge; or
when the key that is stored for it is the one in use. -/
theorem rejected_frames_kept (c : Crypto) (env : Env) (elem : Elem) (s : Side) :
    (WrongUcastKeyResp c elem s →
      (Undisturbed s (waiPeerUcastKeyRespAction c env elem s).1 ↔ DroppedInTime c env elem s)) ∧
    (WrongUcastKeyReq c elem s → SameKeys s (waiPeerUcastKeyReqAction c env elem s).1) :=
  ⟨fun h => wrongUcastKeyResp_iff h, fun h => wrongUcastKeyReq_keeps env h⟩

theorem rejected_frames_kept_example :
    (Undisturbed exampleWaiting
        (waiPeerUcastKeyRespAction plainCrypto (exampleEnv 0) exampleForged exampleWaiting).1 ↔
      DroppedInTime plainCrypto (exampleEnv 0) exampleForged exampleWaiting) ∧
    SameKeys exampleWaiting
      (waiPeerUcastKeyReqAction plainCrypto (exampleEnv 0) exampleForged exampleWaiting).1 :=
  ⟨(rejected_frames_kept _ _ _ _).1 (Or.inl (by decide)),
    (rejected_frames_kept _ _ _ _).2 (Or.inl (by decide))⟩

theorem rejected_update_disturbs :
    ¬((∀ (c : Crypto) (env : Env) (elem : Elem) (s : Side), WrongUcastKeyResp c elem s →
        Undisturbed s (waiPeerUcastKeyRespAction c env elem s).1) ∧
      (∀ (c : Crypto) (env : Env) (elem : Elem) (s : Side), WrongUcastKeyReq c elem s →
        SameKeys s (waiPeerUcastKeyReqAction c env elem s).1)) := by
  intro h
  have hsame := h.1 plainCrypto (exampleEnv 0) exampleForged exampleWaiting
    (Or.inl (by decide))
  have hidx := hsame.uskid
  revert hidx
  decide

end OpenwrtMtk.Wapi
