import OpenwrtMtk.Wapi.Link
import OpenwrtMtk.Wapi.Received

/-!
# Responses that no request asked for

The station sends a unicast key response again when the confirm does not come, and sends one to
start a USK update. Such a response carries a new challenge, but its code is that of the old PTK.
It works exactly when the AE derives that old PTK from the new challenge.
-/

namespace OpenwrtMtk.Wapi

open Toolkit

set_option autoImplicit false

section Timed

variable (c : Crypto) (env : Env) (s : Side)

/-- The fields of the response that `WaiMlmeUcastKeyRespAction` builds. -/
def Side.timedFrame : UcastKeyRespFrame :=
  (s.prepareUcastKeyResp env).ucastKeyRespFrame
    (if s.entry.portSecured then waiFlagUskUpdate else 0)

def Side.timedResp : List U8 :=
  sealedFrame c s.entry.mak ((s.timedFrame env).bytes ++ s.mbss.wie)

def Side.afterTimedResp : Side :=
  { s.prepareUcastKeyResp env with
    entry := { (s.prepareUcastKeyResp env).entry with
      waiKeyState := .waitUcastCfm
      retryCnt := if s.entry.retryCnt = ucastIdleCtr then ucastWaitCfmCtr else s.entry.retryCnt }
    timers := s.timers + 1 }

variable {c env s} {a : Side} {env' : Env} {hdr : Bytes 12} {stale : List U8}

theorem mlmeUcastKeyResp_cases :
    (waiMlmeUcastKeyRespAction c env s).2 = [] ∨
    ∃ key, (∀ t b, key ≠ .l2Send t b) ∧ waiMlmeUcastKeyRespAction c env s =
      (s.afterTimedResp env, [.l2Send .uniKeyResp (s.timedResp c env), key]) := by
  unfold waiMlmeUcastKeyRespAction
  split
  · exact Or.inl rfl
  split
  · exact Or.inl rfl
  unfold sendUcastKeyResp
  split
  · exact Or.inl rfl
  · exact Or.inr ⟨_, fun _ _ => by simp [Side.ucastKey], rfl⟩

theorem timedFrame_flag : uskRenewIsOn (s.timedFrame env).flag = s.entry.portSecured := by
  change uskRenewIsOn (if s.entry.portSecured then waiFlagUskUpdate else 0) = _
  cases s.entry.portSecured <;> rfl

theorem timedFrame_uskid : (s.timedFrame env).uskid =
    if s.entry.portSecured then rotated s.entry.uskid else s.entry.uskid := rfl

theorem timedFrame_aeChallenge : (s.timedFrame env).aeChallenge =
    if s.entry.portSecured then s.entry.ptkSeed else s.entry.anonce := rfl

theorem read_timedResp :
    UcastKeyRespFrame.read (Elem.received hdr (s.timedResp c env) stale).body =
      s.timedFrame env := by
  rw [Elem.received_body, Side.timedResp, sealedFrame, List.append_assoc, List.append_assoc,
    UcastKeyRespFrame.read_bytes]

theorem accepts_timedResp :
    AcceptsUcastKeyResp c env' (.received hdr (s.timedResp c env) stale) a ↔
      a.entry.valid = true ∧
      (s.entry.portSecured = true → rotated s.entry.uskid ≠ a.entry.uskid) ∧
      (s.entry.portSecured = false →
        wieMatches env' (.received hdr (s.timedResp c env) stale) UcastKeyRespFrame.size = true) ∧
      (if s.entry.portSecured then s.entry.ptkSeed else s.entry.anonce) = a.entry.anonce ∧
      msgAuthCode c s.entry.mak ((s.timedFrame env).bytes ++ s.mbss.wie) =
        msgAuthCode c (a.deriveFrom c (s.timedFrame env)).entry.mak
          ((s.timedFrame env).bytes ++ s.mbss.wie) ∧
      env'.malloc = true ∧ env'.send = true := by
  have hmac : (Elem.received hdr (s.timedResp c env) stale).rcvdMac =
      msgAuthCode c s.entry.mak ((s.timedFrame env).bytes ++ s.mbss.wie) :=
    Elem.received_rcvdMac ..
  have htext : (Elem.received hdr (s.timedResp c env) stale).authenticated =
      (s.timedFrame env).bytes ++ s.mbss.wie := Elem.received_authenticated ..
  have hlen : lengthHeaderWai + UcastKeyRespFrame.size <
      (Elem.received hdr (s.timedResp c env) stale).msgLen := by
    rw [Elem.received_msgLen, Side.timedResp, length_sealedFrame, List.length_append,
      UcastKeyRespFrame.length_bytes, lenMsgAuthCode]
    omega
  unfold AcceptsUcastKeyResp
  simp only
  rw [read_timedResp, timedFrame_flag, timedFrame_aeChallenge, hmac, htext, and_iff_right hlen]
  have hidx : (s.entry.portSecured = true → (s.timedFrame env).uskid ≠ a.entry.uskid) ↔
      (s.entry.portSecured = true → rotated s.entry.uskid ≠ a.entry.uskid) := by
    apply imp_congr_right
    intro hsecured
    rw [timedFrame_uskid, if_pos hsecured]
  rw [hidx]

def Side.timedKey (c : Crypto) (a : Side) (env : Env) : Ptk :=
  pairwiseKey c a.entry.bk a.entry.addid a.entry.anonce env.random

theorem timedResp_agrees :
    (AcceptsUcastKeyResp c env' (.received hdr (s.timedResp c env) stale) a ∧
      (a.completed c (s.timedFrame env)).entry.ptk = s.entry.ptk) ↔
    (a.entry.valid = true ∧
      (s.entry.portSecured = true → rotated s.entry.uskid ≠ a.entry.uskid) ∧
      (s.entry.portSecured = false →
        wieMatches env' (.received hdr (s.timedResp c env) stale) UcastKeyRespFrame.size = true) ∧
      (if s.entry.portSecured then s.entry.ptkSeed else s.entry.anonce) = a.entry.anonce ∧
      env'.malloc = true ∧ env'.send = true ∧ a.timedKey c env = s.entry.ptk) := by
  have hkey : (a.completed c (s.timedFrame env)).entry.ptk = a.timedKey c env := by
    rw [completed_ptk]
    rfl
  rw [accepts_timedResp, hkey]
  constructor
  · rintro ⟨⟨hvalid, hidx, hwie, hchal, -, hmalloc, hsend⟩, hptk⟩
    exact ⟨hvalid, hidx, hwie, hchal, hmalloc, hsend, hptk⟩
  · rintro ⟨hvalid, hidx, hwie, hchal, hmalloc, hsend, hptk⟩
    refine ⟨⟨hvalid, hidx, hwie, hchal, ?_, hmalloc, hsend⟩, hptk⟩
    -- the derived key is the one the response was sealed with
    have hmak : (a.deriveFrom c (s.timedFrame env)).entry.mak = s.entry.mak := by
      unfold Entry.mak
      rw [← hptk]
      rfl
    rw [hmak]

end Timed

section Seeds

variable {c : Crypto} {env : Env} {elem : Elem} {s : Side} {r : Side × List Effect}

def Side.Derived (c : Crypto) (s : Side) : Prop :=
  s.entry.waiKeyState ≠ .ucastKeyIdle → s.entry.ptkSeed = seedOf c s.entry.ptk

theorem sendUcastKeyResp_derived {flag retry : U8} (h : s.entry.ptkSeed = seedOf c s.entry.ptk) :
    (sendUcastKeyResp c env s flag retry).1.Derived c := by
  unfold sendUcastKeyResp
  split
  · exact fun _ => h
  · exact fun _ => h

theorem acceptUcastKeyReq_derived {pMsg : UcastKeyReqFrame} :
    (acceptUcastKeyReq c env s pMsg).1.Derived c := by
  unfold acceptUcastKeyReq
  simp only
  split
  · exact fun _ => rfl
  · exact sendUcastKeyResp_derived rfl

theorem peerUcastKeyReq_derived (h : s.Derived c) :
    (waiPeerUcastKeyReqAction c env elem s).1.Derived c := by
  unfold waiPeerUcastKeyReqAction
  simp only
  split
  · exact h
  split
  · exact h
  split
  · exact acceptUcastKeyReq_derived
  split
  · exact h
  split
  · exact h
  · exact acceptUcastKeyReq_derived

theorem mlmeUcastKeyResp_derived (hstate : s.entry.waiKeyState ≠ .ucastKeyIdle)
    (h : s.Derived c) : (waiMlmeUcastKeyRespAction c env s).1.Derived c := by
  unfold waiMlmeUcastKeyRespAction
  split
  · exact h
  split
  · exact h
  · exact sendUcastKeyResp_derived (h hstate)

theorem peerUcastKeyCfm_keeps : SameKeys s (waiPeerUcastKeyCfmAction c env elem s).1 := by
  unfold waiPeerUcastKeyCfmAction
  simp only
  repeat' split
  all_goals exact ⟨rfl, rfl, rfl, rfl⟩

theorem peerMcastKeyNotify_keeps (h : waiPeerMcastKeyNotifyAction c env elem s = some r) :
    SameKeys s r.1 := by
  unfold waiPeerMcastKeyNotifyAction at h
  simp only at h
  repeat' split at h
  · cases h
  all_goals
    cases h
    exact ⟨rfl, rfl, rfl, rfl⟩

theorem SameKeys.derived {s' : Side} (hkeys : SameKeys s s')
    (hstate : s.entry.waiKeyState ≠ .ucastKeyIdle) (h : s.Derived c) : s'.Derived c := by
  intro _
  rw [hkeys.ptkSeed, hkeys.ptk]
  exact h hstate

theorem trigger_keeps (s : Side) (t : Trigger) :
    (s.trigger t).1 = { s with
      entry := { s.entry with retryCnt := (s.trigger t).1.entry.retryCnt }
      timers := (s.trigger t).1.timers } := by
  cases t with
  | keyHsTimer =>
    simp only [Side.trigger, waiKeyHSTimerProc]
    split <;> rfl
  | keyHsStart => rfl
  | triggerTimer =>
    simp only [Side.trigger]
    split
    · rfl
    split
    · rfl
    split <;> rfl
  | updateUsk =>
    simp only [Side.trigger]
    split <;> rfl
  | updateMsk =>
    simp only [Side.trigger]
    split <;> rfl

theorem mlmeUcastKeyResp_mem {state : WaiKeyState}
    (h : .mlmeUcastKeyResp ∈ keyActions state) : state ≠ .ucastKeyIdle := by
  rintro rfl
  revert h
  decide

theorem asueTrigger_derived {t : Trigger} (hrole : (s.trigger t).2.ofAsue = true)
    (h : s.Derived c) (hr : runTrigger c env s t = some r) : r.1.Derived c := by
  unfold runTrigger at hr
  have hmsg := @trigger_send s t
  have hkeep := trigger_keeps s t
  generalize s.trigger t = fired at hr hrole hmsg hkeep
  obtain ⟨s', action⟩ := fired
  have hderived : s'.Derived c := by
    change s' = _ at hkeep
    rw [hkeep]
    exact h
  cases action with
  | disconnect =>
    cases hr
    exact hderived
  | nothing =>
    cases hr
    exact hderived
  | send msg =>
    rcases mlmeHandler_cases hr with rfl | ⟨-, hmem, hact⟩
    · exact hderived
    · rcases hmsg rfl with rfl | rfl | rfl
      · simp [TimerAction.ofAsue] at hrole
      · cases hact
        exact mlmeUcastKeyResp_derived (mlmeUcastKeyResp_mem hmem) hderived
      · simp [TimerAction.ofAsue] at hrole

theorem asueReceive_derived {hdr : Bytes 12} {stale : List U8} {f : Frame} (hf : f.ofAe)
    (h : s.Derived c) (hr : receive c env hdr stale f s = some r) : r.1.Derived c := by
  obtain ⟨subType, body⟩ := f
  rcases hf with rfl | rfl | rfl
  all_goals
    rcases mlmeHandler_cases hr with rfl | ⟨-, hmem, hact⟩
    · exact h
  · cases hact
    exact peerUcastKeyReq_derived h
  · cases hact
    refine peerUcastKeyCfm_keeps.derived ?_ h
    intro hidle
    rw [hidle] at hmem
    revert hmem
    decide
  · refine (peerMcastKeyNotify_keeps hact).derived ?_ h
    intro hidle
    rw [hidle] at hmem
    revert hmem
    decide

end Seeds

section Reachable

variable {c : Crypto} {l l' : Link} {e : Event}

structure Wired (c : Crypto) (l : Link) : Prop where
  aeTypes : ∀ f ∈ l.fromAe, f.ofAe
  asueTypes : ∀ f ∈ l.fromAsue, f.ofAsue
  derived : l.asue.Derived c

theorem StationFrames.ofAsue {env : Env} {fs : List Frame} (h : StationFrames env fs) :
    ∀ f ∈ fs, f.ofAsue := by
  intro f hf
  rcases h with rfl | ⟨g, rfl, hg⟩
  · cases hf
  · rw [List.mem_singleton.mp hf]
    rcases hg with hresp | hmcast
    · exact Or.inl hresp.1
    · exact Or.inr hmcast

theorem Wired.step (h : Wired c l) (hstep : l.step c e = some l') : Wired c l' := by
  cases e with
  | aeTrigger t env =>
    simp only [Link.step] at hstep
    split at hstep
    · rename_i hrole
      obtain ⟨r, hr, rfl⟩ := Option.map_eq_some_iff.mp hstep
      obtain ⟨-, hframes⟩ := aeTrigger_effects (Bool.and_eq_true_iff.mp hrole).2 hr
      refine ⟨?_, h.asueTypes, h.derived⟩
      intro f hf
      rcases List.mem_append.mp hf with hold | hnew
      · exact h.aeTypes f hold
      · rcases hframes f hnew with hreq | hnotify
        · exact Or.inl hreq
        · exact Or.inr (Or.inr hnotify)
    · cases hstep
  | asueTrigger t env =>
    simp only [Link.step] at hstep
    split at hstep
    · rename_i hrole
      obtain ⟨r, hr, rfl⟩ := Option.map_eq_some_iff.mp hstep
      have hasue := (Bool.and_eq_true_iff.mp hrole).2
      refine ⟨h.aeTypes, ?_, asueTrigger_derived hasue h.derived hr⟩
      intro f hf
      rcases List.mem_append.mp hf with hold | hnew
      · exact h.asueTypes f hold
      · exact (asueTrigger_frames hasue hr).ofAsue f hnew
    · cases hstep
  | aeReceive n hdr stale env =>
    simp only [Link.step] at hstep
    obtain ⟨f, hf, hstep⟩ := Option.bind_eq_some_iff.mp hstep
    obtain ⟨r, hr, rfl⟩ := Option.map_eq_some_iff.mp hstep
    refine ⟨?_, h.asueTypes, h.derived⟩
    intro g hg
    rcases List.mem_append.mp hg with hold | hnew
    · exact h.aeTypes g hold
    · rcases aeReceive_effects (h.asueTypes f (List.mem_of_getElem? hf)) hr with
        ⟨hsent, -⟩ | ⟨-, -, -, -, ⟨body, hsent⟩, -⟩
      · rw [hsent] at hnew
        cases hnew
      · rw [hsent, List.mem_singleton] at hnew
        rw [hnew]
        exact Or.inr (Or.inl rfl)
  | asueReceive n hdr stale env =>
    simp only [Link.step] at hstep
    obtain ⟨f, hf, hstep⟩ := Option.bind_eq_some_iff.mp hstep
    obtain ⟨r, hr, rfl⟩ := Option.map_eq_some_iff.mp hstep
    have hae := h.aeTypes f (List.mem_of_getElem? hf)
    refine ⟨h.aeTypes, ?_, asueReceive_derived hae h.derived hr⟩
    intro g hg
    rcases List.mem_append.mp hg with hold | hnew
    · exact h.asueTypes g hold
    · exact (asueReceive_frames hae hr).ofAsue g hnew
  | aeReinsert =>
    cases hstep
    exact ⟨h.aeTypes, h.asueTypes, h.derived⟩
  | asueReinsert =>
    cases hstep
    exact ⟨h.aeTypes, h.asueTypes, fun hstate => absurd rfl hstate⟩

theorem Wired.run {ae asue : Side} {es : List Event}
    (hidle : asue.entry.waiKeyState = .ucastKeyIdle)
    (hrun : Run (Toolkit.Graph (Link.step c)) (.start ae asue) es l) : Wired c l :=
  hrun.invariant (Wired c) (fun _ _ _ h hstep => h.step hstep)
    ⟨by simp [Link.start], by simp [Link.start], fun hstate => absurd hidle hstate⟩

end Reachable

section Works

variable (c : Crypto) (l : Link)

def Link.agrees : Prop :=
  l.ae.entry.ptk = l.asue.entry.ptk ∧ l.ae.entry.ptkSeed = l.asue.entry.ptkSeed ∧
    l.ae.entry.uskid = l.asue.entry.uskid

/-- The AE handles the `n`-th frame of the station next and confirms it, and when the confirm has
been delivered both ends hold the same keys. -/
def Link.respWorks (n : Nat) (hdr : Bytes 12) (stale : List U8) (env : Env) (hdr' : Bytes 12)
    (stale' : List U8) (env' : Env) : Prop :=
  ∃ l₁ l₂ body, l.step c (.aeReceive n hdr stale env) = some l₁ ∧
    l₁.fromAe = l.fromAe ++ [⟨.uniKeyConfirm, body⟩] ∧
    l₁.step c (.asueReceive l.fromAe.length hdr' stale' env') = some l₂ ∧ l₂.agrees

/-- The AE is in a state that takes responses and can answer; the challenge that the station puts
into the frame is the AE's, its index is a new one in an update and the common one otherwise, when
the WIE is right too; and the AE derives the station's old PTK from the new nonce. -/
def Link.respWorksWhen (env : Env) (hdr : Bytes 12) (stale : List U8) (env' : Env) : Prop :=
  .peerUcastKeyResp ∈ keyActions l.ae.entry.waiKeyState ∧
  l.ae.entry.valid = true ∧ env'.malloc = true ∧ env'.send = true ∧
  (if l.asue.entry.portSecured then
    l.asue.entry.ptkSeed = l.ae.entry.anonce ∧
      rotated l.asue.entry.uskid ≠ l.ae.entry.uskid
  else
    l.asue.entry.anonce = l.ae.entry.anonce ∧ l.asue.entry.uskid = l.ae.entry.uskid ∧
      wieMatches env' (.received hdr (l.asue.timedResp c env) stale) UcastKeyRespFrame.size =
        true) ∧
  pairwiseKey c l.ae.entry.bk l.ae.entry.addid l.ae.entry.anonce env.random = l.asue.entry.ptk

variable {c l} {l₁ : Link} {env env' env'' : Env} {t : Trigger} {resp : List U8}
  {hdr hdr' : Bytes 12} {stale stale' : List U8}

theorem asueTrigger_sent (hstep : l.step c (.asueTrigger t env) = some l₁)
    (hsent : l₁.fromAsue = l.fromAsue ++ [⟨.uniKeyResp, resp⟩]) :
    l.asue.entry.waiKeyState ≠ .ucastKeyIdle ∧ resp = l.asue.timedResp c env ∧
      l₁.ae = l.ae ∧ l₁.fromAe = l.fromAe ∧ l₁.asue.entry.ptk = l.asue.entry.ptk ∧
      l₁.asue.entry.ptkSeed = l.asue.entry.ptkSeed ∧
      l₁.asue.entry.uskid = (l.asue.timedFrame env).uskid := by
  simp only [Link.step] at hstep
  split at hstep
  case isFalse => cases hstep
  rename_i hrole
  obtain ⟨r, hr, rfl⟩ := Option.map_eq_some_iff.mp hstep
  have hframes : sent r = [⟨.uniKeyResp, resp⟩] := List.append_cancel_left hsent
  have hasue := (Bool.and_eq_true_iff.mp hrole).2
  unfold runTrigger at hr
  have hmsg := @trigger_send l.asue t
  have hkeep := trigger_keeps l.asue t
  generalize l.asue.trigger t = fired at hr hasue hmsg hkeep
  obtain ⟨s', action⟩ := fired
  change s' = _ at hkeep
  cases action with
  | disconnect =>
    cases hr
    cases hframes
  | nothing =>
    cases hr
    cases hframes
  | send msg =>
    rcases mlmeHandler_cases hr with rfl | ⟨-, hmem, hact⟩
    · simp [sent] at hframes
    · rcases hmsg rfl with rfl | rfl | rfl
      · simp [TimerAction.ofAsue] at hasue
      · rcases @mlmeUcastKeyResp_cases c env s' with hnone | ⟨key, hkey, hsome⟩
        · cases hact
          rw [sent, hnone] at hframes
          cases hframes
        · have hr' : r = (s'.afterTimedResp env,
              [.l2Send .uniKeyResp (s'.timedResp c env), key]) := by
            cases hact
            exact hsome
          have hresp : resp = s'.timedResp c env := by
            rw [hr'] at hframes
            cases key with
            | l2Send t b => exact absurd rfl (hkey t b)
            | _ => simpa [sent, Effect.frame] using hframes.symm
          have hstate := mlmeUcastKeyResp_mem hmem
          have hasue₁ : (l.asueActs r).asue = s'.afterTimedResp env := congrArg Prod.fst hr'
          rw [hkeep] at hstate
          refine ⟨hstate, ?_, rfl, rfl, ?_, ?_, ?_⟩
          · rw [hresp, hkeep]
            rfl
          all_goals
            rw [hasue₁, hkeep]
            rfl
      · simp [TimerAction.ofAsue] at hasue

theorem receive_confirm {s : Side} {body : List U8} :
    ∃ r, receive c env hdr stale ⟨.uniKeyConfirm, body⟩ s = some r ∧ SameKeys s r.1 := by
  unfold receive mlmeHandler
  simp only [SubType.keyMsg]
  split
  · exact ⟨_, rfl, .refl s⟩
  split
  · exact ⟨_, rfl, peerUcastKeyCfm_keeps⟩
  · exact ⟨_, rfl, .refl s⟩

theorem agrees_after_confirm {r r' : Side × List Effect} (hae : l₁.ae = l.ae)
    (hptk : l₁.asue.entry.ptk = l.asue.entry.ptk)
    (hseed : l₁.asue.entry.ptkSeed = seedOf c l.asue.entry.ptk)
    (huskid : l₁.asue.entry.uskid = (l.asue.timedFrame env).uskid)
    (hside : r.1 = l₁.ae.completed c (l.asue.timedFrame env)) (hkeys : SameKeys l₁.asue r'.1) :
    ((l₁.aeActs resp r).asueActs r').agrees ↔
      (l.ae.completed c (l.asue.timedFrame env)).entry.ptk = l.asue.entry.ptk ∧
        (l.asue.entry.portSecured = false → l.asue.entry.uskid = l.ae.entry.uskid) := by
  have hidx : r.1.entry.uskid = r'.1.entry.uskid ↔
      (l.asue.entry.portSecured = false → l.asue.entry.uskid = l.ae.entry.uskid) := by
    rw [hside, completed_uskid, timedFrame_flag, hkeys.uskid, huskid, timedFrame_uskid, hae]
    cases l.asue.entry.portSecured with
    | true => simp
    | false => simp [eq_comm]
  have hkey : r.1.entry.ptk = r'.1.entry.ptk ↔
      (l.ae.completed c (l.asue.timedFrame env)).entry.ptk = l.asue.entry.ptk := by
    rw [hside, hkeys.ptk, hptk, hae]
  have hnext : r.1.entry.ptk = r'.1.entry.ptk → r.1.entry.ptkSeed = r'.1.entry.ptkSeed := by
    intro h
    have hown : r.1.entry.ptkSeed = seedOf c r.1.entry.ptk := by
      rw [hside]
      exact completed_ptkSeed _
    rw [hown, h, hkeys.ptkSeed, hseed, hkeys.ptk, hptk]
  unfold Link.agrees
  change r.1.entry.ptk = r'.1.entry.ptk ∧ r.1.entry.ptkSeed = r'.1.entry.ptkSeed ∧
    r.1.entry.uskid = r'.1.entry.uskid ↔ _
  rw [hidx, ← hkey]
  exact ⟨fun h => ⟨h.1, h.2.2⟩, fun h => ⟨h.1, hnext h.1, h.2⟩⟩

/-- The two halves of the condition: the AE accepts the response, and the keys agree. -/
theorem respWorksWhen_iff :
    l.respWorksWhen c env hdr stale env' ↔
      .peerUcastKeyResp ∈ keyActions l.ae.entry.waiKeyState ∧
      (AcceptsUcastKeyResp c env' (.received hdr (l.asue.timedResp c env) stale) l.ae ∧
        (l.ae.completed c (l.asue.timedFrame env)).entry.ptk = l.asue.entry.ptk) ∧
      (l.asue.entry.portSecured = false → l.asue.entry.uskid = l.ae.entry.uskid) := by
  unfold Link.respWorksWhen
  rw [timedResp_agrees, Side.timedKey]
  cases l.asue.entry.portSecured with
  | true =>
    simp only [if_true, true_implies, Bool.true_eq_false, false_implies, true_and, and_true]
    tauto
  | false =>
    simp only [Bool.false_eq_true, if_false, false_implies, true_implies, true_and]
    tauto

end Works

/-- A response that a timeout or an update of the station's own produces, as the next frame that
the AE handles. In any run of the two ends, with any frames lost, it works exactly when the AE can
take it and derives from its new nonce the very PTK that the station held before. -/
theorem timed_response_works_iff (c : Crypto) (ae asue : Side) (es : List Event) (l l₁ : Link)
    (t : Trigger) (env : Env) (resp : List U8)
    (hidle : asue.entry.waiKeyState = .ucastKeyIdle)
    (hrun : Run (Toolkit.Graph (Link.step c)) (.start ae asue) es l)
    (hstep : l.step c (.asueTrigger t env) = some l₁)
    (hsent : l₁.fromAsue = l.fromAsue ++ [⟨.uniKeyResp, resp⟩])
    (hdr : Bytes 12) (stale : List U8) (env' : Env) (hdr' : Bytes 12) (stale' : List U8)
    (env'' : Env) :
    l₁.respWorks c l.fromAsue.length hdr stale env' hdr' stale' env'' ↔
      l.respWorksWhen c env hdr stale env' := by
  obtain ⟨hstate, hresp, hae, hfromAe, hptk, hseed, huskid⟩ := asueTrigger_sent hstep hsent
  have hwired : Wired c l := .run hidle hrun
  have hseed' : l₁.asue.entry.ptkSeed = seedOf c l.asue.entry.ptk :=
    hseed.trans (hwired.derived hstate)
  have hframe : l₁.fromAsue[l.fromAsue.length]? = some ⟨.uniKeyResp, resp⟩ := by
    rw [hsent, List.getElem?_append_right (Nat.le_refl _), Nat.sub_self]
    rfl
  rw [respWorksWhen_iff]
  constructor
  · rintro ⟨l₂, l₃, body, hfirst, hconfirm, hsecond, hagrees⟩
    simp only [Link.step, hframe, Option.bind_some] at hfirst
    obtain ⟨r, hr, rfl⟩ := Option.map_eq_some_iff.mp hfirst
    have hnew : sent r = [⟨.uniKeyConfirm, body⟩] := List.append_cancel_left hconfirm
    rcases aeReceive_effects (Or.inl rfl) hr with ⟨hnone, -⟩ | ⟨-, hmem, hacc, hside, -, -⟩
    · rw [hnone] at hnew
      cases hnew
    have hread : UcastKeyRespFrame.read (Elem.received hdr resp stale).body =
        l.asue.timedFrame env := by
      rw [hresp]
      exact read_timedResp
    rw [hread] at hside
    rw [hresp, hae] at hacc
    rw [hae] at hmem
    have hplace : (l₁.aeActs resp r).fromAe[l₁.fromAe.length]? = some ⟨.uniKeyConfirm, body⟩ := by
      rw [hconfirm, List.getElem?_append_right (Nat.le_refl _), Nat.sub_self]
      rfl
    simp only [Link.step, hplace, Option.bind_some] at hsecond
    obtain ⟨r', hr', hkeys⟩ :=
      @receive_confirm c env'' hdr' stale' (l₁.aeActs resp r).asue body
    rw [hr'] at hsecond
    cases hsecond
    have hboth := (agrees_after_confirm hae hptk hseed' huskid hside hkeys).mp hagrees
    exact ⟨hmem, ⟨hacc, hboth.1⟩, hboth.2⟩
  · rintro ⟨hmem, ⟨hacc, hkey⟩, hidx⟩
    rw [← hae] at hmem
    have hacc₁ : AcceptsUcastKeyResp c env' (.received hdr resp stale) l₁.ae := by
      rw [hresp, hae]
      exact hacc
    have hr : receive c env' hdr stale ⟨.uniKeyResp, resp⟩ l₁.ae =
        some (waiPeerUcastKeyRespAction c env' (.received hdr resp stale) l₁.ae) := by
      have hvalid : l₁.ae.entry.valid = true := hacc₁.2.1
      simp only [receive, SubType.keyMsg, mlmeHandler]
      rw [if_neg (by rw [hvalid]; simp), if_pos hmem]
      rfl
    rw [waiPeerUcastKeyRespAction_accepts hacc₁] at hr
    have hread : UcastKeyRespFrame.read (Elem.received hdr resp stale).body =
        l.asue.timedFrame env := by
      rw [hresp]
      exact read_timedResp
    rw [hread] at hr
    generalize hcfm : (l₁.ae.deriveFrom c (l.asue.timedFrame env)).ucastKeyCfm c
      (l.asue.timedFrame env) = cfm at hr
    generalize heff : [Effect.l2Send .uniKeyConfirm cfm, _] = effects at hr
    have hnew : sent (l₁.ae.completed c (l.asue.timedFrame env), effects) =
        [⟨.uniKeyConfirm, cfm⟩] := by
      rw [← heff]
      rfl
    obtain ⟨r', hr', hkeys⟩ := @receive_confirm c env'' hdr' stale' l₁.asue cfm
    have hplace : (l₁.fromAe ++ sent (l₁.ae.completed c (l.asue.timedFrame env), effects))[
        l₁.fromAe.length]? = some ⟨.uniKeyConfirm, cfm⟩ := by
      rw [hnew, List.getElem?_append_right (Nat.le_refl _), Nat.sub_self]
      rfl
    have hagrees : ((l₁.aeActs resp (l₁.ae.completed c (l.asue.timedFrame env), effects)).asueActs
        r').agrees := (agrees_after_confirm hae hptk hseed' huskid rfl hkeys).mpr ⟨hkey, hidx⟩
    refine ⟨l₁.aeActs resp (l₁.ae.completed c (l.asue.timedFrame env), effects), _, cfm, ?_, ?_,
      ?_, hagrees⟩
    · simp only [Link.step, hframe, Option.bind_some, hr]
      rfl
    · rw [Link.aeActs, hnew]
    · simp only [Link.step, Link.aeActs, hplace, Option.bind_some, hr']
      rfl

def exampleLost : List Event :=
  [.aeTrigger .triggerTimer (exampleEnv 1), .asueReceive 0 (.zero 12) [] (exampleEnv 2)]

theorem exampleLost_retransmits :
    ∃ l l₁ resp, Run (Toolkit.Graph (Link.step plainCrypto)) (.start exampleAe exampleAsue)
        exampleLost l ∧
      l.step plainCrypto (.asueTrigger .keyHsTimer (exampleEnv 3)) = some l₁ ∧
      l₁.fromAsue = l.fromAsue ++ [⟨.uniKeyResp, resp⟩] ∧
      l.ae.entry.anonce = l.asue.entry.anonce ∧ l.asue.mbss.wie = [1, 2] ∧
      pairwiseKey plainCrypto l.ae.entry.bk l.ae.entry.addid l.ae.entry.anonce
        (exampleEnv 3).random ≠ l.asue.entry.ptk := by
  obtain ⟨l, hl, hnext⟩ := (Option.any_eq_true _ _).mp (by decide +kernel :
    (exec (Link.step plainCrypto) (.start exampleAe exampleAsue) exampleLost).any (fun l =>
      (l.step plainCrypto (.asueTrigger .keyHsTimer (exampleEnv 3))).any fun l₁ => decide (
        l₁.fromAsue = l.fromAsue ++ [⟨.uniKeyResp, l.asue.timedResp plainCrypto (exampleEnv 3)⟩] ∧
        l.ae.entry.anonce = l.asue.entry.anonce ∧ l.asue.mbss.wie = [1, 2] ∧
        pairwiseKey plainCrypto l.ae.entry.bk l.ae.entry.addid l.ae.entry.anonce
          (exampleEnv 3).random ≠ l.asue.entry.ptk)) = true)
  obtain ⟨l₁, hl₁, hfacts⟩ := (Option.any_eq_true _ _).mp hnext
  obtain ⟨hsent, hanonce, hwie, hkey⟩ := of_decide_eq_true hfacts
  exact ⟨l, l₁, _, exec_run hl, hl₁, hsent, hanonce, hwie, hkey⟩

theorem timed_response_works_iff_lost :
    ∃ l l₁ : Link, (l₁.respWorks plainCrypto l.fromAsue.length (.zero 12) [] (exampleEnv 4) (.zero 12) []
      (exampleEnv 5) ↔ l.respWorksWhen plainCrypto (exampleEnv 3) (.zero 12) [] (exampleEnv 4)) ∧
      l.fromAsue ≠ l₁.fromAsue := by
  obtain ⟨l, l₁, resp, hrun, hstep, hsent, -⟩ := exampleLost_retransmits
  refine ⟨l, l₁, timed_response_works_iff plainCrypto exampleAe exampleAsue exampleLost l l₁
    .keyHsTimer (exampleEnv 3) resp rfl hrun hstep hsent _ _ _ _ _ _, ?_⟩
  rw [hsent]
  simp

theorem retransmission_refused :
    ¬∀ (c : Crypto) (ae asue : Side) (es : List Event) (l l₁ : Link) (t : Trigger) (env : Env)
      (resp : List U8), ae.entry.bk = asue.entry.bk →
      ae.entry.waiKeyState = .ucastKeyIdle → asue.entry.waiKeyState = .ucastKeyIdle →
      Run (Toolkit.Graph (Link.step c)) (.start ae asue) es l →
      l.step c (.asueTrigger t env) = some l₁ →
      l₁.fromAsue = l.fromAsue ++ [⟨.uniKeyResp, resp⟩] →
      l.ae.entry.anonce = l.asue.entry.anonce →
      ∀ (hdr : Bytes 12) (stale : List U8) (env' : Env) (hdr' : Bytes 12) (stale' : List U8)
        (env'' : Env), env'.malloc = true → env'.send = true →
        env'.wie = some l.asue.mbss.wie →
        l₁.respWorks c l.fromAsue.length hdr stale env' hdr' stale' env'' := by
  intro h
  obtain ⟨l, l₁, resp, hrun, hstep, hsent, hanonce, hwie, hkey⟩ := exampleLost_retransmits
  have hworks := h plainCrypto exampleAe exampleAsue exampleLost l l₁ .keyHsTimer (exampleEnv 3)
    resp rfl rfl rfl hrun hstep hsent hanonce (.zero 12) [] (exampleEnv 4) (.zero 12) []
    (exampleEnv 5) rfl rfl (by rw [hwie]; rfl)
  have hwhen := (timed_response_works_iff plainCrypto exampleAe exampleAsue exampleLost l l₁
    .keyHsTimer (exampleEnv 3) resp rfl hrun hstep hsent _ _ _ _ _ _).mp hworks
  exact hkey hwhen.2.2.2.2.2

end OpenwrtMtk.Wapi
