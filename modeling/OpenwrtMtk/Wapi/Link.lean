import OpenwrtMtk.Lib.Run
import OpenwrtMtk.Wapi.Received

/-!
# An AE and a station on one link

Both ends run the code. Each has its triggers, handles frames that the other has ever sent, in any
order and any number of times, and may be let go by its driver and inserted anew. A frame keeps its
addresses, so neither end handles its own frames. The AE is the end whose triggers never make it
respond, the station the one whose triggers never make it request or notify.

The history keeps every frame and, for each key the AE gave to its driver, the response that was
accepted for it.
-/

namespace OpenwrtMtk.Wapi

open Toolkit

set_option autoImplicit false

structure Frame where
  subType : SubType
  body : List U8
  deriving DecidableEq

/-- A call of `wapi_set_ucast_key_proc`. -/
structure Install where
  uskid : U8
  ptk : Ptk
  resp : List U8
  deriving DecidableEq

def Install.pair (i : Install) : U8 × Ptk := (i.uskid, i.ptk)

structure Link where
  ae : Side
  asue : Side
  fromAe : List Frame
  fromAsue : List Frame
  installed : List Install
  deriving DecidableEq

def Link.start (ae asue : Side) : Link := ⟨ae, asue, [], [], []⟩

/-- A frame is named by its place in the history of its sender. -/
inductive Event where
  | aeTrigger (t : Trigger) (env : Env)
  | asueTrigger (t : Trigger) (env : Env)
  | aeReceive (n : Nat) (hdr : Bytes 12) (stale : List U8) (env : Env)
  | asueReceive (n : Nat) (hdr : Bytes 12) (stale : List U8) (env : Env)
  | aeReinsert
  | asueReinsert
  deriving DecidableEq

def Effect.frame : Effect → Option Frame
  | .l2Send t body => some ⟨t, body⟩
  | _ => none

def Effect.isUcastKey : Effect → Bool
  | .setUcastKey _ _ => true
  | _ => false

abbrev sent (r : Side × List Effect) : List Frame := r.2.filterMap Effect.frame

abbrev installs (r : Side × List Effect) : Bool := r.2.any Effect.isUcastKey

/-- The AE has acted; `resp` is the frame it handled. -/
def Link.aeActs (l : Link) (resp : List U8) (r : Side × List Effect) : Link :=
  { l with
    ae := r.1
    fromAe := l.fromAe ++ sent r
    installed := l.installed ++
      if installs r then [⟨r.1.entry.uskid, r.1.entry.ptk, resp⟩] else [] }

def Link.asueActs (l : Link) (r : Side × List Effect) : Link :=
  { l with
    asue := r.1
    fromAsue := l.fromAsue ++ sent r }

def Side.ready (s : Side) (t : Trigger) : Bool := t != .keyHsTimer || s.timers != 0

def TimerAction.ofAe : TimerAction → Bool
  | .send .mlmeUcastKeyResp => false
  | _ => true

def TimerAction.ofAsue : TimerAction → Bool
  | .send .mlmeUcastKeyReq => false
  | .send .mlmeMcastKeyNotify => false
  | _ => true

variable (c : Crypto)

/-- `MlmeEnqueueForRecv` with a frame of the peer. -/
def receive (env : Env) (hdr : Bytes 12) (stale : List U8) (f : Frame) (s : Side) :
    Option (Side × List Effect) :=
  match f.subType.keyMsg with
  | none => some (s, [])
  | some msg => mlmeHandler c env (.received hdr f.body stale) s msg

def Link.step (l : Link) : Event → Option Link
  | .aeTrigger t env =>
    if l.ae.ready t && (l.ae.trigger t).2.ofAe then (runTrigger c env l.ae t).map (l.aeActs [])
    else none
  | .asueTrigger t env =>
    if l.asue.ready t && (l.asue.trigger t).2.ofAsue then
      (runTrigger c env l.asue t).map l.asueActs
    else none
  | .aeReceive n hdr stale env =>
    l.fromAsue[n]?.bind fun f => (receive c env hdr stale f l.ae).map (l.aeActs f.body)
  | .asueReceive n hdr stale env =>
    l.fromAe[n]?.bind fun f => (receive c env hdr stale f l.asue).map l.asueActs
  | .aeReinsert => some { l with ae := l.ae.reinsert }
  | .asueReinsert => some { l with asue := l.asue.reinsert }

/-- The nonce that a call of the station can draw. -/
def Event.asueNonce : Event → Option Nonce
  | .asueTrigger _ env => some env.random
  | .asueReceive _ _ _ env => some env.random
  | _ => none

section Steps

variable {c} {env : Env} {s : Side} {elem : Elem} {r : Side × List Effect}

theorem mlmeHandler_cases {msg : WaiKeyMsg} (h : mlmeHandler c env elem s msg = some r) :
    r = (s, []) ∨
      s.entry.valid = true ∧ msg ∈ keyActions s.entry.waiKeyState ∧
        keyAction c env elem s msg = some r := by
  unfold mlmeHandler at h
  split at h
  · left
    cases h
    rfl
  · rename_i hvalid
    split at h
    · exact Or.inr ⟨by simpa using hvalid, ‹_›, h⟩
    · left
      cases h
      rfl

theorem trigger_send {t : Trigger} {msg : WaiKeyMsg} (h : (s.trigger t).2 = .send msg) :
    msg = .mlmeUcastKeyReq ∨ msg = .mlmeUcastKeyResp ∨ msg = .mlmeMcastKeyNotify := by
  cases t with
  | keyHsTimer =>
    simp only [Side.trigger, waiKeyHSTimerProc] at h
    split at h
    · cases h
    · simp only [timerAction] at h
      repeat' split at h
      all_goals cases h
      all_goals simp
  | keyHsStart => cases h
  | triggerTimer =>
    simp only [Side.trigger] at h
    repeat' split at h
    all_goals cases h
    simp
  | updateUsk =>
    simp only [Side.trigger] at h
    split at h
    · cases h
    · split at h <;> cases h <;> simp
  | updateMsk =>
    simp only [Side.trigger] at h
    split at h
    · cases h
    · split at h <;> cases h
      simp

theorem aeTrigger_effects {t : Trigger} (hrole : (s.trigger t).2.ofAe = true)
    (h : runTrigger c env s t = some r) :
    installs r = false ∧
      ∀ f ∈ sent r, f.subType = .uniKeyReq ∨ f.subType = .multiKeyNotify := by
  unfold runTrigger at h
  have hmsg := @trigger_send s t
  generalize s.trigger t = fired at h hrole hmsg
  obtain ⟨s', action⟩ := fired
  cases action with
  | disconnect =>
    cases h
    exact ⟨rfl, by simp [sent, Effect.frame]⟩
  | nothing =>
    cases h
    exact ⟨rfl, by simp [sent]⟩
  | send msg =>
    rcases mlmeHandler_cases h with rfl | ⟨-, -, hact⟩
    · exact ⟨rfl, by simp [sent]⟩
    · rcases hmsg rfl with rfl | rfl | rfl
      · cases hact
        rcases @mlmeUcastKeyReq_effects c env s' with heff | ⟨body, heff⟩
        · simp [sent, installs, heff]
        · simp [sent, installs, heff, Effect.frame, Effect.isUcastKey]
      · simp [TimerAction.ofAe] at hrole
      · cases hact
        rcases @mlmeMcastKeyNotify_effects c env s' with heff | ⟨body, heff⟩
        · simp [sent, installs, heff]
        · simp [sent, installs, heff, Effect.frame, Effect.isUcastKey]

def Frame.asueChallenge (f : Frame) : Nonce := (UcastKeyRespFrame.read f.body).asueChallenge

def StationFrames (env : Env) (fs : List Frame) : Prop :=
  fs = [] ∨ ∃ f, fs = [f] ∧
    (f.subType = .uniKeyResp ∧ f.asueChallenge = env.random ∨ f.subType = .multiKeyResp)

theorem RespondsWith.stationFrames {effects : List Effect} (h : RespondsWith env effects) :
    StationFrames env (effects.filterMap Effect.frame) := by
  rcases h with rfl | ⟨body, key, rfl, hkey, hnonce⟩
  · exact Or.inl rfl
  · refine Or.inr ⟨⟨.uniKeyResp, body⟩, ?_, Or.inl ⟨rfl, hnonce⟩⟩
    cases key with
    | l2Send t b => exact absurd rfl (hkey t b)
    | _ => rfl

theorem asueTrigger_frames {t : Trigger} (hrole : (s.trigger t).2.ofAsue = true)
    (h : runTrigger c env s t = some r) : StationFrames env (sent r) := by
  unfold runTrigger at h
  have hmsg := @trigger_send s t
  generalize s.trigger t = fired at h hrole hmsg
  obtain ⟨s', action⟩ := fired
  cases action with
  | disconnect =>
    cases h
    exact Or.inl rfl
  | nothing =>
    cases h
    exact Or.inl rfl
  | send msg =>
    rcases mlmeHandler_cases h with rfl | ⟨-, -, hact⟩
    · exact Or.inl rfl
    · rcases hmsg rfl with rfl | rfl | rfl
      · simp [TimerAction.ofAsue] at hrole
      · cases hact
        exact mlmeUcastKeyResp_responds.stationFrames
      · simp [TimerAction.ofAsue] at hrole

def Frame.ofAe (f : Frame) : Prop :=
  f.subType = .uniKeyReq ∨ f.subType = .uniKeyConfirm ∨ f.subType = .multiKeyNotify

def Frame.ofAsue (f : Frame) : Prop := f.subType = .uniKeyResp ∨ f.subType = .multiKeyResp

theorem asueReceive_frames {hdr : Bytes 12} {stale : List U8} {f : Frame} (hf : f.ofAe)
    (h : receive c env hdr stale f s = some r) : StationFrames env (sent r) := by
  obtain ⟨subType, body⟩ := f
  rcases hf with rfl | rfl | rfl
  all_goals
    rcases mlmeHandler_cases h with rfl | ⟨-, -, hact⟩
    · exact Or.inl rfl
  · cases hact
    exact peerUcastKeyReq_responds.stationFrames
  · cases hact
    left
    rw [sent, peerUcastKeyCfm_effects]
    rfl
  · obtain ⟨s', effects⟩ := r
    rcases peerMcastKeyNotify_effects hact with rfl | ⟨resp, info, rfl⟩
    · exact Or.inl rfl
    · exact Or.inr ⟨⟨.multiKeyResp, resp⟩, rfl, Or.inr rfl⟩

/-- An AE that is handed a frame of the station does nothing that others see, or it accepts a
response: it confirms and installs the key. -/
theorem aeReceive_effects {hdr : Bytes 12} {stale : List U8} {f : Frame} (hf : f.ofAsue)
    (h : receive c env hdr stale f s = some r) :
    (sent r = [] ∧ installs r = false) ∨
    (f.subType = .uniKeyResp ∧ .peerUcastKeyResp ∈ keyActions s.entry.waiKeyState ∧
      AcceptsUcastKeyResp c env (.received hdr f.body stale) s ∧
      r.1 = s.completed c (UcastKeyRespFrame.read (Elem.received hdr f.body stale).body) ∧
      (∃ body, sent r = [⟨.uniKeyConfirm, body⟩]) ∧ installs r = true) := by
  obtain ⟨subType, body⟩ := f
  rcases hf with rfl | rfl
  all_goals
    rcases mlmeHandler_cases h with rfl | ⟨-, hmem, hact⟩
    · exact Or.inl ⟨rfl, rfl⟩
  · by_cases hacc : AcceptsUcastKeyResp c env (.received hdr body stale) s
    · cases hact
      refine Or.inr ⟨rfl, hmem, hacc, ?_⟩
      rw [waiPeerUcastKeyRespAction_accepts hacc]
      exact ⟨rfl, ⟨_, rfl⟩, rfl⟩
    · cases hact
      left
      rw [sent, installs, waiPeerUcastKeyRespAction_refuses hacc]
      exact ⟨rfl, rfl⟩
  · cases hact
    left
    rcases @peerMcastKeyResp_effects c (.received hdr body stale) s with heff | heff
    all_goals
      rw [sent, installs, heff]
      exact ⟨rfl, rfl⟩

end Steps

end OpenwrtMtk.Wapi
