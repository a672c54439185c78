import OpenwrtMtk.Dot1x.EapolSm
import OpenwrtMtk.Lib.Run

/-!
# The machines of a station, move by move

`eapol_sm_step` runs the four machines in turn until none changes its state. Here it keeps every
single move, and each machine's moves are listed with what they need and what they write.
-/

namespace OpenwrtMtk.Dot1x

open Toolkit

set_option autoImplicit false

-- comparing two machines field by field must not compute the timers
attribute [local irreducible] toInt32

/-- One `SM_STEP`. -/
structure Move where
  before : EapolStateMachine
  after : EapolStateMachine
  actions : List Action

def moveOf (step : EapolStateMachine → Entered) (sm : EapolStateMachine) : Move :=
  ⟨sm, (step sm).1, (step sm).2⟩

def passMoves (sm : EapolStateMachine) : List Move :=
  let pae := moveOf authPaeStep sm
  let be := moveOf beAuthStep pae.after
  let timer := moveOf reauthTimerStep be.after
  let key := moveOf authKeyTxStep timer.after
  [pae, be, timer, key]

/-- `eapol_sm_step` with its moves. -/
def eapolSmRounds : Nat → EapolStateMachine → Logged EapolStateMachine Move
  | 0, _ => none
  | n + 1, sm =>
    let next := (eapolSmPass sm).1
    if next.states = sm.states then some (next, passMoves sm)
    else (eapolSmRounds n next).map fun (last, moves) => (last, passMoves sm ++ moves)

section Rounds

variable {sm : EapolStateMachine} {n : Nat}

theorem eapolSmPass_fst (sm : EapolStateMachine) :
    (eapolSmPass sm).1 =
      (authKeyTxStep (reauthTimerStep (beAuthStep (authPaeStep sm).1).1).1).1 := rfl

theorem eapolSmPass_snd (sm : EapolStateMachine) :
    (eapolSmPass sm).2 = (passMoves sm).flatMap Move.actions := by
  simp [eapolSmPass, passMoves, moveOf]

theorem eapolSmStep_rounds (n : Nat) (sm : EapolStateMachine) :
    eapolSmStep n sm =
      (eapolSmRounds n sm).map fun (last, moves) => (last, moves.flatMap Move.actions) := by
  induction n generalizing sm with
  | zero => rfl
  | succ n ih =>
    have hactions := eapolSmPass_snd sm
    rw [eapolSmStep, eapolSmRounds]
    dsimp only
    by_cases hsame : (eapolSmPass sm).1.states = sm.states
    · rw [if_pos hsame, if_pos hsame, Option.map_some, ← hactions]
    · rw [if_neg hsame, if_neg hsame, ih, Option.map_map, Option.map_map, hactions]
      apply congrArg (fun f => Option.map f (eapolSmRounds n (eapolSmPass sm).1))
      funext r
      simp

/-- A relation to the log that every round keeps holds when the loop ends, and the last round has
changed no state. -/
theorem eapolSmRounds_induct (Inv : List Move → EapolStateMachine → Prop)
    (hpass : ∀ log sm, Inv log sm → Inv (log ++ passMoves sm) (eapolSmPass sm).1)
    {log moves : List Move} {last : EapolStateMachine} (hinv : Inv log sm)
    (h : eapolSmRounds n sm = some (last, moves)) :
    Inv (log ++ moves) last ∧
      ∃ before sm', Inv before sm' ∧ (eapolSmPass sm').1 = last ∧ last.states = sm'.states := by
  induction n generalizing sm log moves with
  | zero => cases h
  | succ n ih =>
    rw [eapolSmRounds] at h
    dsimp only at h
    split at h
    · rename_i hsame
      cases h
      exact ⟨hpass log sm hinv, log, sm, hinv, rfl, hsame⟩
    · obtain ⟨⟨last', moves'⟩, hrest, heq⟩ := Option.map_eq_some_iff.mp h
      cases heq
      have hnext := ih (hpass log sm hinv) hrest
      rwa [List.append_assoc] at hnext

/-- A potential that falls while a state changes bounds the rounds. -/
theorem eapolSmRounds_total (Inv : EapolStateMachine → Prop) {potential : EapolStateMachine → Nat}
    (hpass : ∀ sm, Inv sm → Inv (eapolSmPass sm).1)
    (hfalls : ∀ sm, Inv sm → (eapolSmPass sm).1.states ≠ sm.states →
      potential (eapolSmPass sm).1 < potential sm)
    (hinv : Inv sm) (hn : potential sm < n) : ∃ r, eapolSmRounds n sm = some r := by
  induction n generalizing sm with
  | zero => omega
  | succ n ih =>
    rw [eapolSmRounds]
    dsimp only
    by_cases hsame : (eapolSmPass sm).1.states = sm.states
    · rw [if_pos hsame]
      exact ⟨_, rfl⟩
    · have hlt := hfalls sm hinv hsame
      obtain ⟨r, hr⟩ := ih (hpass sm hinv) (by omega)
      rw [if_neg hsame, hr]
      exact ⟨_, rfl⟩

end Rounds

/-- What the machines never write after `eapol_sm_alloc` and the enabling of the port. -/
structure Wired (sm : EapolStateMachine) : Prop where
  portControl : sm.portControl = .auto
  portMode : sm.authPae.portMode = .auto
  portEnabled : sm.portEnabled = true
  portValid : sm.portValid = true
  initializing : sm.initializing = false
  reAuthMax : sm.authPae.reAuthMax = 2
  txPeriod : sm.authPae.txPeriod = 30

section Inversion

variable {sm : EapolStateMachine}

/-- The moves of `AUTH_PAE` on a wired machine, with what each of them needs. -/
inductive PaeStep (sm : EapolStateMachine) : Entered → Prop where
  | start : sm.authPae.state = .init → PaeStep sm (authPaeDisconnected sm)
  | connect : sm.authPae.state = .disconnected → PaeStep sm (authPaeConnecting sm)
  | release : sm.authPae.state = .held → PaeStep sm (authPaeConnecting sm)
  | hold : sm.authPae.state = .held → PaeStep sm (sm, [])
  | giveUp : sm.authPae.state = .connecting →
      sm.authPae.eapLogoff = true ∨ 2 < sm.authPae.reAuthCount → PaeStep sm (authPaeDisconnected sm)
  | engage : sm.authPae.state = .connecting → sm.authPae.rxInitialRsp = true →
      PaeStep sm (authPaeAuthenticating sm)
  | again : sm.authPae.state = .connecting → sm.authPae.reAuthCount ≤ 2 →
      sm.txWhen = 0 ∨ sm.authPae.eapStart = true ∨ sm.reAuthenticate = true →
      sm.authPae.rxInitialRsp = false → PaeStep sm (authPaeConnecting sm)
  | expect : sm.authPae.state = .connecting → sm.reAuthenticate = false → PaeStep sm (sm, [])
  | reconnect : sm.authPae.state = .authenticated → PaeStep sm (authPaeConnecting sm)
  | depart : sm.authPae.state = .authenticated → PaeStep sm (authPaeDisconnected sm)
  | remain : sm.authPae.state = .authenticated → sm.reAuthenticate = false → PaeStep sm (sm, [])
  | succeed : sm.authPae.state = .authenticating → sm.authSuccess = true →
      PaeStep sm (authPaeAuthenticated sm)
  | fail : sm.authPae.state = .authenticating → sm.authSuccess = false → sm.authFail = true →
      PaeStep sm (authPaeHeld sm)
  | abort : sm.authPae.state = .authenticating → sm.authSuccess = false → sm.authFail = false →
      PaeStep sm (authPaeAborting sm)
  | wait : sm.authPae.state = .authenticating → sm.authSuccess = false → sm.authFail = false →
      sm.authTimeout = false → sm.reAuthenticate = false → PaeStep sm (sm, [])
  | dropOut : sm.authPae.state = .aborting → sm.authAbort = false →
      PaeStep sm (authPaeDisconnected sm)
  | retry : sm.authPae.state = .aborting → sm.authAbort = false → PaeStep sm (authPaeConnecting sm)
  | aborting : sm.authPae.state = .aborting → sm.authAbort = true → PaeStep sm (sm, [])
  | forced (r : Entered) : sm.authPae.state = .forceAuth ∨ sm.authPae.state = .forceUnauth →
      PaeStep sm r

theorem authPaeStep_wired (h : Wired sm) : authPaeStep sm = authPaeSwitch sm := by
  simp [authPaeStep, h.portControl, h.portMode, h.portEnabled, h.initializing]

theorem authPaeStep_cases (h : Wired sm) : PaeStep sm (authPaeStep sm) := by
  rw [authPaeStep_wired h]
  unfold authPaeSwitch
  have hmax := h.reAuthMax
  have hvalid := h.portValid
  cases hs : sm.authPae.state with
  | init => exact .start hs
  | disconnected => exact .connect hs
  | held =>
    dsimp only
    split
    · exact .release hs
    · exact .hold hs
  | connecting =>
    dsimp only
    rw [hmax]
    split
    · exact .giveUp hs ‹_›
    · rename_i hstay
      split
      · rename_i hrsp
        exact .engage hs hrsp.1
      · rename_i hno
        split
        · rename_i hagain
          exact .again hs hagain.2 hagain.1 (by grind)
        · exact .expect hs (by grind)
  | authenticated =>
    dsimp only
    split
    · exact .reconnect hs
    · split
      · exact .depart hs
      · exact .remain hs (by grind)
  | authenticating =>
    dsimp only
    split
    · rename_i hsuccess
      exact .succeed hs hsuccess.1
    · split
      · exact .fail hs (by grind) ‹_›
      · split
        · exact .abort hs (by grind) (by grind)
        · exact .wait hs (by grind) (by grind) (by grind) (by grind)
  | aborting =>
    dsimp only
    split
    · exact .dropOut hs (by grind)
    · split
      · exact .retry hs (by grind)
      · exact .aborting hs (by grind)
  | forceAuth => exact .forced _ (.inl hs)
  | forceUnauth => exact .forced _ (.inr hs)

/-- The moves of `BE_AUTH` on a wired machine. -/
inductive BeStep (sm : EapolStateMachine) : Entered → Prop where
  | abort : sm.authAbort = true → BeStep sm (beAuthInitialize sm)
  | finish : sm.authAbort = false →
      sm.beAuth.state ∈ [BeAuthState.init, .success, .fail, .timeout] → BeStep sm (beAuthIdle sm)
  | ask : sm.authAbort = false → sm.beAuth.state = .request → sm.aWhile = 0 →
      BeStep sm (beAuthRequest sm)
  | forward : sm.authAbort = false → sm.beAuth.state = .request → sm.beAuth.rxResp = true →
      BeStep sm (beAuthResponse sm)
  | noAnswer : sm.authAbort = false → sm.beAuth.state = .request → sm.beAuth.rxResp = false →
      BeStep sm (beAuthTimeout sm)
  | expect : sm.authAbort = false → sm.beAuth.state = .request → sm.beAuth.rxResp = false →
      BeStep sm (sm, [])
  | challenge : sm.authAbort = false → sm.beAuth.state = .response → sm.beAuth.aReq = true →
      BeStep sm (beAuthRequest sm)
  | noServer : sm.authAbort = false → sm.beAuth.state = .response → sm.beAuth.aReq = false →
      BeStep sm (beAuthTimeout sm)
  | fail : sm.authAbort = false → sm.beAuth.state = .response → sm.beAuth.aFail = true →
      sm.beAuth.aReq = false → BeStep sm (beAuthFail sm)
  | succeed : sm.authAbort = false → sm.beAuth.state = .response → sm.beAuth.aSuccess = true →
      sm.beAuth.aReq = false → BeStep sm (beAuthSuccess sm)
  | wait : sm.authAbort = false → sm.beAuth.state = .response → sm.beAuth.aReq = false →
      BeStep sm (sm, [])
  | engage : sm.authAbort = false → sm.beAuth.state = .idle → sm.authStart = true →
      BeStep sm (beAuthResponse sm)
  | rest : sm.authAbort = false → sm.beAuth.state = .idle → sm.authStart = false →
      BeStep sm (sm, [])

theorem beAuthStep_wired (h : Wired sm) :
    beAuthStep sm = if sm.authAbort then beAuthInitialize sm else beAuthSwitch sm := by
  simp [beAuthStep, h.portControl, h.initializing]

theorem beAuthStep_cases (h : Wired sm) : BeStep sm (beAuthStep sm) := by
  rw [beAuthStep_wired h]
  split
  · exact .abort ‹_›
  · rename_i habort
    rw [Bool.not_eq_true] at habort
    unfold beAuthSwitch
    cases hs : sm.beAuth.state with
    | init => exact .finish habort (by simp [hs])
    | success => exact .finish habort (by simp [hs])
    | fail => exact .finish habort (by simp [hs])
    | timeout => exact .finish habort (by simp [hs])
    | request =>
      dsimp only
      split
      · rename_i hask
        exact .ask habort hs hask.1
      · split
        · exact .forward habort hs ‹_›
        · split
          · exact .noAnswer habort hs (by grind)
          · exact .expect habort hs (by grind)
    | response =>
      dsimp only
      split
      · exact .challenge habort hs ‹_›
      · split
        · exact .noServer habort hs (by grind)
        · split
          · exact .fail habort hs ‹_› (by grind)
          · split
            · exact .succeed habort hs ‹_› (by grind)
            · exact .wait habort hs (by grind)
    | idle =>
      dsimp only
      split
      · exact .engage habort hs ‹_›
      · exact .rest habort hs (by grind)

inductive TimerStep (sm : EapolStateMachine) : Entered → Prop where
  | init : sm.portStatus = .unauthorized ∨ sm.reauthTimer.reAuthEnabled = false ∨
      sm.reauthTimer.state = .reauthenticate → TimerStep sm (reauthTimerInitialize sm)
  | fire : sm.portStatus = .authorized → sm.reauthTimer.state = .init →
      TimerStep sm (reauthTimerReauthenticate sm)
  | wait : sm.reauthTimer.state = .init → TimerStep sm (sm, [])

theorem reauthTimerStep_cases (h : Wired sm) : TimerStep sm (reauthTimerStep sm) := by
  unfold reauthTimerStep
  split
  · rename_i hreset
    have hcontrol := h.portControl
    have hinit := h.initializing
    exact .init (by grind)
  · rename_i hrun
    cases hs : sm.reauthTimer.state with
    | init =>
      dsimp only
      split
      · refine .fire ?_ hs
        cases hport : sm.portStatus with
        | authorized => rfl
        | unauthorized => exact absurd (.inr (.inr (.inl hport))) hrun
      · exact .wait hs
    | reauthenticate => exact .init (.inr (.inr hs))

inductive KeyStep (sm : EapolStateMachine) : Entered → Prop where
  | transmit : sm.keyAvailable = true → KeyStep sm (authKeyTxKeyTransmit sm)
  | stop : sm.authKeyTx = .keyTransmit → KeyStep sm (authKeyTxNoKeyTransmit sm)
  | stay : KeyStep sm (sm, [])

theorem authKeyTxStep_cases (h : Wired sm) : KeyStep sm (authKeyTxStep sm) := by
  have hrun : ¬(sm.initializing = true ∨ sm.portControl ≠ .auto) := by
    simp [h.initializing, h.portControl]
  unfold authKeyTxStep
  rw [if_neg hrun]
  cases hs : sm.authKeyTx with
  | noKeyTransmit =>
    dsimp only
    split
    · rename_i hsend
      exact .transmit hsend.2.1
    · exact .stay
  | keyTransmit =>
    dsimp only
    split
    · exact .stop hs
    · split
      · exact .transmit ‹_›
      · exact .stay

end Inversion

structure View where
  pae : AuthPaeState
  be : BeAuthState
  authStart : Bool
  authAbort : Bool
  authSuccess : Bool
  authFail : Bool
  authTimeout : Bool
  aSuccess : Bool

def EapolStateMachine.view (sm : EapolStateMachine) : View :=
  ⟨sm.authPae.state, sm.beAuth.state, sm.authStart, sm.authAbort, sm.authSuccess, sm.authFail,
    sm.authTimeout, sm.beAuth.aSuccess⟩

section Frames

variable {sm : EapolStateMachine}

/-- What the other machines leave to the authenticator. -/
structure SparesPae (sm sm' : EapolStateMachine) : Prop where
  authPae : sm'.authPae = sm.authPae
  portControl : sm'.portControl = sm.portControl
  portEnabled : sm'.portEnabled = sm.portEnabled
  portValid : sm'.portValid = sm.portValid
  initializing : sm'.initializing = sm.initializing
  portStatus : sm'.portStatus = sm.portStatus
  txWhen : sm'.txWhen = sm.txWhen

theorem SparesPae.wired {sm' : EapolStateMachine} (h : SparesPae sm sm') (hw : Wired sm) :
    Wired sm' where
  portControl := h.portControl.trans hw.portControl
  portMode := by rw [h.authPae, hw.portMode]
  portEnabled := h.portEnabled.trans hw.portEnabled
  portValid := h.portValid.trans hw.portValid
  initializing := h.initializing.trans hw.initializing
  reAuthMax := by rw [h.authPae, hw.reAuthMax]
  txPeriod := by rw [h.authPae, hw.txPeriod]

theorem beAuthStep_writes (hw : Wired sm) :
    ∃ aWhile currentId abort fail start timeout success be, (beAuthStep sm).1 =
      { sm with
        aWhile := aWhile, currentId := currentId, authAbort := abort, authFail := fail
        authStart := start, authTimeout := timeout, authSuccess := success, beAuth := be } := by
  have hcases := beAuthStep_cases hw
  generalize beAuthStep sm = r at hcases ⊢
  cases hcases <;> exact ⟨_, _, _, _, _, _, _, _, rfl⟩

theorem beAuthStep_spares (hw : Wired sm) :
    SparesPae sm (beAuthStep sm).1 ∧ (beAuthStep sm).1.reAuthenticate = sm.reAuthenticate ∧
      (beAuthStep sm).1.reauthTimer = sm.reauthTimer ∧
      (beAuthStep sm).1.keyAvailable = sm.keyAvailable ∧
      (beAuthStep sm).1.authKeyTx = sm.authKeyTx := by
  obtain ⟨_, _, _, _, _, _, _, _, heq⟩ := beAuthStep_writes hw
  rw [heq]
  exact ⟨⟨rfl, rfl, rfl, rfl, rfl, rfl, rfl⟩, rfl, rfl, rfl, rfl⟩

theorem reauthTimerStep_writes (hw : Wired sm) :
    ∃ reAuthWhen reAuthenticate timer, reauthTimerStep sm =
      ({ sm with
        reAuthWhen := reAuthWhen, reAuthenticate := reAuthenticate, reauthTimer := timer }, []) ∧
      (reAuthenticate = sm.reAuthenticate ∨ sm.portStatus = .authorized) := by
  have hcases := reauthTimerStep_cases hw
  generalize reauthTimerStep sm = r at hcases ⊢
  cases hcases with
  | init => exact ⟨_, _, _, rfl, .inl rfl⟩
  | fire hport => exact ⟨_, _, _, rfl, .inr hport⟩
  | wait => exact ⟨_, _, _, rfl, .inl rfl⟩

theorem reauthTimerStep_asks (hw : Wired sm) :
    (reauthTimerStep sm).1.reAuthenticate = sm.reAuthenticate ∨ sm.portStatus = .authorized := by
  obtain ⟨_, _, _, heq, hasks⟩ := reauthTimerStep_writes hw
  rw [heq]
  exact hasks

theorem reauthTimerStep_spares (hw : Wired sm) :
    SparesPae sm (reauthTimerStep sm).1 ∧ (reauthTimerStep sm).1.view = sm.view ∧
      (reauthTimerStep sm).1.beAuth = sm.beAuth ∧
      (reauthTimerStep sm).1.keyAvailable = sm.keyAvailable ∧
      (reauthTimerStep sm).1.authKeyTx = sm.authKeyTx ∧ (reauthTimerStep sm).2 = [] := by
  obtain ⟨_, _, _, heq, _⟩ := reauthTimerStep_writes hw
  rw [heq]
  exact ⟨⟨rfl, rfl, rfl, rfl, rfl, rfl, rfl⟩, rfl, rfl, rfl, rfl, rfl⟩

theorem reauthTimerStep_ids (hw : Wired sm) :
    (reauthTimerStep sm).1.currentId = sm.currentId ∧
      (reauthTimerStep sm).1.authAbort = sm.authAbort := by
  obtain ⟨_, _, _, heq, _⟩ := reauthTimerStep_writes hw
  rw [heq]
  exact ⟨rfl, rfl⟩

theorem authKeyTxStep_ids (hw : Wired sm) :
    (authKeyTxStep sm).1.currentId = sm.currentId ∧
      (authKeyTxStep sm).1.authAbort = sm.authAbort := by
  have hcases := authKeyTxStep_cases hw
  generalize authKeyTxStep sm = r at hcases ⊢
  cases hcases <;> exact ⟨rfl, rfl⟩

theorem authKeyTxStep_spares (hw : Wired sm) :
    SparesPae sm (authKeyTxStep sm).1 ∧ (authKeyTxStep sm).1.view = sm.view ∧
      (authKeyTxStep sm).1.beAuth = sm.beAuth ∧
      (authKeyTxStep sm).1.reauthTimer = sm.reauthTimer ∧
      (authKeyTxStep sm).1.reAuthenticate = sm.reAuthenticate ∧
      Action.sendRespToServer ∉ (authKeyTxStep sm).2 := by
  have hcases := authKeyTxStep_cases hw
  generalize authKeyTxStep sm = r at hcases ⊢
  cases hcases with
  | transmit => exact ⟨⟨rfl, rfl, rfl, rfl, rfl, rfl, rfl⟩, rfl, rfl, rfl, rfl, by
      simp [authKeyTxKeyTransmit]⟩
  | stop => exact ⟨⟨rfl, rfl, rfl, rfl, rfl, rfl, rfl⟩, rfl, rfl, rfl, rfl, by
      simp [authKeyTxNoKeyTransmit]⟩
  | stay => exact ⟨⟨rfl, rfl, rfl, rfl, rfl, rfl, rfl⟩, rfl, rfl, rfl, rfl, by simp⟩

end Frames

end OpenwrtMtk.Dot1x
