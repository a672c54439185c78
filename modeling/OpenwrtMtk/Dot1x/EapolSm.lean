import OpenwrtMtk.Lib.Bytes

/-!
# The EAPOL state machines of a station

`eapol_sm.c`: the authenticator, the backend, the reauthentication timer and the key machine share
one record. What they transmit or ask of the rest of the daemon never writes to that record, so a
step returns the new record and the requests, in the order in which they are made.
-/

namespace OpenwrtMtk.Dot1x

open Toolkit

set_option autoImplicit false

inductive PortTypes where
  | forceUnauthorized | forceAuthorized | auto
  deriving DecidableEq

inductive PortState where
  | unauthorized | authorized
  deriving DecidableEq

inductive AuthPaeState where
  | init | disconnected | connecting | authenticating | authenticated | aborting | held
  | forceAuth | forceUnauth
  deriving DecidableEq

inductive BeAuthState where
  | request | response | success | fail | timeout | idle | init
  deriving DecidableEq

inductive ReauthTimerState where
  | init | reauthenticate
  deriving DecidableEq

inductive AuthKeyTxState where
  | noKeyTransmit | keyTransmit
  deriving DecidableEq

structure AuthPaeSm where
  eapLogoff : Bool
  eapStart : Bool
  portMode : PortTypes
  reAuthCount : Nat
  rxInitialRsp : Bool
  quietPeriod : Nat
  reAuthMax : Nat
  txPeriod : Nat
  state : AuthPaeState
  deriving DecidableEq

structure BackendAuthSm where
  reqCount : Nat
  rxResp : Bool
  aSuccess : Bool
  aFail : Bool
  aReq : Bool
  idFromServer : U8
  suppTimeout : Nat
  serverTimeout : Nat
  maxReq : Nat
  state : BeAuthState
  deriving DecidableEq

structure ReauthTimerSm where
  reAuthPeriod : Nat
  reAuthEnabled : Bool
  state : ReauthTimerState
  deriving DecidableEq

/-- `struct eapol_state_machine`, less the counters that are never read. -/
structure EapolStateMachine where
  aWhile : Int
  quietWhile : Int
  reAuthWhen : Int
  txWhen : Int
  authAbort : Bool
  authFail : Bool
  authStart : Bool
  authTimeout : Bool
  authSuccess : Bool
  currentId : U8
  initializing : Bool
  keyAvailable : Bool
  keyTxEnabled : Bool
  portControl : PortTypes
  portEnabled : Bool
  portStatus : PortState
  portValid : Bool
  reAuthenticate : Bool
  authPae : AuthPaeSm
  beAuth : BackendAuthSm
  reauthTimer : ReauthTimerSm
  authKeyTx : AuthKeyTxState
  deriving DecidableEq

/-- What a state asks for on entry. -/
inductive Action where
  | txCannedFail (id : U8)
  | txCannedSuccess (id : U8)
  | txInitialMsg (id : U8)
  | txReq (id : U8)
  | sendRespToServer
  | txKey (id : U8)
  /-- with `sm->authSuccess` at that moment -/
  | setPortAuthorized (authSuccess : Bool)
  | setPortUnauthorized
  deriving DecidableEq

abbrev Entered := EapolStateMachine × List Action

/-- An `unsigned int` stored in an `int`. -/
def toInt32 (n : Nat) : Int := Int.bmod n (2 ^ 32)

/-- `if (timer > 0) timer--`. -/
def tickDown (timer : Int) : Int := if 0 < timer then timer - 1 else timer

variable (sm : EapolStateMachine)

section AuthPae

def authPaeInitialize : Entered :=
  ({ sm with
    currentId := 1
    authPae := { sm.authPae with state := .init, portMode := .auto } }, [])

/-- No failure is sent to a station that comes from `INITIALIZE`. -/
def authPaeDisconnected : Entered :=
  let fromInitialize := sm.authPae.state = .init
  ({ sm with
    portStatus := .unauthorized
    currentId := if fromInitialize then sm.currentId else sm.currentId + 1
    authPae := { sm.authPae with state := .disconnected, eapLogoff := false, reAuthCount := 0 } },
    .setPortUnauthorized :: if fromInitialize then [] else [.txCannedFail sm.currentId])

def authPaeConnecting : Entered :=
  ({ sm with
    reAuthenticate := false
    txWhen := toInt32 sm.authPae.txPeriod
    authPae := { sm.authPae with
      state := .connecting, eapStart := false, rxInitialRsp := false
      reAuthCount := sm.authPae.reAuthCount + 1 } },
    [.txInitialMsg sm.currentId])

def authPaeHeld : Entered :=
  ({ sm with
    portStatus := .unauthorized
    quietWhile := toInt32 sm.authPae.quietPeriod
    currentId := sm.currentId + 1
    authPae := { sm.authPae with state := .held, eapLogoff := false } },
    [.setPortUnauthorized])

def authPaeAuthenticated : Entered :=
  ({ sm with
    portStatus := .authorized
    currentId := sm.currentId + 1
    authPae := { sm.authPae with state := .authenticated, reAuthCount := 0 } },
    [.setPortAuthorized sm.authSuccess])

def authPaeAuthenticating : Entered :=
  ({ sm with
    authSuccess := false, authFail := false, authTimeout := false, authStart := true
    authPae := { sm.authPae with state := .authenticating } }, [])

def authPaeAborting : Entered :=
  ({ sm with
    authAbort := true
    currentId := sm.currentId + 1
    authPae := { sm.authPae with state := .aborting } }, [])

def authPaeForceAuth : Entered :=
  ({ sm with
    portStatus := .authorized
    currentId := sm.currentId + 1
    authPae := { sm.authPae with
      state := .forceAuth, portMode := .forceAuthorized, eapStart := false } },
    [.setPortAuthorized sm.authSuccess, .txCannedSuccess sm.currentId])

def authPaeForceUnauth : Entered :=
  ({ sm with
    portStatus := .unauthorized
    currentId := sm.currentId + 1
    authPae := { sm.authPae with
      state := .forceUnauth, portMode := .forceUnauthorized, eapStart := false } },
    [.setPortUnauthorized, .txCannedFail sm.currentId])

/-- The `switch` of `SM_STEP(AUTH_PAE)`. -/
def authPaeSwitch : Entered :=
  match sm.authPae.state with
  | .init => authPaeDisconnected sm
  | .disconnected => authPaeConnecting sm
  | .held => if sm.quietWhile = 0 then authPaeConnecting sm else (sm, [])
  | .connecting =>
    if sm.authPae.eapLogoff ∨ sm.authPae.reAuthMax < sm.authPae.reAuthCount then
      authPaeDisconnected sm
    else if sm.authPae.rxInitialRsp ∧ sm.authPae.reAuthCount ≤ sm.authPae.reAuthMax then
      authPaeAuthenticating sm
    else if (sm.txWhen = 0 ∨ sm.authPae.eapStart ∨ sm.reAuthenticate) ∧
        sm.authPae.reAuthCount ≤ sm.authPae.reAuthMax then
      authPaeConnecting sm
    else (sm, [])
  | .authenticated =>
    if sm.authPae.eapStart ∨ sm.reAuthenticate then authPaeConnecting sm
    else if sm.authPae.eapLogoff ∨ ¬sm.portValid then authPaeDisconnected sm
    else (sm, [])
  | .authenticating =>
    if sm.authSuccess ∧ sm.portValid then authPaeAuthenticated sm
    else if sm.authFail then authPaeHeld sm
    else if sm.reAuthenticate ∨ sm.authPae.eapStart ∨ sm.authPae.eapLogoff ∨ sm.authTimeout then
      authPaeAborting sm
    else (sm, [])
  | .aborting =>
    if sm.authPae.eapLogoff ∧ ¬sm.authAbort then authPaeDisconnected sm
    else if ¬sm.authPae.eapLogoff ∧ ¬sm.authAbort then authPaeConnecting sm
    else (sm, [])
  | .forceAuth => if sm.authPae.eapStart then authPaeForceAuth sm else (sm, [])
  | .forceUnauth => if sm.authPae.eapStart then authPaeForceUnauth sm else (sm, [])

def authPaeStep : Entered :=
  if (sm.portControl = .auto ∧ sm.authPae.portMode ≠ sm.portControl) ∨ sm.initializing ∨
      ¬sm.portEnabled then
    authPaeInitialize sm
  else if sm.portControl = .forceAuthorized ∧ sm.authPae.portMode ≠ sm.portControl ∧
      ¬(sm.initializing ∨ ¬sm.portEnabled) then
    authPaeForceAuth sm
  else if sm.portControl = .forceUnauthorized ∧ sm.authPae.portMode ≠ sm.portControl ∧
      ¬(sm.initializing ∨ ¬sm.portEnabled) then
    authPaeForceUnauth sm
  else authPaeSwitch sm

end AuthPae

section BeAuth

def beAuthInitialize : Entered :=
  ({ sm with authAbort := false, beAuth := { sm.beAuth with state := .init } }, [])

def beAuthRequest : Entered :=
  ({ sm with
    currentId := sm.beAuth.idFromServer
    aWhile := toInt32 sm.beAuth.suppTimeout
    beAuth := { sm.beAuth with state := .request, reqCount := sm.beAuth.reqCount + 1 } },
    [.txReq sm.beAuth.idFromServer])

def beAuthResponse : Entered :=
  ({ sm with
    authTimeout := false
    aWhile := toInt32 sm.beAuth.serverTimeout
    beAuth := { sm.beAuth with
      state := .response, aReq := false, aSuccess := false, rxResp := false, aFail := false
      reqCount := 0 } },
    [.sendRespToServer])

def beAuthSuccess : Entered :=
  ({ sm with
    currentId := sm.beAuth.idFromServer
    authSuccess := true
    beAuth := { sm.beAuth with state := .success } },
    [.txReq sm.beAuth.idFromServer])

def beAuthFail : Entered :=
  ({ sm with
    currentId := sm.beAuth.idFromServer
    authFail := true
    beAuth := { sm.beAuth with state := .fail } },
    [.txReq sm.beAuth.idFromServer])

def beAuthTimeout : Entered :=
  ({ sm with authTimeout := true, beAuth := { sm.beAuth with state := .timeout } },
    if sm.portStatus = .unauthorized then [.txCannedFail sm.currentId] else [])

def beAuthIdle : Entered :=
  ({ sm with
    authStart := false
    beAuth := { sm.beAuth with state := .idle, reqCount := 0 } }, [])

def beAuthSwitch : Entered :=
  match sm.beAuth.state with
  | .init => beAuthIdle sm
  | .request =>
    if sm.aWhile = 0 ∧ sm.beAuth.reqCount ≠ sm.beAuth.maxReq then beAuthRequest sm
    else if sm.beAuth.rxResp then beAuthResponse sm
    else if sm.aWhile = 0 ∧ sm.beAuth.maxReq ≤ sm.beAuth.reqCount then beAuthTimeout sm
    else (sm, [])
  | .response =>
    if sm.beAuth.aReq then beAuthRequest sm
    else if sm.aWhile = 0 then beAuthTimeout sm
    else if sm.beAuth.aFail then beAuthFail sm
    else if sm.beAuth.aSuccess then beAuthSuccess sm
    else (sm, [])
  | .success => beAuthIdle sm
  | .fail => beAuthIdle sm
  | .timeout => beAuthIdle sm
  | .idle => if sm.authStart then beAuthResponse sm else (sm, [])

def beAuthStep : Entered :=
  if sm.portControl ≠ .auto ∨ sm.initializing ∨ sm.authAbort then beAuthInitialize sm
  else beAuthSwitch sm

end BeAuth

section Timers

def reauthTimerInitialize : Entered :=
  ({ sm with
    reAuthWhen := toInt32 sm.reauthTimer.reAuthPeriod
    reauthTimer := { sm.reauthTimer with state := .init } }, [])

def reauthTimerReauthenticate : Entered :=
  ({ sm with
    reAuthenticate := true
    reauthTimer := { sm.reauthTimer with state := .reauthenticate } }, [])

def reauthTimerStep : Entered :=
  if sm.portControl ≠ .auto ∨ sm.initializing ∨ sm.portStatus = .unauthorized ∨
      ¬sm.reauthTimer.reAuthEnabled then
    reauthTimerInitialize sm
  else
    match sm.reauthTimer.state with
    | .init => if sm.reAuthWhen = 0 then reauthTimerReauthenticate sm else (sm, [])
    | .reauthenticate => reauthTimerInitialize sm

def authKeyTxNoKeyTransmit : Entered := ({ sm with authKeyTx := .noKeyTransmit }, [])

def authKeyTxKeyTransmit : Entered :=
  ({ sm with authKeyTx := .keyTransmit, keyAvailable := false }, [.txKey sm.currentId])

def authKeyTxStep : Entered :=
  if sm.initializing ∨ sm.portControl ≠ .auto then authKeyTxNoKeyTransmit sm
  else
    match sm.authKeyTx with
    | .noKeyTransmit =>
      if sm.keyTxEnabled ∧ sm.keyAvailable ∧ sm.authSuccess then authKeyTxKeyTransmit sm
      else (sm, [])
    | .keyTransmit =>
      if ¬sm.keyTxEnabled ∨ sm.authFail ∨ sm.authPae.eapLogoff then authKeyTxNoKeyTransmit sm
      else if sm.keyAvailable then authKeyTxKeyTransmit sm
      else (sm, [])

end Timers

def eapolSmPass : Entered :=
  let (sm, pae) := authPaeStep sm
  let (sm, be) := beAuthStep sm
  let (sm, timer) := reauthTimerStep sm
  let (sm, key) := authKeyTxStep sm
  (sm, pae ++ be ++ timer ++ key)

/-- The states that the loop of `eapol_sm_step` compares. -/
def EapolStateMachine.states : AuthPaeState × BeAuthState × ReauthTimerState × AuthKeyTxState :=
  (sm.authPae.state, sm.beAuth.state, sm.reauthTimer.state, sm.authKeyTx)

/-- `eapol_sm_step`; `none` where that many rounds do not end it. -/
def eapolSmStep : Nat → EapolStateMachine → Option Entered
  | 0, _ => none
  | n + 1, sm =>
    let (next, actions) := eapolSmPass sm
    if next.states = sm.states then some (next, actions)
    else (eapolSmStep n next).map fun (last, more) => (last, actions ++ more)

/-- `eapol_sm_initialize`, less the timer it starts. -/
def eapolSmInitialize (rounds : Nat) : Option Entered :=
  (eapolSmStep rounds { sm with initializing := true }).bind fun (sm, actions) =>
    (eapolSmStep rounds { sm with initializing := false }).map fun (sm, more) =>
      (sm, actions ++ more)

/-- What `eapol_sm_alloc` sets up from the configuration before the machines first run. -/
def eapolSmDefaults (quietInterval : Nat) (sessionTimeout : Option Nat) : EapolStateMachine :=
  { aWhile := 0, quietWhile := 0, reAuthWhen := 0, txWhen := 0
    authAbort := false, authFail := false, authStart := false, authTimeout := false
    authSuccess := false, currentId := 1, initializing := false
    keyAvailable := false, keyTxEnabled := true
    portControl := .auto, portEnabled := false, portStatus := .unauthorized, portValid := true
    reAuthenticate := false
    authPae := ⟨false, false, .forceUnauthorized, 0, false, quietInterval, 2, 30, .init⟩
    beAuth := ⟨0, false, false, false, false, 0, 30, 30, 2, .init⟩
    reauthTimer := ⟨sessionTimeout.getD 3600, true, .init⟩
    authKeyTx := .noKeyTransmit }

/-- `eapol_port_timers_tick`, up to the step it takes. -/
def eapolPortTimersTick : EapolStateMachine :=
  { sm with
    aWhile := tickDown sm.aWhile
    quietWhile := tickDown sm.quietWhile
    reAuthWhen := tickDown sm.reAuthWhen
    txWhen := tickDown sm.txWhen }

end OpenwrtMtk.Dot1x
