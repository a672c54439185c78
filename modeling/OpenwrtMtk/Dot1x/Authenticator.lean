import OpenwrtMtk.Dot1x.EapolMoves
import OpenwrtMtk.Lib.Run

/-!
# Safety of the EAPOL authenticator

The authenticator waits in `AUTHENTICATING` exactly while the backend is in `REQUEST` or `RESPONSE`,
and the port opens only on an accept that came after the last message to the server.
-/

namespace OpenwrtMtk.Dot1x

open Toolkit

set_option autoImplicit false

-- comparing two machines field by field must not compute the timers
attribute [local irreducible] toInt32

/-- What the station, the server and the clock do to the machines. A reply of the server may bring
the identifier of its EAP packet, timeouts and keys. -/
inductive SmEvent where
  | eapolStart
  | eapolLogoff
  | initialRsp
  | resp
  | accept (id : Option U8) (reAuthPeriod : Option Nat) (keys : Bool)
  | reject (id : Option U8)
  | challenge (id : Option U8) (suppTimeout : Option Nat)
  | tick

def SmEvent.apply (sm : EapolStateMachine) : SmEvent → EapolStateMachine
  | .eapolStart => { sm with authPae := { sm.authPae with eapStart := true } }
  | .eapolLogoff => { sm with authPae := { sm.authPae with eapLogoff := true } }
  | .initialRsp => { sm with authPae := { sm.authPae with rxInitialRsp := true } }
  | .resp => { sm with beAuth := { sm.beAuth with rxResp := true } }
  | .accept id reAuthPeriod keys =>
    { sm with
      keyAvailable := keys || sm.keyAvailable
      reauthTimer := { sm.reauthTimer with
        reAuthPeriod := reAuthPeriod.getD sm.reauthTimer.reAuthPeriod }
      beAuth := { sm.beAuth with
        aSuccess := true, idFromServer := id.getD sm.beAuth.idFromServer } }
  | .reject id =>
    { sm with beAuth := { sm.beAuth with
      aFail := true, idFromServer := id.getD sm.beAuth.idFromServer } }
  | .challenge id suppTimeout =>
    { sm with beAuth := { sm.beAuth with
      suppTimeout := suppTimeout.getD sm.beAuth.suppTimeout, aReq := true
      idFromServer := id.getD sm.beAuth.idFromServer } }
  | .tick => eapolPortTimersTick sm

inductive Moment where
  | event (e : SmEvent)
  | move (m : Move)

/-- An event and the `eapol_sm_step` that follows it. -/
def machineStep (rounds : Nat) (sm : EapolStateMachine) (e : SmEvent) :
    Logged EapolStateMachine Moment :=
  (eapolSmRounds rounds (e.apply sm)).map fun (last, moves) => (last, .event e :: moves.map .move)

namespace Moment

def Accepts : Moment → Prop
  | .event (.accept _ _ _) => True
  | _ => False

def Sends : Moment → Prop
  | .event _ => False
  | .move m => Action.sendRespToServer ∈ m.actions

/-- `AUTH_PAE` enters `AUTHENTICATING`. -/
def Enters : Moment → Prop
  | .event _ => False
  | .move m => m.before.authPae.state ≠ .authenticating ∧ m.after.authPae.state = .authenticating

/-- `portStatus` changes to `Authorized`. -/
def Authorizes : Moment → Prop
  | .event _ => False
  | .move m => m.before.portStatus = .unauthorized ∧ m.after.portStatus = .authorized

end Moment

/-- An accept came after the last message to the server and after `AUTHENTICATING` was entered. -/
def Accepted (log : List Moment) : Prop :=
  Since (fun _ x => x.Accepts) (fun x => x.Sends ∨ x.Enters) log

/-- `AUTH_PAE` waits for the outcome exactly while `BE_AUTH` exchanges messages. -/
def Coupled (sm : EapolStateMachine) : Prop :=
  sm.authPae.state = .authenticating ↔ sm.beAuth.state = .request ∨ sm.beAuth.state = .response

/-- `AUTH_PAE` states in which nothing is asked of the backend. -/
def resting : List AuthPaeState := [.init, .disconnected, .connecting, .authenticated, .held]

inductive Phase (accepted : Prop) (v : View) : Prop where
  | quiet : v.pae ∈ resting → v.be = .idle → v.authStart = false → v.authAbort = false →
      Phase accepted v
  | waiting : v.pae = .authenticating → v.be = .request ∨ v.be = .response →
      v.authAbort = false → v.authSuccess = false → v.authFail = false →
      (v.be = .response → v.aSuccess = true → accepted) → Phase accepted v
  | succeeded : v.pae = .authenticating → v.be = .success → v.authAbort = false →
      v.authSuccess = true → accepted → Phase accepted v
  | failed : v.pae = .authenticating → v.be = .fail → v.authAbort = false →
      v.authSuccess = false → v.authFail = true → Phase accepted v
  | timedOut : v.pae = .authenticating → v.be = .timeout → v.authAbort = false →
      v.authSuccess = false → v.authFail = false → v.authTimeout = true → Phase accepted v
  | aborted : v.pae = .aborting → v.be = .init → v.authAbort = false → Phase accepted v

inductive MidPhase (accepted : Prop) (v : View) : Prop where
  | quiet : v.pae ∈ resting → v.be ∈ [BeAuthState.idle, .success, .fail, .init] →
      (v.be = .idle → v.authStart = false) → v.authAbort = false → MidPhase accepted v
  | starting : v.pae = .authenticating → v.be = .idle → v.authStart = true →
      v.authAbort = false → v.authSuccess = false → v.authFail = false → MidPhase accepted v
  | waiting : v.pae = .authenticating → v.be = .request ∨ v.be = .response →
      v.authAbort = false → v.authSuccess = false → v.authFail = false →
      (v.be = .response → v.aSuccess = true → accepted) → MidPhase accepted v
  | aborting : v.pae = .aborting → v.authAbort = true → MidPhase accepted v

section Phases

variable {sm : EapolStateMachine} {accepted accepted' : Prop} {v : View}

theorem Phase.mono (h : Phase accepted v) (himp : accepted → accepted') : Phase accepted' v := by
  cases h with
  | quiet hpae hbe hstart habort => exact .quiet hpae hbe hstart habort
  | waiting hpae hbe habort hsuccess hfail ha =>
    exact .waiting hpae hbe habort hsuccess hfail fun hr hset => himp (ha hr hset)
  | succeeded hpae hbe habort hsuccess ha => exact .succeeded hpae hbe habort hsuccess (himp ha)
  | failed hpae hbe habort hsuccess hfail => exact .failed hpae hbe habort hsuccess hfail
  | timedOut hpae hbe habort hsuccess hfail htimeout =>
    exact .timedOut hpae hbe habort hsuccess hfail htimeout
  | aborted hpae hbe habort => exact .aborted hpae hbe habort

theorem Phase.of_resting (h : Phase accepted v) (hpae : v.pae ∈ resting) :
    v.be = .idle ∧ v.authStart = false ∧ v.authAbort = false := by
  cases h with
  | quiet _ hbe hstart habort => exact ⟨hbe, hstart, habort⟩
  | waiting hs => simp [hs, resting] at hpae
  | succeeded hs => simp [hs, resting] at hpae
  | failed hs => simp [hs, resting] at hpae
  | timedOut hs => simp [hs, resting] at hpae
  | aborted hs => simp [hs, resting] at hpae

theorem Phase.of_exchange (h : Phase accepted v) (hbe : v.be = .request ∨ v.be = .response) :
    v.pae = .authenticating ∧ v.authSuccess = false ∧ v.authFail = false := by
  cases h with
  | waiting hpae _ _ hsuccess hfail => exact ⟨hpae, hsuccess, hfail⟩
  | quiet _ hother => simp [hother] at hbe
  | succeeded _ hother => simp [hother] at hbe
  | failed _ hother => simp [hother] at hbe
  | timedOut _ hother => simp [hother] at hbe
  | aborted _ hother => simp [hother] at hbe

theorem Phase.of_aborting (h : Phase accepted v) (hpae : v.pae = .aborting) :
    v.be = .init ∧ v.authAbort = false := by
  cases h with
  | quiet hs => simp [hpae, resting] at hs
  | waiting hs => simp [hpae] at hs
  | succeeded hs => simp [hpae] at hs
  | failed hs => simp [hpae] at hs
  | timedOut hs => simp [hpae] at hs
  | aborted _ hbe habort => exact ⟨hbe, habort⟩

theorem Phase.calm (h : Phase accepted v) :
    ¬(v.authAbort = true ∨ v.be = .idle ∧ v.authStart = true) := by
  cases h with
  | quiet _ _ hstart habort => simp [hstart, habort]
  | waiting _ hbe habort => rcases hbe with hbe | hbe <;> simp [hbe, habort]
  | succeeded _ hbe habort => simp [hbe, habort]
  | failed _ hbe habort => simp [hbe, habort]
  | timedOut _ hbe habort => simp [hbe, habort]
  | aborted _ hbe habort => simp [hbe, habort]

theorem Phase.not_forced (h : Phase accepted v) : v.pae ≠ .forceAuth ∧ v.pae ≠ .forceUnauth := by
  cases h with
  | quiet hs =>
    constructor <;> intro hpae <;> simp [hpae, resting] at hs
  | _ hs => simp [hs]

theorem Phase.mid_quiet (h : Phase accepted v) {pae : AuthPaeState} (hs : v.pae = pae)
    (hpae : pae ∈ resting) (next : AuthPaeState) (hnext : next ∈ resting) :
    MidPhase accepted' { v with pae := next } := by
  obtain ⟨hbe, hstart, habort⟩ := h.of_resting (hs ▸ hpae)
  exact .quiet hnext (by simp [hbe]) (fun _ => hstart) habort

theorem Phase.mid_stay (h : Phase accepted v) {pae : AuthPaeState} (hs : v.pae = pae)
    (hpae : pae ∈ resting) : MidPhase accepted' v := by
  have hrest : v.pae ∈ resting := hs ▸ hpae
  obtain ⟨hbe, hstart, habort⟩ := h.of_resting hrest
  exact .quiet hrest (by simp [hbe]) (fun _ => hstart) habort

theorem Phase.mid_dropped (h : Phase accepted v) (hs : v.pae = .aborting) (next : AuthPaeState)
    (hnext : next ∈ resting) : MidPhase accepted' { v with pae := next } := by
  obtain ⟨hbe, habort⟩ := h.of_aborting hs
  exact .quiet hnext (by simp [hbe]) (fun hidle => by simp [hbe] at hidle) habort

theorem Phase.mid_finished (h : Phase accepted v) (hs : v.pae = .authenticating)
    (hover : v.authSuccess = true ∨ v.authFail = true) (next : AuthPaeState) (hnext : next ∈ resting) :
    MidPhase accepted' { v with pae := next } := by
  cases h with
  | quiet hpae => simp [hs, resting] at hpae
  | waiting _ _ _ hsuccess hfail => simp [hsuccess, hfail] at hover
  | succeeded _ hbe habort => exact .quiet hnext (by simp [hbe]) (by simp [hbe]) habort
  | failed _ hbe habort => exact .quiet hnext (by simp [hbe]) (by simp [hbe]) habort
  | timedOut _ _ _ hsuccess hfail => simp [hsuccess, hfail] at hover
  | aborted hpae => simp [hs] at hpae

theorem Phase.mid_waiting (h : Phase accepted v) (hs : v.pae = .authenticating)
    (hsuccess : v.authSuccess = false) (hfail : v.authFail = false) (htimeout : v.authTimeout = false)
    (hacc : accepted → accepted') : MidPhase accepted' v := by
  cases h with
  | quiet hpae => simp [hs, resting] at hpae
  | waiting _ hbe habort _ _ ha =>
    exact .waiting hs hbe habort hsuccess hfail fun hr hset => hacc (ha hr hset)
  | succeeded _ _ _ hyes => simp [hsuccess] at hyes
  | failed _ _ _ _ hyes => simp [hfail] at hyes
  | timedOut _ _ _ _ _ hyes => simp [htimeout] at hyes
  | aborted hpae => simp [hs] at hpae

theorem authPaeStep_sends (hw : Wired sm) (h : Phase accepted sm.view) :
    Action.sendRespToServer ∉ (authPaeStep sm).2 := by
  have hcases := authPaeStep_cases hw
  generalize authPaeStep sm = r at hcases ⊢
  cases hcases with
  | forced _ hs =>
    rcases hs with hs | hs
    · exact absurd hs h.not_forced.1
    · exact absurd hs h.not_forced.2
  | _ =>
    simp [authPaeDisconnected, authPaeConnecting, authPaeHeld, authPaeAuthenticated,
      authPaeAuthenticating, authPaeAborting]

theorem authPaeStep_writes (hw : Wired sm) (h : Phase accepted sm.view) :
    ∃ quietWhile txWhen abort fail start timeout success currentId portStatus reAuthenticate pae,
      (authPaeStep sm).1 =
        { sm with
          quietWhile := quietWhile, txWhen := txWhen, authAbort := abort, authFail := fail
          authStart := start, authTimeout := timeout, authSuccess := success
          currentId := currentId, portStatus := portStatus, reAuthenticate := reAuthenticate
          authPae := pae } ∧
      pae.portMode = sm.authPae.portMode ∧ pae.reAuthMax = sm.authPae.reAuthMax ∧
      pae.txPeriod = sm.authPae.txPeriod := by
  have hcases := authPaeStep_cases hw
  generalize authPaeStep sm = r at hcases ⊢
  cases hcases with
  | forced _ hs =>
    rcases hs with hs | hs
    · exact absurd hs h.not_forced.1
    · exact absurd hs h.not_forced.2
  | _ => exact ⟨_, _, _, _, _, _, _, _, _, _, _, rfl, rfl, rfl, rfl⟩

theorem authPaeStep_wired_after (hw : Wired sm) (h : Phase accepted sm.view) :
    Wired (authPaeStep sm).1 := by
  obtain ⟨_, _, _, _, _, _, _, _, _, _, pae, heq, hmode, hmax, hperiod⟩ := authPaeStep_writes hw h
  rw [heq]
  exact ⟨hw.portControl, hmode.trans hw.portMode, hw.portEnabled, hw.portValid, hw.initializing,
    hmax.trans hw.reAuthMax, hperiod.trans hw.txPeriod⟩

theorem authPaeStep_spares (hw : Wired sm) (h : Phase accepted sm.view) :
    (authPaeStep sm).1.beAuth = sm.beAuth ∧ (authPaeStep sm).1.reauthTimer = sm.reauthTimer ∧
      (authPaeStep sm).1.keyAvailable = sm.keyAvailable ∧
      (authPaeStep sm).1.authKeyTx = sm.authKeyTx := by
  obtain ⟨_, _, _, _, _, _, _, _, _, _, _, heq, _⟩ := authPaeStep_writes hw h
  rw [heq]
  exact ⟨rfl, rfl, rfl, rfl⟩

theorem authPaeStep_phase (hw : Wired sm) (h : Phase accepted sm.view)
    (hacc : sm.authPae.state = .authenticating → accepted → accepted') :
    MidPhase accepted' (authPaeStep sm).1.view := by
  have hcases := authPaeStep_cases hw
  generalize authPaeStep sm = r at hcases ⊢
  cases hcases with
  | start hs => exact h.mid_quiet hs (by simp [resting]) .disconnected (by simp [resting])
  | connect hs => exact h.mid_quiet hs (by simp [resting]) .connecting (by simp [resting])
  | release hs => exact h.mid_quiet hs (by simp [resting]) .connecting (by simp [resting])
  | giveUp hs => exact h.mid_quiet hs (by simp [resting]) .disconnected (by simp [resting])
  | again hs => exact h.mid_quiet hs (by simp [resting]) .connecting (by simp [resting])
  | reconnect hs => exact h.mid_quiet hs (by simp [resting]) .connecting (by simp [resting])
  | depart hs => exact h.mid_quiet hs (by simp [resting]) .disconnected (by simp [resting])
  | hold hs => exact h.mid_stay hs (by simp [resting])
  | expect hs => exact h.mid_stay hs (by simp [resting])
  | remain hs => exact h.mid_stay hs (by simp [resting])
  | engage hs =>
    obtain ⟨hbe, _, habort⟩ := h.of_resting (hs ▸ by simp [resting] : sm.authPae.state ∈ resting)
    exact .starting rfl hbe rfl habort rfl rfl
  | succeed hs hsuccess => exact h.mid_finished hs (.inl hsuccess) .authenticated (by simp [resting])
  | fail hs _ hfail => exact h.mid_finished hs (.inr hfail) .held (by simp [resting])
  | abort hs => exact .aborting rfl rfl
  | wait hs hsuccess hfail htimeout =>
    exact h.mid_waiting hs hsuccess hfail htimeout (hacc hs)
  | dropOut hs => exact h.mid_dropped hs .disconnected (by simp [resting])
  | retry hs => exact h.mid_dropped hs .connecting (by simp [resting])
  | aborting hs habort =>
    have hdone : sm.authAbort = false := (h.of_aborting hs).2
    simp [hdone] at habort
  | forced _ hs =>
    rcases hs with hs | hs
    · exact absurd hs h.not_forced.1
    · exact absurd hs h.not_forced.2

theorem MidPhase.of_exchange (h : MidPhase accepted v) (habort : v.authAbort = false)
    (hbe : v.be = .request ∨ v.be = .response) :
    v.pae = .authenticating ∧ v.authSuccess = false ∧ v.authFail = false ∧
      (v.be = .response → v.aSuccess = true → accepted) := by
  cases h with
  | quiet _ hother => rcases hbe with hbe | hbe <;> simp [hbe] at hother
  | starting _ hidle => rcases hbe with hbe | hbe <;> simp [hbe] at hidle
  | waiting hpae _ _ hsuccess hfail ha => exact ⟨hpae, hsuccess, hfail, ha⟩
  | aborting _ hyes => simp [habort] at hyes

theorem MidPhase.of_finished (h : MidPhase accepted v) (habort : v.authAbort = false)
    (hbe : v.be ∈ [BeAuthState.init, .success, .fail, .timeout]) : v.pae ∈ resting := by
  cases h with
  | quiet hpae => exact hpae
  | starting _ hidle => simp [hidle] at hbe
  | waiting _ hother => rcases hother with hother | hother <;> simp [hother] at hbe
  | aborting _ hyes => simp [habort] at hyes

theorem MidPhase.of_idle (h : MidPhase accepted v) (habort : v.authAbort = false)
    (hbe : v.be = .idle) :
    v.pae ∈ resting ∧ v.authStart = false ∨
      v.pae = .authenticating ∧ v.authStart = true ∧ v.authSuccess = false ∧
        v.authFail = false := by
  cases h with
  | quiet hpae _ hstart => exact .inl ⟨hpae, hstart hbe⟩
  | starting hpae _ hstart _ hsuccess hfail => exact .inr ⟨hpae, hstart, hsuccess, hfail⟩
  | waiting _ hother => rcases hother with hother | hother <;> simp [hbe] at hother
  | aborting _ hyes => simp [habort] at hyes

theorem MidPhase.of_abort (h : MidPhase accepted v) (habort : v.authAbort = true) :
    v.pae = .aborting := by
  cases h with
  | quiet _ _ _ hno => simp [habort] at hno
  | starting _ _ _ hno => simp [habort] at hno
  | waiting _ _ hno => simp [habort] at hno
  | aborting hpae => exact hpae

theorem beAuthRequest_view (sm : EapolStateMachine) :
    (beAuthRequest sm).1.view = { sm.view with be := .request } := rfl

theorem beAuthResponse_view (sm : EapolStateMachine) :
    (beAuthResponse sm).1.view =
      { sm.view with be := .response, authTimeout := false, aSuccess := false } := rfl

theorem beAuthStep_phase (hw : Wired sm) (h : MidPhase accepted sm.view)
    (hacc : Action.sendRespToServer ∉ (beAuthStep sm).2 → accepted → accepted') :
    Phase accepted' (beAuthStep sm).1.view := by
  have hcases := beAuthStep_cases hw
  generalize beAuthStep sm = r at hcases hacc ⊢
  cases hcases with
  | abort habort => exact .aborted (h.of_abort habort) rfl rfl
  | finish habort hbe => exact .quiet (h.of_finished habort hbe) rfl rfl habort
  | ask habort hbe =>
    obtain ⟨hpae, hsuccess, hfail, _⟩ := h.of_exchange habort (.inl hbe)
    rw [beAuthRequest_view]
    exact .waiting hpae (.inl rfl) habort hsuccess hfail fun hr => by cases hr
  | forward habort hbe =>
    obtain ⟨hpae, hsuccess, hfail, _⟩ := h.of_exchange habort (.inl hbe)
    rw [beAuthResponse_view]
    exact .waiting hpae (.inr rfl) habort hsuccess hfail fun _ hset => by cases hset
  | noAnswer habort hbe =>
    obtain ⟨hpae, hsuccess, hfail, _⟩ := h.of_exchange habort (.inl hbe)
    exact .timedOut hpae rfl habort hsuccess hfail rfl
  | expect habort hbe =>
    obtain ⟨hpae, hsuccess, hfail, _⟩ := h.of_exchange habort (.inl hbe)
    exact .waiting hpae (.inl hbe) habort hsuccess hfail fun hr => by
      simp [EapolStateMachine.view, hbe] at hr
  | challenge habort hbe =>
    obtain ⟨hpae, hsuccess, hfail, _⟩ := h.of_exchange habort (.inr hbe)
    rw [beAuthRequest_view]
    exact .waiting hpae (.inl rfl) habort hsuccess hfail fun hr => by cases hr
  | noServer habort hbe =>
    obtain ⟨hpae, hsuccess, hfail, _⟩ := h.of_exchange habort (.inr hbe)
    exact .timedOut hpae rfl habort hsuccess hfail rfl
  | fail habort hbe =>
    obtain ⟨hpae, hsuccess, hfail, _⟩ := h.of_exchange habort (.inr hbe)
    exact .failed hpae rfl habort hsuccess rfl
  | succeed habort hbe hset =>
    obtain ⟨hpae, _, _, ha⟩ := h.of_exchange habort (.inr hbe)
    exact .succeeded hpae rfl habort rfl (hacc (by simp [beAuthSuccess]) (ha hbe hset))
  | wait habort hbe =>
    obtain ⟨hpae, hsuccess, hfail, ha⟩ := h.of_exchange habort (.inr hbe)
    exact .waiting hpae (.inr hbe) habort hsuccess hfail fun _ hset =>
      hacc (by simp) (ha hbe hset)
  | engage habort hbe hstart =>
    rcases h.of_idle habort hbe with ⟨_, hno⟩ | ⟨hpae, _, hsuccess, hfail⟩
    · exact absurd (hstart.symm.trans hno) (by simp)
    · rw [beAuthResponse_view]
      exact .waiting hpae (.inr rfl) habort hsuccess hfail fun _ hset => by cases hset
  | rest habort hbe hstart =>
    rcases h.of_idle habort hbe with ⟨hpae, _⟩ | ⟨_, hno, _⟩
    · exact .quiet hpae hbe hstart habort
    · exact absurd (hstart.symm.trans hno) (by simp)

theorem eapolSmPass_pae (hw : Wired sm) (h : Phase accepted sm.view) :
    (eapolSmPass sm).1.authPae = (authPaeStep sm).1.authPae := by
  have hpae := authPaeStep_wired_after hw h
  obtain ⟨hbe, _⟩ := beAuthStep_spares hpae
  obtain ⟨htimer, _⟩ := reauthTimerStep_spares (hbe.wired hpae)
  obtain ⟨hkey, _⟩ := authKeyTxStep_spares (htimer.wired (hbe.wired hpae))
  rw [eapolSmPass_fst]
  exact hkey.authPae.trans (htimer.authPae.trans hbe.authPae)

end Phases

def Cleared (before : List Moment) (x : Moment) : Prop := x.Authorizes → Accepted before

structure Steady (log : List Moment) (sm : EapolStateMachine) : Prop extends Wired sm where
  opened : sm.portStatus = .authorized →
    sm.authPae.state ∈ [AuthPaeState.authenticated, .connecting, .authenticating, .aborting]
  disconnected : sm.authPae.state = .disconnected →
    sm.authPae.reAuthCount = 0 ∧ sm.authPae.eapLogoff = false
  reauth : sm.reauthTimer.state = .reauthenticate →
    sm.reAuthenticate = true ∧ sm.portStatus = .authorized
  phase : Phase (Accepted log) sm.view
  cleared : Always Cleared log

section Rounds

variable {sm : EapolStateMachine} {log : List Moment}

theorem authPaeStep_opened (h : Steady log sm)
    (hopen : (authPaeStep sm).1.portStatus = .authorized) :
    (authPaeStep sm).1.authPae.state ∈
      [AuthPaeState.authenticated, .connecting, .authenticating, .aborting] := by
  have hcases := authPaeStep_cases h.toWired
  generalize authPaeStep sm = r at hcases hopen ⊢
  cases hcases with
  | forced _ hs =>
    rcases hs with hs | hs
    · exact absurd hs h.phase.not_forced.1
    · exact absurd hs h.phase.not_forced.2
  | start => cases hopen
  | giveUp => cases hopen
  | depart => cases hopen
  | dropOut => cases hopen
  | fail => cases hopen
  | hold => exact h.opened hopen
  | expect => exact h.opened hopen
  | remain => exact h.opened hopen
  | wait => exact h.opened hopen
  | aborting => exact h.opened hopen
  | connect => simp [authPaeConnecting]
  | release => simp [authPaeConnecting]
  | again => simp [authPaeConnecting]
  | reconnect => simp [authPaeConnecting]
  | retry => simp [authPaeConnecting]
  | engage => simp [authPaeAuthenticating]
  | succeed => simp [authPaeAuthenticated]
  | abort => simp [authPaeAborting]

theorem authPaeStep_disconnected (hw : Wired sm) (h : Steady log sm)
    (hs : (authPaeStep sm).1.authPae.state = .disconnected) :
    (authPaeStep sm).1.authPae.reAuthCount = 0 ∧ (authPaeStep sm).1.authPae.eapLogoff = false := by
  have hcases := authPaeStep_cases hw
  generalize authPaeStep sm = r at hcases hs ⊢
  cases hcases with
  | forced _ hs' =>
    rcases hs' with hs' | hs'
    · exact absurd hs' h.phase.not_forced.1
    · exact absurd hs' h.phase.not_forced.2
  | start => exact ⟨rfl, rfl⟩
  | giveUp => exact ⟨rfl, rfl⟩
  | depart => exact ⟨rfl, rfl⟩
  | dropOut => exact ⟨rfl, rfl⟩
  | connect => simp [authPaeConnecting] at hs
  | release => simp [authPaeConnecting] at hs
  | again => simp [authPaeConnecting] at hs
  | reconnect => simp [authPaeConnecting] at hs
  | retry => simp [authPaeConnecting] at hs
  | engage => simp [authPaeAuthenticating] at hs
  | succeed => simp [authPaeAuthenticated] at hs
  | fail => simp [authPaeHeld] at hs
  | abort => simp [authPaeAborting] at hs
  | hold => exact h.disconnected hs
  | expect => exact h.disconnected hs
  | remain => exact h.disconnected hs
  | wait => exact h.disconnected hs
  | aborting => exact h.disconnected hs

theorem authPaeStep_authorizes (h : Steady log sm) (hclosed : sm.portStatus = .unauthorized)
    (hopen : (authPaeStep sm).1.portStatus = .authorized) : Accepted log := by
  have hcases := authPaeStep_cases h.toWired
  generalize authPaeStep sm = r at hcases hopen
  cases hcases with
  | forced _ hs =>
    rcases hs with hs | hs
    · exact absurd hs h.phase.not_forced.1
    · exact absurd hs h.phase.not_forced.2
  | succeed hs hsuccess =>
    cases h.phase with
    | quiet hpae => simp [EapolStateMachine.view, hs, resting] at hpae
    | waiting _ _ _ hno => exact absurd (hsuccess.symm.trans hno) (by simp)
    | succeeded _ _ _ _ hacc => exact hacc
    | failed _ _ _ hno => exact absurd (hsuccess.symm.trans hno) (by simp)
    | timedOut _ _ _ hno => exact absurd (hsuccess.symm.trans hno) (by simp)
    | aborted hpae => simp [EapolStateMachine.view, hs] at hpae
  | start => cases hopen
  | giveUp => cases hopen
  | depart => cases hopen
  | dropOut => cases hopen
  | fail => cases hopen
  | _ =>
    simp [hclosed, authPaeConnecting, authPaeAuthenticating, authPaeAborting] at hopen

theorem Accepted.move {m : Move} (h : Accepted log) (hsends : Action.sendRespToServer ∉ m.actions)
    (henters : m.after.authPae.state = .authenticating → m.before.authPae.state = .authenticating) :
    Accepted (log ++ [.move m]) := by
  apply h.snoc
  rintro (hs | ⟨hbefore, hafter⟩)
  · exact hsends hs
  · exact hbefore (henters hafter)

theorem cleared_of_spares {m : Move} (h : SparesPae m.before m.after) :
    Cleared log (.move m) := by
  rintro ⟨hclosed, hopen⟩
  rw [h.portStatus, hclosed] at hopen
  cases hopen

theorem pass_log (log : List Moment) (sm : EapolStateMachine) :
    log ++ (passMoves sm).map .move =
      (((log ++ [.move (moveOf authPaeStep sm)]) ++
        [.move (moveOf beAuthStep (authPaeStep sm).1)]) ++
        [.move (moveOf reauthTimerStep (beAuthStep (authPaeStep sm).1).1)]) ++
        [.move (moveOf authKeyTxStep
          (reauthTimerStep (beAuthStep (authPaeStep sm).1).1).1)] := by
  simp [passMoves, moveOf]

theorem reauthTimerStep_reauth (hw : Wired sm)
    (hs : (reauthTimerStep sm).1.reauthTimer.state = .reauthenticate) :
    (reauthTimerStep sm).1.reAuthenticate = true ∧
      (reauthTimerStep sm).1.portStatus = .authorized := by
  have hcases := reauthTimerStep_cases hw
  generalize reauthTimerStep sm = r at hcases hs ⊢
  cases hcases with
  | init => simp [reauthTimerInitialize] at hs
  | fire hport => exact ⟨rfl, hport⟩
  | wait hinit => exact absurd (hinit.symm.trans hs) (by simp)

theorem eapolSmPass_steady (h : Steady log sm) :
    Steady (log ++ (passMoves sm).map .move) (eapolSmPass sm).1 := by
  rw [pass_log]
  have hpae := authPaeStep_wired_after h.toWired h.phase
  have hmid : MidPhase (Accepted (log ++ [.move (moveOf authPaeStep sm)]))
      (authPaeStep sm).1.view :=
    authPaeStep_phase h.toWired h.phase fun hs hacc =>
      hacc.move (authPaeStep_sends h.toWired h.phase) fun _ => hs
  have hopened := authPaeStep_opened h
  have hdisconnected := authPaeStep_disconnected h.toWired h
  have hclear : Cleared log (.move (moveOf authPaeStep sm)) :=
    fun hx => authPaeStep_authorizes h hx.1 hx.2
  have hcleared := always_snoc h.cleared hclear
  rw [eapolSmPass_fst]
  generalize hlog : log ++ [Moment.move (moveOf authPaeStep sm)] = log₁ at *
  generalize (authPaeStep sm).1 = sm₁ at *
  -- the backend follows
  obtain ⟨hbeSpares, _⟩ := beAuthStep_spares hpae
  have hbe := hbeSpares.wired hpae
  have hphase : Phase (Accepted (log₁ ++ [.move (moveOf beAuthStep sm₁)]))
      (beAuthStep sm₁).1.view :=
    beAuthStep_phase hpae hmid fun hsends hacc =>
      hacc.move hsends fun hs => by rwa [moveOf, hbeSpares.authPae] at hs
  -- the timers and the keys leave both alone
  obtain ⟨htimerSpares, htimerView, _, _, _, htimerActions⟩ := reauthTimerStep_spares hbe
  have htimer := htimerSpares.wired hbe
  have hreauth := reauthTimerStep_reauth hbe
  obtain ⟨hkeySpares, hkeyView, _, hkeyTimer, hkeyReauth, hkeyActions⟩ :=
    authKeyTxStep_spares htimer
  have hkey := hkeySpares.wired htimer
  refine ⟨hkey, ?_, ?_, ?_, ?_, ?_⟩
  · intro hport
    rw [hkeySpares.authPae, htimerSpares.authPae, hbeSpares.authPae]
    apply hopened
    rwa [hkeySpares.portStatus, htimerSpares.portStatus, hbeSpares.portStatus] at hport
  · rw [hkeySpares.authPae, htimerSpares.authPae, hbeSpares.authPae]
    exact hdisconnected
  · rw [hkeyTimer, hkeyReauth, hkeySpares.portStatus]
    exact hreauth
  · rw [hkeyView, htimerView]
    apply hphase.mono
    intro hacc
    have hthird := hacc.move (m := moveOf reauthTimerStep (beAuthStep sm₁).1)
      (by simp [moveOf, htimerActions]) fun hs => by rwa [moveOf, htimerSpares.authPae] at hs
    exact hthird.move hkeyActions fun hs => by rwa [moveOf, hkeySpares.authPae] at hs
  · have hsecond := always_snoc hcleared (cleared_of_spares (m := moveOf beAuthStep sm₁) hbeSpares)
    have hthird := always_snoc hsecond
      (cleared_of_spares (m := moveOf reauthTimerStep (beAuthStep sm₁).1) htimerSpares)
    exact always_snoc hthird (cleared_of_spares hkeySpares)

theorem coupled_of_stay (h : Steady log sm)
    (hsame : (authPaeStep sm).1.authPae.state = sm.authPae.state) :
    sm.authPae.state ≠ .disconnected ∧ Coupled sm := by
  have hcases := authPaeStep_cases h.toWired
  generalize authPaeStep sm = r at hcases hsame
  cases h.phase with
  | quiet hpae hbe =>
    have hstate : sm.authPae.state ∈ resting := hpae
    have hidle : sm.beAuth.state = .idle := hbe
    refine ⟨?_, ?_⟩
    · intro hs
      cases hcases <;> simp_all [authPaeConnecting]
    · unfold Coupled
      rw [hidle]
      constructor
      · intro hs
        simp [hs, resting] at hstate
      · intro hs
        rcases hs with hs | hs <;> cases hs
  | waiting hpae hbe =>
    have hstate : sm.authPae.state = .authenticating := hpae
    refine ⟨by simp [hstate], ?_⟩
    exact ⟨fun _ => hbe, fun _ => hstate⟩
  | succeeded hpae _ _ hsuccess =>
    have hstate : sm.authPae.state = .authenticating := hpae
    have hyes : sm.authSuccess = true := hsuccess
    cases hcases <;> simp_all [authPaeAuthenticated]
  | failed hpae _ _ hsuccess hfail =>
    have hstate : sm.authPae.state = .authenticating := hpae
    have hno : sm.authSuccess = false := hsuccess
    have hyes : sm.authFail = true := hfail
    cases hcases <;> simp_all [authPaeHeld]
  | timedOut hpae _ _ hsuccess hfail htimeout =>
    have hstate : sm.authPae.state = .authenticating := hpae
    have hno : sm.authSuccess = false := hsuccess
    have hno' : sm.authFail = false := hfail
    have hyes : sm.authTimeout = true := htimeout
    cases hcases <;> simp_all [authPaeAborting]
  | aborted hpae _ habort =>
    have hstate : sm.authPae.state = .aborting := hpae
    have hno : sm.authAbort = false := habort
    cases hcases <;> simp_all [authPaeConnecting, authPaeDisconnected]

theorem coupled_of_same_states (h : Steady log sm)
    (hsame : (eapolSmPass sm).1.states = sm.states) :
    (eapolSmPass sm).1.authPae.state ≠ .disconnected ∧ Coupled (eapolSmPass sm).1 := by
  simp only [EapolStateMachine.states, Prod.mk.injEq] at hsame
  obtain ⟨hpae, hbe, _, _⟩ := hsame
  unfold Coupled
  rw [hpae, hbe]
  exact coupled_of_stay h (by rw [← eapolSmPass_pae h.toWired h.phase, hpae])

end Rounds

section Events

variable {sm : EapolStateMachine} {log : List Moment}

/-- The machines after an `eapol_sm_step`. -/
structure Rested (log : List Moment) (sm : EapolStateMachine) : Prop extends Steady log sm where
  connected : sm.authPae.state ≠ .disconnected
  coupled : Coupled sm

theorem Phase.withSuccess {accepted accepted' : Prop} {v : View} (h : Phase accepted v) (b : Bool)
    (hacc : accepted') : Phase accepted' { v with aSuccess := b } := by
  cases h with
  | quiet hpae hbe hstart habort => exact .quiet hpae hbe hstart habort
  | waiting hpae hbe habort hsuccess hfail _ =>
    exact .waiting hpae hbe habort hsuccess hfail fun _ _ => hacc
  | succeeded hpae hbe habort hsuccess _ => exact .succeeded hpae hbe habort hsuccess hacc
  | failed hpae hbe habort hsuccess hfail => exact .failed hpae hbe habort hsuccess hfail
  | timedOut hpae hbe habort hsuccess hfail htimeout =>
    exact .timedOut hpae hbe habort hsuccess hfail htimeout
  | aborted hpae hbe habort => exact .aborted hpae hbe habort

theorem apply_wired (h : Wired sm) (e : SmEvent) : Wired (e.apply sm) := by
  obtain ⟨hcontrol, hmode, henabled, hvalid, hinit, hmax, hperiod⟩ := h
  cases e <;> exact ⟨hcontrol, hmode, henabled, hvalid, hinit, hmax, hperiod⟩

theorem apply_states (sm : EapolStateMachine) (e : SmEvent) :
    (e.apply sm).authPae.state = sm.authPae.state ∧ (e.apply sm).portStatus = sm.portStatus ∧
      (e.apply sm).reauthTimer.state = sm.reauthTimer.state ∧
      (e.apply sm).reAuthenticate = sm.reAuthenticate := by
  cases e <;> exact ⟨rfl, rfl, rfl, rfl⟩

theorem apply_phase (h : Phase (Accepted log) sm.view) (e : SmEvent) :
    Phase (Accepted (log ++ [.event e])) (e.apply sm).view := by
  have hkeep : Phase (Accepted (log ++ [.event e])) sm.view :=
    h.mono fun hacc => hacc.snoc fun hx => hx.elim id id
  cases e with
  | accept id reAuthPeriod keys => exact hkeep.withSuccess true (since_last trivial)
  | _ => exact hkeep

theorem Rested.apply (h : Rested log sm) (e : SmEvent) :
    Steady (log ++ [.event e]) (e.apply sm) := by
  obtain ⟨hpae, hport, htimer, hreauth⟩ := apply_states sm e
  refine ⟨apply_wired h.toWired e, ?_, ?_, ?_, apply_phase h.phase e, ?_⟩
  · rw [hpae, hport]
    exact h.opened
  · rw [hpae]
    intro hs
    exact absurd hs h.connected
  · rw [htimer, hreauth, hport]
    exact h.reauth
  · exact always_snoc h.cleared fun hx => hx.elim

theorem Rested.step {rounds : Nat} {e : SmEvent} {last : EapolStateMachine} {more : List Moment}
    (h : Rested log sm) (hstep : machineStep rounds sm e = some (last, more)) :
    Rested (log ++ more) last := by
  obtain ⟨⟨last', moves⟩, hrounds, heq⟩ := Option.map_eq_some_iff.mp hstep
  cases heq
  have hfirst : Steady (log ++ [.event e] ++ ([] : List Move).map .move) (e.apply sm) := by
    simpa using h.apply e
  obtain ⟨hsteady, before, sm', hsteady', rfl, hsame⟩ := eapolSmRounds_induct
    (fun moves sm => Steady (log ++ [.event e] ++ moves.map .move) sm)
    (fun moves sm hs => by
      have hnext := eapolSmPass_steady hs
      rwa [List.append_assoc, ← List.map_append] at hnext) hfirst hrounds
  obtain ⟨hconnected, hcoupled⟩ := coupled_of_same_states hsteady' hsame
  rw [List.nil_append, List.append_assoc, List.singleton_append] at hsteady
  exact ⟨hsteady, hconnected, hcoupled⟩

end Events

end OpenwrtMtk.Dot1x
