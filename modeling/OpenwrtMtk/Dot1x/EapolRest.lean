import OpenwrtMtk.Dot1x.EapolSm
import OpenwrtMtk.Lib.Loops

/-!
# The backend, the timer and the key machine come to rest

What the three machines behind `AUTH_PAE` do in one pass, from any record. Each has a number of
state changes that it can still make by itself; a pass lowers it when it changes the state. Only
the timer can go on for ever: while the port is open and the period is zero it goes back and forth.
-/

namespace OpenwrtMtk.Dot1x

open Toolkit

set_option autoImplicit false

-- comparing two machines field by field must not compute the timers
attribute [local irreducible] toInt32

variable {sm sm' : EapolStateMachine}

/-- The part of a pass behind `AUTH_PAE`. -/
def restStep (sm : EapolStateMachine) : EapolStateMachine :=
  (authKeyTxStep (reauthTimerStep (beAuthStep sm).1).1).1

theorem eapolSmPass_rest (sm : EapolStateMachine) :
    (eapolSmPass sm).1 = restStep (authPaeStep sm).1 := rfl

section Frames

theorem beAuthStep_frame (sm : EapolStateMachine) :
    ∃ aWhile currentId abort fail start timeout success be, (beAuthStep sm).1 =
      { sm with
        aWhile := aWhile, currentId := currentId, authAbort := abort, authFail := fail
        authStart := start, authTimeout := timeout, authSuccess := success, beAuth := be } := by
  unfold beAuthStep
  split
  · exact ⟨_, _, _, _, _, _, _, _, rfl⟩
  · unfold beAuthSwitch
    cases sm.beAuth.state <;> dsimp only <;> (repeat' split) <;>
      exact ⟨_, _, _, _, _, _, _, _, rfl⟩

theorem reauthTimerStep_frame (sm : EapolStateMachine) :
    ∃ reAuthWhen reAuthenticate state, (reauthTimerStep sm).1 =
      { sm with
        reAuthWhen := reAuthWhen, reAuthenticate := reAuthenticate
        reauthTimer := { sm.reauthTimer with state := state } } := by
  unfold reauthTimerStep
  split
  · exact ⟨_, _, _, rfl⟩
  · cases sm.reauthTimer.state <;> dsimp only <;> (repeat' split) <;> exact ⟨_, _, _, rfl⟩

theorem authKeyTxStep_frame (sm : EapolStateMachine) :
    ∃ key available, (authKeyTxStep sm).1 =
      { sm with authKeyTx := key, keyAvailable := available } := by
  unfold authKeyTxStep
  split
  · exact ⟨_, _, rfl⟩
  · cases sm.authKeyTx <;> dsimp only <;> (repeat' split) <;> exact ⟨_, _, rfl⟩

end Frames

section Backend

/-- The changes of state that `BE_AUTH` still has before it. -/
def beLeft (sm : EapolStateMachine) : Nat :=
  if sm.portControl ≠ .auto then if sm.beAuth.state = .init then 0 else 1
  else if sm.authAbort then 2
  else
    match sm.beAuth.state with
    | .init | .success | .fail | .timeout => 1
    | .request => 3
    | .response => if sm.beAuth.aReq then 4 else 2
    | .idle => if sm.authStart then 3 else 0

theorem beAuthSwitch_left (hauto : sm.portControl = .auto) (habort : sm.authAbort = false) :
    ((beAuthSwitch sm).1.beAuth.state = sm.beAuth.state ∧
      beLeft (beAuthSwitch sm).1 ≤ beLeft sm) ∨ beLeft (beAuthSwitch sm).1 < beLeft sm := by
  unfold beAuthSwitch
  cases hs : sm.beAuth.state with
  | init | success | fail | timeout => right; simp [beLeft, beAuthIdle, hauto, habort, hs]
  | request =>
    dsimp only
    split
    · left; simp [beLeft, beAuthRequest, hauto, habort, hs]
    · split
      · right; simp [beLeft, beAuthResponse, hauto, habort, hs]
      · split
        · right; simp [beLeft, beAuthTimeout, hauto, habort, hs]
        · left; exact ⟨hs, Nat.le_refl _⟩
  | response =>
    dsimp only
    split
    · rename_i hreq
      right; simp [beLeft, beAuthRequest, hauto, habort, hs, hreq]
    · rename_i hreq
      split
      · right; simp [beLeft, beAuthTimeout, hauto, habort, hs, hreq]
      · split
        · right; simp [beLeft, beAuthFail, hauto, habort, hs, hreq]
        · split
          · right; simp [beLeft, beAuthSuccess, hauto, habort, hs, hreq]
          · left; exact ⟨hs, Nat.le_refl _⟩
  | idle =>
    dsimp only
    split
    · rename_i hstart
      right; simp [beLeft, beAuthResponse, hauto, habort, hs, hstart]
    · left; exact ⟨hs, Nat.le_refl _⟩

theorem beAuthStep_left (hinit : sm.initializing = false) :
    ((beAuthStep sm).1.beAuth.state = sm.beAuth.state ∧
      beLeft (beAuthStep sm).1 ≤ beLeft sm) ∨ beLeft (beAuthStep sm).1 < beLeft sm := by
  unfold beAuthStep
  by_cases hauto : sm.portControl = .auto
  · cases habort : sm.authAbort with
    | true =>
      right
      simp [beLeft, beAuthInitialize, hauto, habort]
    | false =>
      simp only [hauto, hinit, ne_eq, not_true_eq_false, Bool.false_eq_true, or_self, if_false]
      exact beAuthSwitch_left hauto habort
  · rw [if_pos (.inl hauto)]
    by_cases hs : sm.beAuth.state = .init
    · left; simp [beLeft, beAuthInitialize, hauto, hs]
    · right; simp [beLeft, beAuthInitialize, hauto, hs]

end Backend

section Key

def keyLeft (sm : EapolStateMachine) : Nat :=
  if sm.portControl ≠ .auto then if sm.authKeyTx = .noKeyTransmit then 0 else 1
  else (if sm.keyAvailable then 2 else 0) + if sm.authKeyTx = .keyTransmit then 1 else 0

theorem authKeyTxStep_left (hinit : sm.initializing = false) :
    ((authKeyTxStep sm).1.authKeyTx = sm.authKeyTx ∧ keyLeft (authKeyTxStep sm).1 ≤ keyLeft sm) ∨
      keyLeft (authKeyTxStep sm).1 < keyLeft sm := by
  unfold authKeyTxStep
  by_cases hauto : sm.portControl = .auto
  · simp only [hauto, hinit, ne_eq, not_true_eq_false, Bool.false_eq_true, or_self, if_false]
    cases hs : sm.authKeyTx with
    | noKeyTransmit =>
      dsimp only
      split
      · rename_i hsend
        right; simp [keyLeft, authKeyTxKeyTransmit, hauto, hs, hsend.2.1]
      · left; exact ⟨hs, Nat.le_refl _⟩
    | keyTransmit =>
      dsimp only
      split
      · right; simp [keyLeft, authKeyTxNoKeyTransmit, hauto, hs]
      · split
        · rename_i hkey
          right; simp [keyLeft, authKeyTxKeyTransmit, hauto, hs, hkey]
        · left; exact ⟨hs, Nat.le_refl _⟩
  · rw [if_pos (.inr hauto)]
    cases hs : sm.authKeyTx with
    | noKeyTransmit => left; simp [keyLeft, authKeyTxNoKeyTransmit, hauto, hs]
    | keyTransmit => right; simp [keyLeft, authKeyTxNoKeyTransmit, hauto, hs]

end Key

section Timer

def TimerLive (sm : EapolStateMachine) : Prop :=
  sm.portControl = .auto ∧ sm.portStatus = .authorized ∧ sm.reauthTimer.reAuthEnabled = true

instance (sm : EapolStateMachine) : Decidable (TimerLive sm) := inferInstanceAs (Decidable (_ ∧ _))

theorem timerLive_congr (hcontrol : sm'.portControl = sm.portControl)
    (hstatus : sm'.portStatus = sm.portStatus)
    (henabled : sm'.reauthTimer.reAuthEnabled = sm.reauthTimer.reAuthEnabled) :
    TimerLive sm' ↔ TimerLive sm := by
  rw [TimerLive, TimerLive, hcontrol, hstatus, henabled]

theorem reauthTimerInitialize_state :
    (reauthTimerInitialize sm).1.reauthTimer.state = .init := rfl

theorem timerLive_restarted (period : Int) :
    TimerLive { sm with
      reAuthWhen := period
      reauthTimer := { sm.reauthTimer with state := .init } } ↔ TimerLive sm :=
  timerLive_congr rfl rfl rfl

theorem timerLive_initialize : TimerLive (reauthTimerInitialize sm).1 ↔ TimerLive sm := by
  rw [reauthTimerInitialize]
  exact timerLive_restarted _

theorem timerLive_reauthenticate :
    TimerLive (reauthTimerReauthenticate sm).1 ↔ TimerLive sm :=
  timerLive_congr rfl rfl rfl

theorem reauthTimerStep_idle (h : ¬TimerLive sm) :
    reauthTimerStep sm = reauthTimerInitialize sm := by
  have hreset : sm.portControl ≠ .auto ∨ sm.initializing = true ∨ sm.portStatus = .unauthorized ∨
      ¬sm.reauthTimer.reAuthEnabled = true := by
    by_contra hno
    simp only [not_or, not_not] at hno
    refine h ⟨hno.1, ?_, hno.2.2.2⟩
    cases hport : sm.portStatus with
    | authorized => rfl
    | unauthorized => exact absurd hport hno.2.2.1
  rw [reauthTimerStep, if_pos hreset]

theorem reauthTimerStep_live (hinit : sm.initializing = false) (h : TimerLive sm) :
    ¬(sm.portControl ≠ .auto ∨ sm.initializing = true ∨ sm.portStatus = .unauthorized ∨
      ¬sm.reauthTimer.reAuthEnabled = true) := by
  simp [h.1, h.2.1, h.2.2, hinit]

theorem reauthTimerStep_resets (hs : sm.reauthTimer.state = .reauthenticate) :
    reauthTimerStep sm = reauthTimerInitialize sm := by
  unfold reauthTimerStep
  split
  · rfl
  · rw [hs]

theorem reauthTimerStep_fires (hinit : sm.initializing = false) (h : TimerLive sm)
    (hs : sm.reauthTimer.state = .init) (hwhen : sm.reAuthWhen = 0) :
    reauthTimerStep sm = reauthTimerReauthenticate sm := by
  rw [reauthTimerStep, if_neg (reauthTimerStep_live hinit h), hs]
  exact if_pos hwhen

theorem reauthTimerStep_waits (hinit : sm.initializing = false) (h : TimerLive sm)
    (hs : sm.reauthTimer.state = .init) (hwhen : sm.reAuthWhen ≠ 0) :
    reauthTimerStep sm = (sm, []) := by
  rw [reauthTimerStep, if_neg (reauthTimerStep_live hinit h), hs]
  exact if_neg hwhen

def timerLeft (sm : EapolStateMachine) : Nat :=
  if TimerLive sm then
    match sm.reauthTimer.state with
    | .init => if sm.reAuthWhen = 0 then 1 else 0
    | .reauthenticate => if sm.reAuthenticate then 0 else 2
  else if sm.reauthTimer.state = .init then 0 else 1

def frozenTimerLeft (sm : EapolStateMachine) : Nat :=
  if TimerLive sm then
    match sm.reauthTimer.state with
    | .init => if sm.reAuthWhen = 0 then 2 else 0
    | .reauthenticate => 1
  else if sm.reauthTimer.state = .init then 0 else 1

theorem timerLeft_le (sm : EapolStateMachine) : timerLeft sm ≤ 2 := by
  unfold timerLeft
  split
  · cases sm.reauthTimer.state <;> dsimp only <;> split <;> omega
  · split <;> omega

theorem timer_idle_left (h : ¬TimerLive sm) (f : EapolStateMachine → Nat)
    (hf : ∀ x, ¬TimerLive x → f x = if x.reauthTimer.state = .init then 0 else 1) :
    ((reauthTimerStep sm).1.reauthTimer.state = sm.reauthTimer.state ∧
      f (reauthTimerStep sm).1 ≤ f sm) ∨ f (reauthTimerStep sm).1 < f sm := by
  have hafter : ¬TimerLive (reauthTimerInitialize sm).1 := mt timerLive_initialize.mp h
  rw [reauthTimerStep_idle h, hf _ hafter, hf _ h]
  cases hs : sm.reauthTimer.state with
  | init => left; simp [reauthTimerInitialize]
  | reauthenticate => right; simp [reauthTimerInitialize]

theorem reauthTimerStep_left (hinit : sm.initializing = false)
    (hasked : TimerLive sm → sm.reAuthenticate = false) :
    ((reauthTimerStep sm).1.reauthTimer.state = sm.reauthTimer.state ∧
      timerLeft (reauthTimerStep sm).1 ≤ timerLeft sm) ∨
      timerLeft (reauthTimerStep sm).1 < timerLeft sm := by
  by_cases hlive : TimerLive sm
  · cases hs : sm.reauthTimer.state with
    | init =>
      by_cases hwhen : sm.reAuthWhen = 0
      · have hbefore : timerLeft sm = 1 := by simp [timerLeft, hlive, hs, hwhen]
        right
        rw [reauthTimerStep_fires hinit hlive hs hwhen, hbefore, timerLeft,
          if_pos (timerLive_reauthenticate.mpr hlive)]
        exact Nat.one_pos
      · left
        rw [reauthTimerStep_waits hinit hlive hs hwhen]
        exact ⟨hs, Nat.le_refl _⟩
    | reauthenticate =>
      have hbefore : timerLeft sm = 2 := by simp [timerLeft, hlive, hs, hasked hlive]
      right
      rw [reauthTimerStep_resets hs, hbefore, timerLeft, if_pos ( timerLive_initialize.mpr hlive),
        reauthTimerInitialize_state]
      dsimp only
      by_cases hwhen : (reauthTimerInitialize sm).1.reAuthWhen = 0
      · rw [if_pos hwhen]
        exact Nat.lt_succ_self 1
      · rw [if_neg hwhen]
        exact Nat.two_pos
  · exact timer_idle_left hlive timerLeft fun x hx => by rw [timerLeft, if_neg hx]

def TimerStops (sm : EapolStateMachine) : Prop :=
  toInt32 sm.reauthTimer.reAuthPeriod ≠ 0 ∨
    sm.reauthTimer.state = .init ∧ sm.reAuthWhen ≠ 0

theorem reauthTimerStep_frozenLeft (hinit : sm.initializing = false)
    (hstops : TimerLive sm → TimerStops sm) :
    ((reauthTimerStep sm).1.reauthTimer.state = sm.reauthTimer.state ∧
      frozenTimerLeft (reauthTimerStep sm).1 ≤ frozenTimerLeft sm) ∨
      frozenTimerLeft (reauthTimerStep sm).1 < frozenTimerLeft sm := by
  by_cases hlive : TimerLive sm
  · cases hs : sm.reauthTimer.state with
    | init =>
      by_cases hwhen : sm.reAuthWhen = 0
      · have hbefore : frozenTimerLeft sm = 2 := by simp [frozenTimerLeft, hlive, hs, hwhen]
        right
        rw [reauthTimerStep_fires hinit hlive hs hwhen, hbefore, frozenTimerLeft,
          if_pos (timerLive_reauthenticate.mpr hlive)]
        exact Nat.lt_succ_self 1
      · left
        rw [reauthTimerStep_waits hinit hlive hs hwhen]
        exact ⟨hs, Nat.le_refl _⟩
    | reauthenticate =>
      have hbefore : frozenTimerLeft sm = 1 := by simp [frozenTimerLeft, hlive, hs]
      have hperiod : toInt32 sm.reauthTimer.reAuthPeriod ≠ 0 := by
        rcases hstops hlive with hperiod | ⟨hinit, _⟩
        · exact hperiod
        · rw [hs] at hinit
          simp at hinit
      right
      have hwhen : (reauthTimerInitialize sm).1.reAuthWhen ≠ 0 := hperiod
      rw [reauthTimerStep_resets hs, hbefore, frozenTimerLeft,
        if_pos ( timerLive_initialize.mpr hlive), reauthTimerInitialize_state]
      dsimp only
      rw [if_neg hwhen]
      exact Nat.one_pos
  · exact timer_idle_left hlive frozenTimerLeft fun x hx => by rw [frozenTimerLeft, if_neg hx]

theorem reauthTimerStep_stops (hinit : sm.initializing = false) (hlive : TimerLive sm)
    (h : TimerStops sm) : TimerStops (reauthTimerStep sm).1 := by
  rcases h with hperiod | ⟨hs, hwhen⟩
  · obtain ⟨_, _, _, heq⟩ := reauthTimerStep_frame sm
    rw [heq]
    exact .inl hperiod
  · rw [reauthTimerStep_waits hinit hlive hs hwhen]
    exact .inr ⟨hs, hwhen⟩

end Timer

section Pass

structure SameTimer (sm sm' : EapolStateMachine) : Prop where
  initializing : sm'.initializing = sm.initializing
  portControl : sm'.portControl = sm.portControl
  portStatus : sm'.portStatus = sm.portStatus
  reauthTimer : sm'.reauthTimer = sm.reauthTimer
  reAuthWhen : sm'.reAuthWhen = sm.reAuthWhen

/-- What the backend and the key machine have left depends on the same fields. -/
structure SameBackend (sm sm' : EapolStateMachine) : Prop where
  initializing : sm'.initializing = sm.initializing
  portControl : sm'.portControl = sm.portControl
  authAbort : sm'.authAbort = sm.authAbort
  authStart : sm'.authStart = sm.authStart
  beAuth : sm'.beAuth = sm.beAuth
  authKeyTx : sm'.authKeyTx = sm.authKeyTx
  keyAvailable : sm'.keyAvailable = sm.keyAvailable

theorem SameTimer.live (h : SameTimer sm sm') : TimerLive sm' ↔ TimerLive sm :=
  timerLive_congr h.portControl h.portStatus (by rw [h.reauthTimer])

theorem SameTimer.stops (h : SameTimer sm sm') : TimerStops sm' ↔ TimerStops sm := by
  rw [TimerStops, TimerStops, h.reauthTimer, h.reAuthWhen]

theorem SameTimer.frozenTimerLeft (h : SameTimer sm sm') :
    frozenTimerLeft sm' = frozenTimerLeft sm := by
  unfold Dot1x.frozenTimerLeft
  rw [h.reauthTimer, h.reAuthWhen]
  exact if_congr h.live rfl rfl

theorem SameTimer.timerLeft (h : SameTimer sm sm')
    (hasked : sm'.reAuthenticate = sm.reAuthenticate) : timerLeft sm' = timerLeft sm := by
  unfold Dot1x.timerLeft
  rw [h.reauthTimer, h.reAuthWhen, hasked]
  exact if_congr h.live rfl rfl

theorem SameBackend.beLeft (h : SameBackend sm sm') : beLeft sm' = beLeft sm := by
  unfold Dot1x.beLeft
  rw [h.portControl, h.authAbort, h.authStart, h.beAuth]

theorem SameBackend.keyLeft (h : SameBackend sm sm') : keyLeft sm' = keyLeft sm := by
  unfold Dot1x.keyLeft
  rw [h.portControl, h.authKeyTx, h.keyAvailable]

theorem beAuthStep_sameTimer (sm : EapolStateMachine) :
    SameTimer sm (beAuthStep sm).1 ∧ (beAuthStep sm).1.reAuthenticate = sm.reAuthenticate ∧
      (beAuthStep sm).1.authKeyTx = sm.authKeyTx ∧ keyLeft (beAuthStep sm).1 = keyLeft sm := by
  obtain ⟨_, _, _, _, _, _, _, _, heq⟩ := beAuthStep_frame sm
  rw [heq]
  exact ⟨⟨rfl, rfl, rfl, rfl, rfl⟩, rfl, rfl, rfl⟩

theorem reauthTimerStep_sameBackend (sm : EapolStateMachine) :
    SameBackend sm (reauthTimerStep sm).1 := by
  obtain ⟨_, _, _, heq⟩ := reauthTimerStep_frame sm
  rw [heq]
  exact ⟨rfl, rfl, rfl, rfl, rfl, rfl, rfl⟩

theorem authKeyTxStep_same (sm : EapolStateMachine) :
    SameTimer sm (authKeyTxStep sm).1 ∧
      (authKeyTxStep sm).1.reAuthenticate = sm.reAuthenticate ∧
      (authKeyTxStep sm).1.beAuth = sm.beAuth ∧ beLeft (authKeyTxStep sm).1 = beLeft sm := by
  obtain ⟨_, _, heq⟩ := authKeyTxStep_frame sm
  rw [heq]
  exact ⟨⟨rfl, rfl, rfl, rfl, rfl⟩, rfl, rfl, rfl⟩

def EapolStateMachine.restStates (sm : EapolStateMachine) :
    BeAuthState × ReauthTimerState × AuthKeyTxState :=
  (sm.beAuth.state, sm.reauthTimer.state, sm.authKeyTx)

theorem restStep_falls (f : EapolStateMachine → Nat) (hinit : sm.initializing = false)
    (hbe : f (beAuthStep sm).1 = f sm) (hkey : ∀ x, f (authKeyTxStep x).1 = f x)
    (htimer : ∀ x, x = (beAuthStep sm).1 →
      ((reauthTimerStep x).1.reauthTimer.state = x.reauthTimer.state ∧
        f (reauthTimerStep x).1 ≤ f x) ∨ f (reauthTimerStep x).1 < f x) :
    ((restStep sm).restStates = sm.restStates ∧
      beLeft (restStep sm) + keyLeft (restStep sm) + f (restStep sm) ≤
        beLeft sm + keyLeft sm + f sm) ∨
      beLeft (restStep sm) + keyLeft (restStep sm) + f (restStep sm) <
        beLeft sm + keyLeft sm + f sm := by
  obtain ⟨hbeTimer, _, hbeKeyTx, hbeKey⟩ := beAuthStep_sameTimer sm
  have htimerBackend := reauthTimerStep_sameBackend (beAuthStep sm).1
  obtain ⟨hkeyTimer, _, hkeyBe, hkeyLeft⟩ := authKeyTxStep_same (reauthTimerStep (beAuthStep sm).1).1
  have hinit₁ : (beAuthStep sm).1.initializing = false := hbeTimer.initializing.trans hinit
  have hfirst := beAuthStep_left hinit
  have hsecond := htimer _ rfl
  have hthird := authKeyTxStep_left (htimerBackend.initializing.trans hinit₁)
  have htimerBe := htimerBackend.beLeft
  have htimerKey := htimerBackend.keyLeft
  have hlast := hkey (reauthTimerStep (beAuthStep sm).1).1
  unfold restStep
  rcases hfirst with ⟨hsame₁, hle₁⟩ | hlt₁
  · rcases hsecond with ⟨hsame₂, hle₂⟩ | hlt₂
    · rcases hthird with ⟨hsame₃, hle₃⟩ | hlt₃
      · left
        refine ⟨?_, by omega⟩
        rw [EapolStateMachine.restStates, EapolStateMachine.restStates, hkeyBe,
          hkeyTimer.reauthTimer, hsame₃, hsame₂, htimerBackend.beAuth, hsame₁,
          htimerBackend.authKeyTx, hbeKeyTx, hbeTimer.reauthTimer]
      · right; omega
    · right
      rcases hthird with ⟨_, hle₃⟩ | hlt₃ <;> omega
  · right
    rcases hsecond with ⟨_, hle₂⟩ | hlt₂ <;> rcases hthird with ⟨_, hle₃⟩ | hlt₃ <;> omega

def restLeft (sm : EapolStateMachine) : Nat := beLeft sm + keyLeft sm + timerLeft sm

def frozenLeft (sm : EapolStateMachine) : Nat := beLeft sm + keyLeft sm + frozenTimerLeft sm

theorem restStep_left (hinit : sm.initializing = false)
    (hasked : TimerLive sm → sm.reAuthenticate = false) :
    ((restStep sm).restStates = sm.restStates ∧ restLeft (restStep sm) ≤ restLeft sm) ∨
      restLeft (restStep sm) < restLeft sm := by
  obtain ⟨hbeTimer, hbeAsked, _, _⟩ := beAuthStep_sameTimer sm
  refine restStep_falls timerLeft hinit (hbeTimer.timerLeft hbeAsked)
    (fun x => (authKeyTxStep_same x).1.timerLeft (authKeyTxStep_same x).2.1) ?_
  rintro x rfl
  apply reauthTimerStep_left (hbeTimer.initializing.trans hinit)
  intro hlive
  rw [hbeAsked]
  exact hasked (hbeTimer.live.mp hlive)

theorem restStep_frozenLeft (hinit : sm.initializing = false)
    (hstops : TimerLive sm → TimerStops sm) :
    ((restStep sm).restStates = sm.restStates ∧ frozenLeft (restStep sm) ≤ frozenLeft sm) ∨
      frozenLeft (restStep sm) < frozenLeft sm := by
  obtain ⟨hbeTimer, _, _, _⟩ := beAuthStep_sameTimer sm
  refine restStep_falls frozenTimerLeft hinit hbeTimer.frozenTimerLeft
    (fun x => (authKeyTxStep_same x).1.frozenTimerLeft) ?_
  rintro x rfl
  apply reauthTimerStep_frozenLeft (hbeTimer.initializing.trans hinit)
  intro hlive
  exact hbeTimer.stops.mpr (hstops (hbeTimer.live.mp hlive))

/-- What the three machines leave to the authenticator. -/
structure SamePort (sm sm' : EapolStateMachine) : Prop where
  authPae : sm'.authPae = sm.authPae
  initializing : sm'.initializing = sm.initializing
  portControl : sm'.portControl = sm.portControl
  portEnabled : sm'.portEnabled = sm.portEnabled
  portStatus : sm'.portStatus = sm.portStatus
  quietWhile : sm'.quietWhile = sm.quietWhile
  reAuthEnabled : sm'.reauthTimer.reAuthEnabled = sm.reauthTimer.reAuthEnabled

theorem restStep_samePort (sm : EapolStateMachine) : SamePort sm (restStep sm) := by
  obtain ⟨_, _, _, _, _, _, _, _, hbe⟩ := beAuthStep_frame sm
  obtain ⟨_, _, _, htimer⟩ := reauthTimerStep_frame (beAuthStep sm).1
  obtain ⟨_, _, hkey⟩ := authKeyTxStep_frame (reauthTimerStep (beAuthStep sm).1).1
  rw [restStep, hkey, htimer, hbe]
  exact ⟨rfl, rfl, rfl, rfl, rfl, rfl, rfl⟩

theorem restStep_live (sm : EapolStateMachine) : TimerLive (restStep sm) ↔ TimerLive sm :=
  have hport := restStep_samePort sm
  timerLive_congr hport.portControl hport.portStatus hport.reAuthEnabled

theorem restStep_stops (hinit : sm.initializing = false) (hlive : TimerLive sm)
    (h : TimerStops sm) : TimerStops (restStep sm) := by
  obtain ⟨hbeTimer, _, _, _⟩ := beAuthStep_sameTimer sm
  have hkeyTimer := (authKeyTxStep_same (reauthTimerStep (beAuthStep sm).1).1).1
  apply hkeyTimer.stops.mpr
  exact reauthTimerStep_stops (hbeTimer.initializing.trans hinit) (hbeTimer.live.mpr hlive)
    (hbeTimer.stops.mpr h)

end Pass

end OpenwrtMtk.Dot1x
