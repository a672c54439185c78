import OpenwrtMtk.Dot1x.EapolEnds

/-!
# When `eapol_sm_step` does not end

Where the authenticator cannot move, an open port with a reauthentication period of zero keeps the
timer going back and forth; everywhere else the loop ends.
-/

namespace OpenwrtMtk.Dot1x

open Toolkit

set_option autoImplicit false

-- comparing two machines field by field must not compute the timers
attribute [local irreducible] toInt32

variable {sm sm' : EapolStateMachine}

section Frozen

/-- An invariant under which the authenticator moves nothing that the others look at. -/
structure Freezes (K : EapolStateMachine → Prop) : Prop where
  initializing : ∀ sm, K sm → sm.initializing = false
  keeps : ∀ sm, K sm → K (restStep (authPaeStep sm).1)
  state : ∀ sm, K sm → (authPaeStep sm).1.authPae.state = sm.authPae.state
  backend : ∀ sm, K sm → SameBackend sm (authPaeStep sm).1
  timer : ∀ sm, K sm → SameTimer sm (authPaeStep sm).1

variable {K : EapolStateMachine → Prop}

theorem Freezes.stops (hK : Freezes K) (h : K sm) (hstops : TimerLive sm → TimerStops sm) :
    TimerLive (restStep (authPaeStep sm).1) → TimerStops (restStep (authPaeStep sm).1) := by
  intro hlive
  have htimer := hK.timer sm h
  have hlive₁ := (restStep_live _).mp hlive
  exact restStep_stops (htimer.initializing.trans (hK.initializing sm h)) hlive₁
    (htimer.stops.mpr (hstops (htimer.live.mp hlive₁)))

theorem frozen_ends (hK : Freezes K) (h : K sm) (hstops : TimerLive sm → TimerStops sm) :
    StepEnds sm := by
  refine rests_of_rank (fun sm => K sm ∧ (TimerLive sm → TimerStops sm)) frozenLeft
    (fun sm hs => ?_) ⟨h, hstops⟩
  obtain ⟨hk, hstops⟩ := hs
  have htimer := hK.timer sm hk
  have hback := hK.backend sm hk
  have hrest := restStep_frozenLeft (htimer.initializing.trans (hK.initializing sm hk))
    fun hlive => htimer.stops.mpr (hstops (htimer.live.mp hlive))
  rw [hback.frozenLeft htimer] at hrest
  rw [eapolSmPass_rest]
  rcases hrest with ⟨hsame, _⟩ | hlt
  · left
    apply states_eq
    · rw [(restStep_samePort _).authPae, hK.state sm hk]
    · rw [hsame, EapolStateMachine.restStates, EapolStateMachine.restStates, hback.beAuth,
        htimer.reauthTimer, hback.authKeyTx]
  · right; right
    exact ⟨⟨hK.keeps sm hk, hK.stops hk hstops⟩, hlt⟩

theorem reauthTimerStep_swings (hinit : sm.initializing = false) (hlive : TimerLive sm)
    (hstops : ¬TimerStops sm) :
    (reauthTimerStep sm).1.reauthTimer.state ≠ sm.reauthTimer.state ∧
      ¬TimerStops (reauthTimerStep sm).1 := by
  unfold TimerStops at hstops
  simp only [not_or, not_and, not_not] at hstops
  obtain ⟨hperiod, hwhen⟩ := hstops
  cases hs : sm.reauthTimer.state with
  | init =>
    rw [reauthTimerStep_fires hinit hlive hs (hwhen hs)]
    refine ⟨by simp [reauthTimerReauthenticate], ?_⟩
    simp [TimerStops, reauthTimerReauthenticate, hperiod]
  | reauthenticate =>
    rw [reauthTimerStep_resets hs]
    refine ⟨by simp [reauthTimerInitialize], ?_⟩
    simp [TimerStops, reauthTimerInitialize, hperiod]

theorem restStep_swings (hinit : sm.initializing = false) (hlive : TimerLive sm)
    (hstops : ¬TimerStops sm) :
    (restStep sm).reauthTimer.state ≠ sm.reauthTimer.state ∧ ¬TimerStops (restStep sm) := by
  obtain ⟨hbeTimer, _, _, _⟩ := beAuthStep_sameTimer sm
  have hkeyTimer := (authKeyTxStep_same (reauthTimerStep (beAuthStep sm).1).1).1
  have hswings := reauthTimerStep_swings (hbeTimer.initializing.trans hinit)
    (hbeTimer.live.mpr hlive) (mt hbeTimer.stops.mp hstops)
  refine ⟨?_, mt hkeyTimer.stops.mp hswings.2⟩
  rw [restStep, hkeyTimer.reauthTimer, ← hbeTimer.reauthTimer]
  exact hswings.1

/-- Whatever the authenticator does, a pass in which the timer does not stop changes its state. -/
theorem pass_swings (htimer : SameTimer sm (authPaeStep sm).1) (hinit : sm.initializing = false)
    (hlive : TimerLive sm) (hstops : ¬TimerStops sm) :
    (eapolSmPass sm).1.states ≠ sm.states ∧ TimerLive (eapolSmPass sm).1 ∧
      ¬TimerStops (eapolSmPass sm).1 := by
  rw [eapolSmPass_rest]
  obtain ⟨hstate, hstops'⟩ := restStep_swings (htimer.initializing.trans hinit)
    (htimer.live.mpr hlive) (mt htimer.stops.mp hstops)
  refine ⟨fun hsame => hstate ?_, (restStep_live _).mpr (htimer.live.mpr hlive), hstops'⟩
  simp only [EapolStateMachine.states, Prod.mk.injEq] at hsame
  rw [htimer.reauthTimer]
  exact hsame.2.2.1

theorem frozen_swings (hK : Freezes K) (h : K sm) (hlive : TimerLive sm)
    (hstops : ¬TimerStops sm) : ¬StepEnds sm := by
  refine never_rests (fun sm => K sm ∧ TimerLive sm ∧ ¬TimerStops sm) (fun sm hs => ?_)
    (fun sm hs => ?_) ⟨h, hlive, hstops⟩
  · obtain ⟨hk, hlive, hstops⟩ := hs
    have hswings := pass_swings (hK.timer sm hk) (hK.initializing sm hk) hlive hstops
    exact ⟨hK.keeps sm hk, hswings.2⟩
  · obtain ⟨hk, hlive, hstops⟩ := hs
    exact (pass_swings (hK.timer sm hk) (hK.initializing sm hk) hlive hstops).1

theorem frozen_iff (hK : Freezes K) (h : K sm) :
    StepEnds sm ↔ (TimerLive sm → TimerStops sm) := by
  refine ⟨fun hends hlive => ?_, frozen_ends hK h⟩
  by_contra hstops
  exact frozen_swings hK h hlive hstops hends

/-- A state that only a timer or a frame can end. -/
structure Parked (sm : EapolStateMachine) : Prop where
  running : Running sm
  state : sm.authPae.state = .held ∧ sm.quietWhile ≠ 0 ∨
    (sm.authPae.state = .forceAuth ∨ sm.authPae.state = .forceUnauth) ∧ sm.authPae.eapStart = false

theorem Parked.step (h : Parked sm) : authPaeStep sm = (sm, []) := by
  rw [h.running.step, authPaeSwitch]
  rcases h.state with ⟨hs, hquiet⟩ | ⟨hs | hs, hstart⟩
  · rw [hs]
    exact if_neg hquiet
  · rw [hs, hstart]
    simp
  · rw [hs, hstart]
    simp

theorem Parked.rest (h : Parked sm) : Parked (restStep sm) := by
  have hport := restStep_samePort sm
  refine ⟨h.running.rest hport, ?_⟩
  rw [hport.authPae, hport.quietWhile]
  exact h.state

theorem parked_freezes : Freezes Parked where
  initializing _ h := h.running.initializing
  keeps sm h := by rw [h.step]; exact h.rest
  state sm h := by rw [h.step]
  backend sm h := by rw [h.step]; exact ⟨rfl, rfl, rfl, rfl, rfl, rfl, rfl⟩
  timer sm h := by rw [h.step]; exact ⟨rfl, rfl, rfl, rfl, rfl⟩

/-- The port is disabled. -/
structure Disabled (sm : EapolStateMachine) : Prop where
  initializing : sm.initializing = false
  portEnabled : sm.portEnabled = false

theorem Disabled.step (h : Disabled sm) : authPaeStep sm = authPaeInitialize sm := by
  rw [authPaeStep, if_pos (.inr (.inr (by simp [h.portEnabled])))]

theorem Disabled.rest (h : Disabled sm) : Disabled (restStep (authPaeStep sm).1) := by
  have hport := restStep_samePort (authPaeStep sm).1
  rw [h.step] at hport ⊢
  exact ⟨hport.initializing.trans h.initializing, hport.portEnabled.trans h.portEnabled⟩

theorem authPaeInitialize_same (sm : EapolStateMachine) :
    SameBackend sm (authPaeInitialize sm).1 ∧ SameTimer sm (authPaeInitialize sm).1 :=
  ⟨⟨rfl, rfl, rfl, rfl, rfl, rfl, rfl⟩, ⟨rfl, rfl, rfl, rfl, rfl⟩⟩

theorem disabled_freezes :
    Freezes fun sm => Disabled sm ∧ sm.authPae.state = .init where
  initializing _ h := h.1.initializing
  keeps sm h := by
    refine ⟨h.1.rest, ?_⟩
    rw [(restStep_samePort _).authPae, h.1.step]
    rfl
  state sm h := by rw [h.1.step, h.2]; rfl
  backend sm h := by rw [h.1.step]; exact (authPaeInitialize_same sm).1
  timer sm h := by rw [h.1.step]; exact (authPaeInitialize_same sm).2

theorem disabled_iff (h : Disabled sm) : StepEnds sm ↔ (TimerLive sm → TimerStops sm) := by
  have htimer : SameTimer sm (authPaeStep sm).1 := by
    rw [h.step]
    exact (authPaeInitialize_same sm).2
  have hinit₁ : (authPaeStep sm).1.initializing = false := htimer.initializing.trans h.initializing
  have hnext : Disabled (restStep (authPaeStep sm).1) ∧
      (restStep (authPaeStep sm).1).authPae.state = .init := by
    refine ⟨h.rest, ?_⟩
    rw [(restStep_samePort _).authPae, h.step]
    rfl
  have hiff := frozen_iff disabled_freezes hnext
  constructor
  · intro hends hlive
    by_contra hstops
    have hswings := pass_swings htimer h.initializing hlive hstops
    rw [eapolSmPass_rest] at hswings
    cases hends with
    | now hsame => exact hswings.1 hsame
    | later hrest => exact hswings.2.2 (hiff.mp hrest hswings.2.1)
  · intro hstops
    refine .later (hiff.mpr fun hlive => ?_)
    have hlive₁ := (restStep_live _).mp hlive
    exact restStep_stops hinit₁ hlive₁ (htimer.stops.mpr (hstops (htimer.live.mp hlive₁)))

end Frozen

section States

theorem held_ends (h : At .held sm) (hstops : TimerLive sm → TimerStops sm) : StepEnds sm := by
  by_cases hquiet : sm.quietWhile = 0
  · apply ends_after (r := authPaeConnecting sm)
    · rw [h.running.step, authPaeSwitch, h.state]
      exact if_pos hquiet
    · exact connecting_after h.running h.reAuthMax
  · exact frozen_ends parked_freezes ⟨h.running, .inl ⟨h.state, hquiet⟩⟩ hstops

theorem held_after (hs : Running sm) (hmax : 1 ≤ sm.authPae.reAuthMax) :
    StepEnds (restStep (authPaeHeld sm).1) := by
  obtain ⟨hmoved, hclosed⟩ := authPaeHeld_moved sm
  have hat : At .held (authPaeHeld sm).1 := hmoved.at hs hmax
  apply held_ends hat.rest
  intro hlive
  have hopen := ((restStep_live _).mp hlive).2.1
  rw [hclosed] at hopen
  cases hopen

theorem authenticating_ends (h : At .authenticating sm) : StepEnds sm := by
  apply stays_ends _ h
  intro sm hs
  rw [hs.running.step, authPaeSwitch, hs.state]
  dsimp only
  split
  · have hmoved : Moved .authenticated sm (authPaeAuthenticated sm).1 :=
      ⟨rfl, rfl, rfl, rfl, rfl, rfl⟩
    exact .inl (authenticated_ends (hmoved.at hs.running hs.reAuthMax).rest)
  · split
    · exact .inl (held_after hs.running hs.reAuthMax)
    · split
      · have hmoved : Moved .aborting sm (authPaeAborting sm).1 := ⟨rfl, rfl, rfl, rfl, rfl, rfl⟩
        exact .inl (aborting_ends (hmoved.at hs.running hs.reAuthMax).rest)
      · rename_i hquiet
        simp only [not_or, Bool.not_eq_true] at hquiet
        exact .inr ⟨rfl, hquiet.1⟩

theorem connecting_state_ends (h : At .connecting sm) : StepEnds sm := by
  cases hrx : sm.authPae.rxInitialRsp with
  | false => exact connecting_ends ⟨h, hrx⟩
  | true =>
    have hstep := h.running.step
    rw [authPaeSwitch, h.state, hrx] at hstep
    dsimp only at hstep
    split at hstep
    · exact ends_after hstep (disconnected_closed h.running h.reAuthMax)
    · rename_i hkeep
      rw [if_pos ⟨rfl, Nat.le_of_not_lt fun hlt => hkeep (.inr hlt)⟩] at hstep
      have hmoved : Moved .authenticating sm (authPaeAuthenticating sm).1 :=
        ⟨rfl, rfl, rfl, rfl, rfl, rfl⟩
      exact ends_after hstep (authenticating_ends (hmoved.at h.running h.reAuthMax).rest)

theorem mismatch_ends (hinit : sm.initializing = false) (henabled : sm.portEnabled = true)
    (hmode : sm.authPae.portMode ≠ sm.portControl)
    (hmax : 1 ≤ sm.authPae.reAuthMax ∨ sm.portControl ≠ .auto) : StepEnds sm := by
  cases hcontrol : sm.portControl with
  | auto =>
    rw [hcontrol] at hmode
    apply ends_after (r := authPaeInitialize sm)
    · rw [authPaeStep, hcontrol, if_pos (.inl ⟨rfl, hmode⟩)]
    · have hat : At .init (authPaeInitialize sm).1 :=
        ⟨⟨hinit, henabled, hcontrol.symm⟩, hmax.resolve_right (not_not.mpr hcontrol), rfl⟩
      exact init_ends hat.rest
  | forceAuthorized =>
    rw [hcontrol] at hmode
    apply ends_after (r := authPaeForceAuth sm)
    · simp [authPaeStep, hcontrol, hmode, hinit, henabled]
    · have hafter : Parked (authPaeForceAuth sm).1 :=
        ⟨⟨hinit, henabled, hcontrol.symm⟩, .inr ⟨.inl rfl, rfl⟩⟩
      apply frozen_ends parked_freezes hafter.rest
      intro hlive
      have hauto : sm.portControl = .auto := ((restStep_live _).mp hlive).1
      rw [hcontrol] at hauto
      cases hauto
  | forceUnauthorized =>
    rw [hcontrol] at hmode
    apply ends_after (r := authPaeForceUnauth sm)
    · simp [authPaeStep, hcontrol, hmode, hinit, henabled]
    · have hafter : Parked (authPaeForceUnauth sm).1 :=
        ⟨⟨hinit, henabled, hcontrol.symm⟩, .inr ⟨.inr rfl, rfl⟩⟩
      apply frozen_ends parked_freezes hafter.rest
      intro hlive
      have hauto : sm.portControl = .auto := ((restStep_live _).mp hlive).1
      rw [hcontrol] at hauto
      cases hauto

theorem forced_after (mode : PortTypes) (hs : Running sm) (hmax : 1 ≤ sm.authPae.reAuthMax)
    (hafter : sm'.initializing = sm.initializing ∧ sm'.portEnabled = sm.portEnabled ∧
      sm'.portControl = sm.portControl ∧ sm'.authPae.reAuthMax = sm.authPae.reAuthMax ∧
      sm'.authPae.eapStart = false ∧ sm'.authPae.portMode = mode)
    (hmode : mode ≠ .auto)
    (hstate : sm'.authPae.state = .forceAuth ∨ sm'.authPae.state = .forceUnauth) :
    StepEnds sm' := by
  obtain ⟨hinit, henabled, hcontrol, hmax', hstart, hmode'⟩ := hafter
  by_cases hfits : sm'.authPae.portMode = sm'.portControl
  · have hparked : Parked sm' :=
      ⟨⟨hinit.trans hs.initializing, henabled.trans hs.portEnabled, hfits⟩, .inr ⟨hstate, hstart⟩⟩
    apply frozen_ends parked_freezes hparked
    intro hlive
    exact absurd (hmode'.symm.trans (hfits.trans hlive.1)) hmode
  · exact mismatch_ends (hinit.trans hs.initializing) (henabled.trans hs.portEnabled) hfits
      (.inl (by rw [hmax']; exact hmax))

theorem forced_started_ends (hs : Running sm) (hmax : 1 ≤ sm.authPae.reAuthMax)
    (hstate : sm.authPae.state = .forceAuth ∨ sm.authPae.state = .forceUnauth)
    (hstart : sm.authPae.eapStart = true) : StepEnds sm := by
  have hkept : ∀ x : EapolStateMachine, SamePort x (restStep x) := restStep_samePort
  rcases hstate with hstate | hstate
  · apply ends_after (r := authPaeForceAuth sm)
    · rw [hs.step, authPaeSwitch, hstate, hstart]
      rfl
    · have hport := hkept (authPaeForceAuth sm).1
      refine forced_after .forceAuthorized hs hmax ⟨hport.initializing, hport.portEnabled,
        hport.portControl, ?_, ?_, ?_⟩ (by simp) (.inl ?_) <;>
        rw [hport.authPae] <;> rfl
  · apply ends_after (r := authPaeForceUnauth sm)
    · rw [hs.step, authPaeSwitch, hstate, hstart]
      rfl
    · have hport := hkept (authPaeForceUnauth sm).1
      refine forced_after .forceUnauthorized hs hmax ⟨hport.initializing, hport.portEnabled,
        hport.portControl, ?_, ?_, ?_⟩ (by simp) (.inr ?_) <;>
        rw [hport.authPae] <;> rfl

theorem initializing_timer (h : sm.initializing = true) :
    ∃ period, (authKeyTxStep (reauthTimerStep sm).1).1 = { sm with
      reAuthWhen := period
      reauthTimer := { sm.reauthTimer with state := .init }
      authKeyTx := .noKeyTransmit } := by
  obtain ⟨period, hperiod⟩ : ∃ period, (reauthTimerInitialize sm).1 = { sm with
      reAuthWhen := period
      reauthTimer := { sm.reauthTimer with state := .init } } := ⟨_, rfl⟩
  refine ⟨period, ?_⟩
  rw [reauthTimerStep, if_pos (.inr (.inl h)), hperiod, authKeyTxStep, if_pos (.inl h)]
  rfl

theorem initializing_pass (h : sm.initializing = true) :
    (eapolSmPass sm).1.states = (.init, .init, .init, .noKeyTransmit) ∧
      (eapolSmPass sm).1.initializing = true := by
  have hpae : authPaeStep sm = authPaeInitialize sm := by
    rw [authPaeStep, if_pos (.inr (.inl h))]
  have hbe : beAuthStep (authPaeInitialize sm).1 = beAuthInitialize (authPaeInitialize sm).1 := by
    rw [beAuthStep, if_pos (.inr (.inl h))]
  obtain ⟨period, heq⟩ := initializing_timer
    (show (beAuthInitialize (authPaeInitialize sm).1).1.initializing = true from h)
  rw [eapolSmPass_rest, hpae, restStep, hbe, heq]
  exact ⟨rfl, h⟩

theorem initializing_ends (h : sm.initializing = true) : StepEnds sm := by
  obtain ⟨hfirst, hinit⟩ := initializing_pass h
  exact .later (.now ((initializing_pass hinit).1.trans hfirst.symm))

end States

section Main

/-- `AUTH_PAE` is given its state from outside: the machines are initialized, the port is disabled
or its mode is being forced. -/
def Driven (sm : EapolStateMachine) : Prop :=
  sm.initializing = true ∨ sm.portEnabled = false ∨
    sm.portControl ≠ .auto ∧ sm.authPae.portMode ≠ sm.portControl

/-- `AUTH_PAE` waits for something that no pass brings about. -/
def PaeWaits (sm : EapolStateMachine) : Prop :=
  sm.portEnabled = false ∨
    sm.authPae.portMode = sm.portControl ∧
      (sm.authPae.state = .held ∧ sm.quietWhile ≠ 0 ∨
        (sm.authPae.state = .forceAuth ∨ sm.authPae.state = .forceUnauth) ∧
          sm.authPae.eapStart = false)

def Oscillates (sm : EapolStateMachine) : Prop :=
  sm.initializing = false ∧ sm.portControl = .auto ∧ sm.portStatus = .authorized ∧
    sm.reauthTimer.reAuthEnabled = true ∧ toInt32 sm.reauthTimer.reAuthPeriod = 0 ∧
    (sm.reauthTimer.state = .reauthenticate ∨ sm.reAuthWhen = 0) ∧ PaeWaits sm

theorem not_stops_iff : ¬TimerStops sm ↔ toInt32 sm.reauthTimer.reAuthPeriod = 0 ∧
    (sm.reauthTimer.state = .reauthenticate ∨ sm.reAuthWhen = 0) := by
  unfold TimerStops
  cases sm.reauthTimer.state <;> simp

theorem oscillates_iff : Oscillates sm ↔
    sm.initializing = false ∧ (TimerLive sm ∧ ¬TimerStops sm) ∧ PaeWaits sm := by
  rw [not_stops_iff, TimerLive, Oscillates]
  simp only [and_assoc]

theorem running_ends (hs : Running sm) (hmax : 1 ≤ sm.authPae.reAuthMax)
    (hwaits : ¬PaeWaits sm) : StepEnds sm := by
  simp only [PaeWaits, hs.portEnabled, hs.portMode, not_or, true_and, not_and, not_not] at hwaits
  obtain ⟨_, hheld, hforced⟩ := hwaits
  cases hstate : sm.authPae.state with
  | init => exact init_ends ⟨hs, hmax, hstate⟩
  | disconnected => exact disconnected_ends ⟨hs, hmax, hstate⟩
  | connecting => exact connecting_state_ends ⟨hs, hmax, hstate⟩
  | authenticating => exact authenticating_ends ⟨hs, hmax, hstate⟩
  | authenticated => exact authenticated_ends ⟨hs, hmax, hstate⟩
  | aborting => exact aborting_ends ⟨hs, hmax, hstate⟩
  | held =>
    apply ends_after (r := authPaeConnecting sm)
    · rw [hs.step, authPaeSwitch, hstate]
      exact if_pos (hheld hstate)
    · exact connecting_after hs hmax
  | forceAuth =>
    exact forced_started_ends hs hmax (.inl hstate)
      (Bool.not_eq_false _ ▸ hforced (.inl hstate))
  | forceUnauth =>
    exact forced_started_ends hs hmax (.inr hstate)
      (Bool.not_eq_false _ ▸ hforced (.inr hstate))

/-- With at least one attempt the loop ends, unless the timer oscillates. -/
theorem eapol_sm_step_ends (hmax : 1 ≤ sm.authPae.reAuthMax ∨ Driven sm) :
    (∃ n r, eapolSmStep n sm = some r) ↔ ¬Oscillates sm := by
  rw [← stepEnds_iff, oscillates_iff]
  cases hinit : sm.initializing with
  | true => exact ⟨fun _ h => absurd h.1 (by simp), fun _ => initializing_ends hinit⟩
  | false =>
    cases henabled : sm.portEnabled with
    | false =>
      rw [disabled_iff ⟨hinit, henabled⟩]
      simp [PaeWaits, henabled]
    | true =>
      by_cases hmode : sm.authPae.portMode = sm.portControl
      · have hrunning : Running sm := ⟨hinit, henabled, hmode⟩
        have hmax' : 1 ≤ sm.authPae.reAuthMax := by
          apply hmax.resolve_right
          simp [Driven, hinit, henabled, hmode]
        by_cases hwaits : PaeWaits sm
        · have hstate := hwaits.resolve_left (by simp [henabled])
          rw [frozen_iff parked_freezes ⟨hrunning, hstate.2⟩]
          simp [hwaits]
        · exact ⟨fun _ h => hwaits h.2.2, fun _ => running_ends hrunning hmax' hwaits⟩
      · have hforced : Driven sm → sm.portControl ≠ .auto := by
          simp only [Driven, hinit, henabled, Bool.false_eq_true, Bool.true_eq_false, false_or]
          exact fun h => h.1
        have hends := mismatch_ends hinit henabled hmode (hmax.imp_right hforced)
        refine ⟨fun _ h => ?_, fun _ => hends⟩
        rcases h.2.2 with hno | hwaits
        · rw [henabled] at hno
          cases hno
        · exact hmode hwaits.1

theorem eapol_sm_step_ends_defaults :
    (∃ n r, eapolSmStep n (eapolSmDefaults 60 none) = some r) ↔
      ¬Oscillates (eapolSmDefaults 60 none) :=
  eapol_sm_step_ends (.inl (by decide))

end Main

section NoAttempts

/-- Without an attempt `CONNECTING` gives up on entry, and `DISCONNECTED` connects again. -/
structure Hopeless (sm : EapolStateMachine) : Prop where
  running : Running sm
  reAuthMax : sm.authPae.reAuthMax = 0
  state : sm.authPae.state = .disconnected ∨
    sm.authPae.state = .connecting ∧ 0 < sm.authPae.reAuthCount

theorem Hopeless.rest (h : Hopeless sm) : Hopeless (restStep sm) := by
  have hport := restStep_samePort sm
  exact ⟨h.running.rest hport, by rw [hport.authPae]; exact h.reAuthMax,
    by rw [hport.authPae]; exact h.state⟩

theorem Hopeless.pae (h : Hopeless sm) :
    Hopeless (authPaeStep sm).1 ∧ (authPaeStep sm).1.authPae.state ≠ sm.authPae.state := by
  rw [h.running.step, authPaeSwitch]
  rcases h.state with hs | ⟨hs, hcount⟩
  · obtain ⟨hmoved, _, _, _, _, _, hcount⟩ := authPaeConnecting_moved sm
    rw [hs]
    dsimp only
    refine ⟨⟨hmoved.running h.running, hmoved.reAuthMax.trans h.reAuthMax,
      .inr ⟨hmoved.state, by omega⟩⟩, ?_⟩
    rw [hmoved.state]
    simp
  · obtain ⟨hmoved, _⟩ := authPaeDisconnected_moved sm
    rw [hs]
    dsimp only
    rw [if_pos (.inr (by rw [h.reAuthMax]; exact hcount))]
    refine ⟨⟨hmoved.running h.running, hmoved.reAuthMax.trans h.reAuthMax, .inl hmoved.state⟩, ?_⟩
    rw [hmoved.state]
    simp

theorem hopeless_never_ends (h : Hopeless sm) : ¬StepEnds sm := by
  refine never_rests Hopeless (fun sm hs => ?_) (fun sm hs => ?_) h
  · rw [eapolSmPass_rest]
    exact hs.pae.1.rest
  · intro hsame
    rw [eapolSmPass_rest] at hsame
    simp only [EapolStateMachine.states, Prod.mk.injEq] at hsame
    rw [(restStep_samePort _).authPae] at hsame
    exact hs.pae.2 hsame.1

theorem eapol_sm_step_may_not_end :
    ¬∀ sm : EapolStateMachine, ∃ n r, eapolSmStep n sm = some r := by
  intro hall
  let sm : EapolStateMachine := { eapolSmDefaults 60 none with
    portEnabled := true
    authPae := ⟨false, false, .auto, 0, false, 60, 0, 30, .disconnected⟩ }
  have hopeless : Hopeless sm := ⟨⟨rfl, rfl, rfl⟩, rfl, .inl rfl⟩
  exact hopeless_never_ends hopeless (stepEnds_iff.mpr (hall sm))

end NoAttempts

end OpenwrtMtk.Dot1x
