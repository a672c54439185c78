import OpenwrtMtk.Dot1x.Authenticator

/-!
# Runs of the EAPOL authenticator

A potential falls with every round of `eapol_sm_step` that changes a state, so the loop ends, and
the safety of single steps becomes one of runs.
-/

namespace OpenwrtMtk.Dot1x

open Toolkit

set_option autoImplicit false

-- comparing two machines field by field must not compute the timers
attribute [local irreducible] toInt32

section Potential

variable {sm : EapolStateMachine} {log : List Moment}

/-- Nothing moves the authenticator out of `CONNECTING` until something happens. -/
def Fresh (sm : EapolStateMachine) : Prop :=
  sm.authPae.reAuthCount ≤ 2 ∧ sm.authPae.eapLogoff = false ∧ sm.authPae.rxInitialRsp = false ∧
    sm.authPae.eapStart = false ∧ sm.txWhen ≠ 0 ∧ sm.reAuthenticate = false ∧
    sm.portStatus = .unauthorized

instance (sm : EapolStateMachine) : Decidable (Fresh sm) := inferInstanceAs (Decidable (_ ∧ _))

def paeRank (sm : EapolStateMachine) : Nat :=
  match sm.authPae.state with
  | .init => 2
  | .disconnected => 1
  | .connecting =>
    if sm.authPae.rxInitialRsp then 20
    else if Fresh sm then 0 else 2 + (3 - sm.authPae.reAuthCount)
  | .authenticating => 15
  | .authenticated | .aborting | .held => 10
  | .forceAuth | .forceUnauth => 0

def beRank (sm : EapolStateMachine) : Nat :=
  match sm.beAuth.state with
  | .idle => 0
  | .init => 1
  | .success | .fail | .timeout => 2
  | .request => if sm.beAuth.rxResp then 8 else 4
  | .response => if sm.beAuth.aReq then if sm.beAuth.rxResp then 9 else 5 else 3

def timerRank (sm : EapolStateMachine) : Nat :=
  match sm.reauthTimer.state with
  | .init => 1
  | .reauthenticate => 0

def keyRank (sm : EapolStateMachine) : Nat :=
  (if sm.keyAvailable then 2 else 0) + if sm.authKeyTx = .keyTransmit then 1 else 0

def potential (sm : EapolStateMachine) : Nat :=
  20 * paeRank sm + beRank sm + timerRank sm + keyRank sm

theorem potential_le (sm : EapolStateMachine) : potential sm ≤ 413 := by
  have hpae : paeRank sm ≤ 20 := by
    unfold paeRank
    cases sm.authPae.state <;> dsimp only <;> (repeat' split) <;> omega
  have hbe : beRank sm ≤ 9 := by
    unfold beRank
    cases sm.beAuth.state <;> dsimp only <;> (repeat' split) <;> omega
  have htimer : timerRank sm ≤ 1 := by
    unfold timerRank
    cases sm.reauthTimer.state <;> simp
  have hkey : keyRank sm ≤ 3 := by
    unfold keyRank
    split <;> split <;> omega
  unfold potential
  omega

theorem paeRank_le (hs : sm.authPae.state = .connecting) (hrsp : sm.authPae.rxInitialRsp = false) :
    paeRank sm ≤ 2 + (3 - sm.authPae.reAuthCount) := by
  unfold paeRank
  rw [hs]
  simp only [hrsp, Bool.false_eq_true, if_false]
  split <;> omega

theorem paeRank_fresh (hs : sm.authPae.state = .connecting) (hfresh : Fresh sm) :
    paeRank sm = 0 := by
  unfold paeRank
  rw [hs]
  simp only [hfresh.2.2.1, Bool.false_eq_true, if_false, if_pos hfresh]

theorem paeRank_restless (hs : sm.authPae.state = .connecting) (hrestless : ¬Fresh sm) :
    2 + (3 - sm.authPae.reAuthCount) ≤ paeRank sm := by
  unfold paeRank
  rw [hs]
  dsimp only
  rw [if_neg hrestless]
  split <;> omega

theorem paeRank_connecting (sm : EapolStateMachine) :
    paeRank (authPaeConnecting sm).1 ≤ 2 + (3 - (sm.authPae.reAuthCount + 1)) :=
  paeRank_le rfl rfl

theorem paeRank_reconnected (h : Steady log sm) (hs : sm.authPae.state = .disconnected) :
    paeRank (authPaeConnecting sm).1 = 0 := by
  obtain ⟨hcount, hlogoff⟩ := h.disconnected hs
  have hclosed : sm.portStatus = .unauthorized := by
    cases hport : sm.portStatus with
    | unauthorized => rfl
    | authorized => simpa [hs] using h.opened hport
  have htimer : toInt32 30 ≠ 0 := by
    unfold toInt32
    decide
  apply paeRank_fresh rfl
  simp [Fresh, authPaeConnecting, hcount, hlogoff, hclosed, h.txPeriod, htimer]

theorem authPaeStep_rank (h : Steady log sm) :
    authPaeStep sm = (sm, []) ∧ (sm.reAuthenticate = false ∨ sm.portStatus = .unauthorized) ∨
      paeRank (authPaeStep sm).1 < paeRank sm := by
  have hcases := authPaeStep_cases h.toWired
  generalize authPaeStep sm = r at hcases ⊢
  cases hcases with
  | start hs =>
    right
    simp [paeRank, authPaeDisconnected, hs]
  | connect hs =>
    right
    rw [paeRank_reconnected h hs]
    simp [paeRank, hs]
  | release hs =>
    right
    have hle := paeRank_connecting sm
    have hrank : paeRank sm = 10 := by simp [paeRank, hs]
    omega
  | hold hs =>
    left
    refine ⟨rfl, .inr ?_⟩
    cases hport : sm.portStatus with
    | unauthorized => rfl
    | authorized => simpa [hs] using h.opened hport
  | giveUp hs hwhy =>
    right
    have hle := paeRank_restless hs fun hfresh => by
      rcases hwhy with hlogoff | hcount
      · simp [hfresh.2.1] at hlogoff
      · have := hfresh.1
        omega
    have hrank : paeRank (authPaeDisconnected sm).1 = 1 := by simp [paeRank, authPaeDisconnected]
    omega
  | engage hs hrsp =>
    right
    have hrank : paeRank sm = 20 := by simp [paeRank, hs, hrsp]
    have hnext : paeRank (authPaeAuthenticating sm).1 = 15 := by
      simp [paeRank, authPaeAuthenticating]
    omega
  | again hs hcount hwhy =>
    right
    have hle := paeRank_restless hs fun hfresh => by
      rcases hwhy with htx | hstart | hreauth
      · exact hfresh.2.2.2.2.1 htx
      · simp [hfresh.2.2.2.1] at hstart
      · simp [hfresh.2.2.2.2.2.1] at hreauth
    have hnext := paeRank_connecting sm
    omega
  | expect hs hno => exact .inl ⟨rfl, .inl hno⟩
  | reconnect hs =>
    right
    have hle := paeRank_connecting sm
    have hrank : paeRank sm = 10 := by simp [paeRank, hs]
    omega
  | depart hs =>
    right
    simp [paeRank, authPaeDisconnected, hs]
  | remain hs hno => exact .inl ⟨rfl, .inl hno⟩
  | succeed hs =>
    right
    simp [paeRank, authPaeAuthenticated, hs]
  | fail hs =>
    right
    simp [paeRank, authPaeHeld, hs]
  | abort hs =>
    right
    simp [paeRank, authPaeAborting, hs]
  | wait hs _ _ _ hno => exact .inl ⟨rfl, .inl hno⟩
  | dropOut hs =>
    right
    simp [paeRank, authPaeDisconnected, hs]
  | retry hs =>
    right
    have hle := paeRank_connecting sm
    have hrank : paeRank sm = 10 := by simp [paeRank, hs]
    omega
  | aborting hs habort =>
    have hdone : sm.authAbort = false := (h.phase.of_aborting hs).2
    simp [hdone] at habort
  | forced _ hs =>
    rcases hs with hs | hs
    · exact absurd hs h.phase.not_forced.1
    · exact absurd hs h.phase.not_forced.2

theorem beAuthStep_rank (hw : Wired sm) :
    beRank (beAuthStep sm).1 < beRank sm ∨
      (beAuthStep sm).1.beAuth.state = sm.beAuth.state ∧ beRank (beAuthStep sm).1 = beRank sm ∨
      (sm.authAbort = true ∨ sm.beAuth.state = .idle ∧ sm.authStart = true) ∧
        beRank (beAuthStep sm).1 ≤ 3 := by
  have hcases := beAuthStep_cases hw
  generalize beAuthStep sm = r at hcases ⊢
  cases hcases with
  | abort habort => exact .inr (.inr ⟨.inl habort, by simp [beRank, beAuthInitialize]⟩)
  | finish _ hbe =>
    left
    simp only [List.mem_cons, List.not_mem_nil, or_false] at hbe
    rcases hbe with hbe | hbe | hbe | hbe <;> simp [beRank, beAuthIdle, hbe]
  | ask _ hbe =>
    right
    left
    cases hrsp : sm.beAuth.rxResp <;> simp [beRank, beAuthRequest, hbe, hrsp]
  | forward _ hbe hrsp =>
    left
    simp [beRank, beAuthResponse, hbe, hrsp]
  | noAnswer _ hbe hno =>
    left
    simp [beRank, beAuthTimeout, hbe, hno]
  | expect => exact .inr (.inl ⟨rfl, rfl⟩)
  | challenge _ hbe hreq =>
    left
    cases hrsp : sm.beAuth.rxResp <;> simp [beRank, beAuthRequest, hbe, hreq, hrsp]
  | noServer _ hbe hno =>
    left
    simp [beRank, beAuthTimeout, hbe, hno]
  | fail _ hbe _ hno =>
    left
    simp [beRank, beAuthFail, hbe, hno]
  | succeed _ hbe _ hno =>
    left
    simp [beRank, beAuthSuccess, hbe, hno]
  | wait => exact .inr (.inl ⟨rfl, rfl⟩)
  | engage _ hbe hstart =>
    right
    right
    exact ⟨.inr ⟨hbe, hstart⟩, by simp [beRank, beAuthResponse]⟩
  | rest => exact .inr (.inl ⟨rfl, rfl⟩)

theorem reauthTimerStep_rank (hw : Wired sm) :
    timerRank (reauthTimerStep sm).1 < timerRank sm ∨
      (reauthTimerStep sm).1.reauthTimer.state = sm.reauthTimer.state ∧
        timerRank (reauthTimerStep sm).1 = timerRank sm ∨
      sm.reauthTimer.state = .reauthenticate ∧ timerRank (reauthTimerStep sm).1 ≤ 1 := by
  have hcases := reauthTimerStep_cases hw
  generalize reauthTimerStep sm = r at hcases ⊢
  cases hcases with
  | init =>
    cases hs : sm.reauthTimer.state with
    | init =>
      right
      left
      simp [timerRank, reauthTimerInitialize, hs]
    | reauthenticate => exact .inr (.inr ⟨rfl, by simp [timerRank, reauthTimerInitialize]⟩)
  | fire _ hs =>
    left
    simp [timerRank, reauthTimerReauthenticate, hs]
  | wait => exact .inr (.inl ⟨rfl, rfl⟩)

theorem authKeyTxStep_rank (hw : Wired sm) :
    keyRank (authKeyTxStep sm).1 < keyRank sm ∨ authKeyTxStep sm = (sm, []) := by
  have hcases := authKeyTxStep_cases hw
  generalize authKeyTxStep sm = r at hcases ⊢
  cases hcases with
  | transmit hkey =>
    left
    simp only [keyRank, authKeyTxKeyTransmit, hkey, if_true, Bool.false_eq_true, if_false]
    omega
  | stop hs =>
    left
    cases hkey : sm.keyAvailable <;> simp [keyRank, authKeyTxNoKeyTransmit, hs, hkey]
  | stay => exact .inr rfl

theorem paeRank_congr {sm' : EapolStateMachine} (h : SparesPae sm sm')
    (hreauth : sm'.reAuthenticate = sm.reAuthenticate ∨ sm.portStatus = .authorized) :
    paeRank sm' = paeRank sm := by
  have hfresh : Fresh sm' ↔ Fresh sm := by
    unfold Fresh
    rw [h.authPae, h.txWhen, h.portStatus]
    rcases hreauth with hre | hport
    · rw [hre]
    · simp [hport]
  unfold paeRank
  simp only [h.authPae, hfresh]

theorem beRank_congr {sm' : EapolStateMachine} (h : sm'.beAuth = sm.beAuth) :
    beRank sm' = beRank sm := by
  simp only [beRank, h]

theorem timerRank_congr {sm' : EapolStateMachine} (h : sm'.reauthTimer = sm.reauthTimer) :
    timerRank sm' = timerRank sm := by
  simp only [timerRank, h]

theorem keyRank_congr {sm' : EapolStateMachine} (h : sm'.keyAvailable = sm.keyAvailable)
    (h' : sm'.authKeyTx = sm.authKeyTx) : keyRank sm' = keyRank sm := by
  simp only [keyRank, h, h']

/-- Each rank of a round is the rank after the machine's own move. -/
theorem potential_pass (h : Steady log sm) :
    potential (eapolSmPass sm).1 =
      20 * paeRank (authPaeStep sm).1 + beRank (beAuthStep (authPaeStep sm).1).1 +
        timerRank (reauthTimerStep (beAuthStep (authPaeStep sm).1).1).1 +
        keyRank (authKeyTxStep (reauthTimerStep (beAuthStep (authPaeStep sm).1).1).1).1 := by
  have hpae := authPaeStep_wired_after h.toWired h.phase
  obtain ⟨hbeSpares, hbeReauth, _⟩ := beAuthStep_spares hpae
  have hbe := hbeSpares.wired hpae
  obtain ⟨htimerSpares, _, htimerBe, _⟩ := reauthTimerStep_spares hbe
  have htimer := htimerSpares.wired hbe
  obtain ⟨hkeySpares, _, hkeyBe, hkeyTimer, hkeyReauth, _⟩ := authKeyTxStep_spares htimer
  have hfire := reauthTimerStep_asks hbe
  rw [eapolSmPass_fst]
  have hrank : paeRank (authKeyTxStep (reauthTimerStep (beAuthStep (authPaeStep sm).1).1).1).1 =
      paeRank (authPaeStep sm).1 :=
    (paeRank_congr hkeySpares (.inl hkeyReauth)).trans
      ((paeRank_congr htimerSpares hfire).trans (paeRank_congr hbeSpares (.inl hbeReauth)))
  unfold potential
  rw [hrank, beRank_congr (hkeyBe.trans htimerBe), timerRank_congr hkeyTimer]

theorem potential_falls (h : Steady log sm) (hchanged : (eapolSmPass sm).1.states ≠ sm.states) :
    potential (eapolSmPass sm).1 < potential sm := by
  rw [potential_pass h]
  have hpae := authPaeStep_wired_after h.toWired h.phase
  obtain ⟨hbeSame, htimerSame, hkeySame, hkeySame'⟩ := authPaeStep_spares h.toWired h.phase
  obtain ⟨hbeSpares, _, hbeTimer, hbeKey, hbeKey'⟩ := beAuthStep_spares hpae
  have hbe := hbeSpares.wired hpae
  obtain ⟨htimerSpares, _, htimerBe, htimerKey, htimerKey', _⟩ := reauthTimerStep_spares hbe
  have htimer := htimerSpares.wired hbe
  have hbeStart : beRank (authPaeStep sm).1 = beRank sm := beRank_congr hbeSame
  have htimerStart : timerRank (beAuthStep (authPaeStep sm).1).1 = timerRank sm :=
    timerRank_congr (hbeTimer.trans htimerSame)
  have hkeyStart : keyRank (reauthTimerStep (beAuthStep (authPaeStep sm).1).1).1 = keyRank sm :=
    keyRank_congr (htimerKey.trans (hbeKey.trans hkeySame))
      (htimerKey'.trans (hbeKey'.trans hkeySame'))
  have hbeFalls := beAuthStep_rank hpae
  have htimerFalls := reauthTimerStep_rank hbe
  have hkeyFalls := authKeyTxStep_rank htimer
  rw [hbeStart] at hbeFalls
  rw [htimerStart, hbeTimer, htimerSame] at htimerFalls
  rw [hkeyStart] at hkeyFalls
  have hkeyLe : keyRank (authKeyTxStep (reauthTimerStep (beAuthStep (authPaeStep sm).1).1).1).1 ≤
      keyRank sm := by
    rcases hkeyFalls with hlt | hsame
    · omega
    · rw [hsame]
      exact Nat.le_of_eq hkeyStart
  have hrank : potential sm = 20 * paeRank sm + beRank sm + timerRank sm + keyRank sm := rfl
  rcases authPaeStep_rank h with ⟨hstay, hcalm⟩ | hfalls
  · -- nobody has started or aborted the backend, and no reauthentication is due
    have hreauth : sm.reauthTimer.state ≠ .reauthenticate := by
      intro hs
      obtain ⟨hyes, hport⟩ := h.reauth hs
      rcases hcalm with hno | hno
      · exact absurd (hyes.symm.trans hno) (by simp)
      · exact absurd (hport.symm.trans hno) (by simp)
    have hquiet : ¬((authPaeStep sm).1.authAbort = true ∨
        (authPaeStep sm).1.beAuth.state = .idle ∧ (authPaeStep sm).1.authStart = true) := by
      rw [hstay]
      exact h.phase.calm
    have hpaeRank : paeRank (authPaeStep sm).1 = paeRank sm := by rw [hstay]
    have hpaeState : (eapolSmPass sm).1.authPae = sm.authPae := by
      rw [eapolSmPass_pae h.toWired h.phase, hstay]
    have hbeFalls' := hbeFalls.imp_right fun hmore => hmore.resolve_right fun hs => hquiet hs.1
    have htimerFalls' := htimerFalls.imp_right fun hmore =>
      hmore.resolve_right fun hs => hreauth hs.1
    rcases hbeFalls' with hlt | ⟨hbeState, hbeRank⟩
    · rcases htimerFalls' with hlt' | ⟨_, htimerRank⟩ <;> omega
    · rcases htimerFalls' with hlt' | ⟨htimerState, htimerRank⟩
      · omega
      · rcases hkeyFalls with hlt'' | hkeyStay
        · omega
        · -- no rank falls, and no state has changed
          apply absurd _ hchanged
          have hpaeState := eapolSmPass_pae h.toWired h.phase
          rw [hstay] at hpaeState
          rw [eapolSmPass_fst] at hpaeState ⊢
          simp only [EapolStateMachine.states, hpaeState]
          rw [hkeyStay]
          dsimp only
          rw [htimerBe, hbeState, hbeSame, htimerState, htimerKey', hbeKey', hkeySame']
  · omega

end Potential

/-- The machines of a new station: `eapol_sm_alloc`, and the port enabled. -/
def eapolSmAlloc (quietInterval : Nat) (sessionTimeout : Option Nat) (rounds : Nat) :
    Option EapolStateMachine :=
  (eapolSmInitialize (eapolSmDefaults quietInterval sessionTimeout) rounds).map
    fun (sm, _) => { sm with portEnabled := true }

section Runs

variable {sm : EapolStateMachine} {log : List Moment}

theorem eapolSmAlloc_eq (quietInterval : Nat) (sessionTimeout : Option Nat) (n : Nat) :
    eapolSmAlloc quietInterval sessionTimeout (n + 2) =
      some { eapolSmDefaults quietInterval sessionTimeout with
        reAuthWhen := toInt32 (sessionTimeout.getD 3600)
        portEnabled := true
        authPae := ⟨false, false, .auto, 0, false, quietInterval, 2, 30, .init⟩
        beAuth := ⟨0, false, false, false, false, 0, 30, 30, 2, .idle⟩ } := rfl

theorem eapolSmAlloc_rested (quietInterval : Nat) (sessionTimeout : Option Nat) (n : Nat) :
    ∃ start, eapolSmAlloc quietInterval sessionTimeout (n + 2) = some start ∧ Rested [] start := by
  refine ⟨_, eapolSmAlloc_eq quietInterval sessionTimeout n, ?_⟩
  generalize toInt32 (sessionTimeout.getD 3600) = period
  constructor
  · refine ⟨⟨rfl, rfl, rfl, rfl, rfl, rfl, rfl⟩, ?_, ?_, ?_, ?_, always_nil⟩
    · intro hport
      cases hport
    · intro hs
      cases hs
    · intro hs
      cases hs
    · exact .quiet (by simp [EapolStateMachine.view, resting]) rfl rfl rfl
  · intro hs
    cases hs
  · simp [Coupled]

theorem rested_of_alloc {quietInterval : Nat} {sessionTimeout : Option Nat} {rounds : Nat}
    {start : EapolStateMachine}
    (h : eapolSmAlloc quietInterval sessionTimeout rounds = some start) :
    Rested [] start ∧ start.beAuth.state = .idle := by
  rcases rounds with _ | _ | n
  · cases h
  · cases h
  · obtain ⟨start', halloc, hstart⟩ := eapolSmAlloc_rested quietInterval sessionTimeout n
    rw [h, Option.some.injEq] at halloc
    refine ⟨halloc ▸ hstart, ?_⟩
    rw [eapolSmAlloc_eq, Option.some.injEq] at h
    rw [← h]

theorem machineStep_total (h : Rested log sm) (n : Nat) (e : SmEvent) :
    ∃ r, machineStep (n + 414) sm e = some r := by
  have hfew := potential_le (e.apply sm)
  obtain ⟨r, hr⟩ := eapolSmRounds_total (n := n + 414) (fun sm => ∃ log, Steady log sm)
    (fun sm hs => hs.elim fun log hs => ⟨_, eapolSmPass_steady hs⟩)
    (fun sm hs hchanged => hs.elim fun log hs => potential_falls hs hchanged)
    ⟨_, h.apply e⟩ (by omega)
  exact ⟨_, by rw [machineStep, hr]; rfl⟩

theorem machine_run (h : Rested log sm) (n : Nat) (events : List SmEvent) :
    ∃ t, exec (traceStep (machineStep (n + 414))) ⟨sm, log⟩ events = some t ∧
      Rested t.log t.state := by
  induction events generalizing sm log with
  | nil => exact ⟨⟨sm, log⟩, rfl, h⟩
  | cons e events ih =>
    obtain ⟨⟨last, more⟩, hstep⟩ := machineStep_total h n e
    obtain ⟨t, hrun, ht⟩ := ih (h.step hstep)
    refine ⟨t, ?_, ht⟩
    rw [exec, traceStep, hstep]
    exact hrun

end Runs

/-- After every `eapol_sm_step` the authenticator and the backend agree, and at every point of the
log where the port opens an accept has come after the last message to the server and after
`AUTHENTICATING` was entered. -/
theorem port_opens_after_accept (quietInterval : Nat) (sessionTimeout : Option Nat) (n : Nat)
    (events : List SmEvent) :
    ∃ start t, eapolSmAlloc quietInterval sessionTimeout (n + 414) = some start ∧
      exec (traceStep (machineStep (n + 414))) ⟨start, []⟩ events = some t ∧
      Coupled t.state ∧
      ∀ before x after, t.log = before ++ x :: after → x.Authorizes → Accepted before := by
  obtain ⟨start, halloc, hstart⟩ := eapolSmAlloc_rested quietInterval sessionTimeout (n + 412)
  obtain ⟨t, hrun, ht⟩ := machine_run hstart n events
  exact ⟨start, t, halloc, hrun, ht.coupled, ht.cleared⟩

end OpenwrtMtk.Dot1x
