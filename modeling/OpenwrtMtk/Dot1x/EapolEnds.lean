import OpenwrtMtk.Dot1x.EapolRest

/-!
# When the loop of `eapol_sm_step` ends

From any record. A closed port keeps the timer quiet, and `CONNECTING` gives up after `reAuthMax`
requests of the timer; so the authenticator comes to rest wherever it can move. Where it cannot, an
open port with a period of zero keeps the timer going back and forth.
-/

namespace OpenwrtMtk.Dot1x

open Toolkit

set_option autoImplicit false

-- comparing two machines field by field must not compute the timers
attribute [local irreducible] toInt32

variable {sm sm' : EapolStateMachine} {st : AuthPaeState} {r : Entered}

def StepEnds (sm : EapolStateMachine) : Prop :=
  Rests (fun sm => (eapolSmPass sm).1) EapolStateMachine.states sm

section Loop

theorem stepEnds_iff : StepEnds sm ↔ ∃ n r, eapolSmStep n sm = some r := by
  constructor
  · intro h
    induction h with
    | @now sm hsame =>
      refine ⟨1, eapolSmPass sm, ?_⟩
      rw [eapolSmStep]
      exact if_pos hsame
    | @later sm _ ih =>
      obtain ⟨n, r, hn⟩ := ih
      refine ⟨n + 1, ?_⟩
      rw [eapolSmStep]
      dsimp only
      split
      · exact ⟨_, rfl⟩
      · rw [hn]
        exact ⟨_, rfl⟩
  · rintro ⟨n, r, hn⟩
    induction n generalizing sm r with
    | zero => cases hn
    | succ n ih =>
      rw [eapolSmStep] at hn
      dsimp only at hn
      split at hn
      · exact .now ‹_›
      · obtain ⟨r', hr', _⟩ := Option.map_eq_some_iff.mp hn
        exact .later (ih _ hr')

theorem states_eq (hpae : sm'.authPae.state = sm.authPae.state)
    (hrest : sm'.restStates = sm.restStates) : sm'.states = sm.states := by
  simp only [EapolStateMachine.restStates, Prod.mk.injEq] at hrest
  obtain ⟨hbe, htimer, hkey⟩ := hrest
  rw [EapolStateMachine.states, EapolStateMachine.states, hpae, hbe, htimer, hkey]

theorem ends_after (hpae : authPaeStep sm = r) (h : StepEnds (restStep r.1)) : StepEnds sm := by
  subst hpae
  exact .later h

end Loop

section Moves

/-- `AUTH_PAE` is in its `switch`. -/
structure Running (sm : EapolStateMachine) : Prop where
  initializing : sm.initializing = false
  portEnabled : sm.portEnabled = true
  portMode : sm.authPae.portMode = sm.portControl

theorem Running.step (h : Running sm) : authPaeStep sm = authPaeSwitch sm := by
  simp [authPaeStep, h.initializing, h.portEnabled, h.portMode]

theorem Running.rest (h : Running sm) (hport : SamePort sm sm') : Running sm' :=
  ⟨hport.initializing.trans h.initializing, hport.portEnabled.trans h.portEnabled,
    by rw [hport.authPae, hport.portControl, h.portMode]⟩

structure At (st : AuthPaeState) (sm : EapolStateMachine) : Prop where
  running : Running sm
  reAuthMax : 1 ≤ sm.authPae.reAuthMax
  state : sm.authPae.state = st

theorem At.rest (h : At st sm) : At st (restStep sm) := by
  have hport := restStep_samePort sm
  exact ⟨h.running.rest hport, by rw [hport.authPae]; exact h.reAuthMax,
    by rw [hport.authPae]; exact h.state⟩

/-- What a move of the authenticator leaves: its configuration, the backend and the key machine. -/
structure Moved (st : AuthPaeState) (sm sm' : EapolStateMachine) : Prop where
  state : sm'.authPae.state = st
  portMode : sm'.authPae.portMode = sm.authPae.portMode
  reAuthMax : sm'.authPae.reAuthMax = sm.authPae.reAuthMax
  portEnabled : sm'.portEnabled = sm.portEnabled
  portControl : sm'.portControl = sm.portControl
  initializing : sm'.initializing = sm.initializing

theorem Moved.running (h : Moved st sm sm') (hs : Running sm) : Running sm' :=
  ⟨h.initializing.trans hs.initializing, h.portEnabled.trans hs.portEnabled,
    by rw [h.portMode, h.portControl, hs.portMode]⟩

theorem Moved.at (h : Moved st sm sm') (hs : Running sm) (hmax : 1 ≤ sm.authPae.reAuthMax) :
    At st sm' :=
  ⟨h.running hs, by rw [h.reAuthMax]; exact hmax, h.state⟩

theorem authPaeConnecting_moved (sm : EapolStateMachine) :
    Moved .connecting sm (authPaeConnecting sm).1 ∧ SameBackend sm (authPaeConnecting sm).1 ∧
      SameTimer sm (authPaeConnecting sm).1 ∧ (authPaeConnecting sm).1.reAuthenticate = false ∧
      (authPaeConnecting sm).1.authPae.rxInitialRsp = false ∧
      (authPaeConnecting sm).1.authPae.eapLogoff = sm.authPae.eapLogoff ∧
      (authPaeConnecting sm).1.authPae.reAuthCount = sm.authPae.reAuthCount + 1 := by
  obtain ⟨txWhen, heq⟩ : ∃ txWhen, (authPaeConnecting sm).1 = { sm with
      reAuthenticate := false
      txWhen := txWhen
      authPae := { sm.authPae with
        state := .connecting, eapStart := false, rxInitialRsp := false
        reAuthCount := sm.authPae.reAuthCount + 1 } } := ⟨_, rfl⟩
  rw [heq]
  exact ⟨⟨rfl, rfl, rfl, rfl, rfl, rfl⟩, ⟨rfl, rfl, rfl, rfl, rfl, rfl, rfl⟩,
    ⟨rfl, rfl, rfl, rfl, rfl⟩, rfl, rfl, rfl, rfl⟩

theorem authPaeDisconnected_moved (sm : EapolStateMachine) :
    Moved .disconnected sm (authPaeDisconnected sm).1 ∧
      SameBackend sm (authPaeDisconnected sm).1 ∧
      (authPaeDisconnected sm).1.portStatus = .unauthorized ∧
      (authPaeDisconnected sm).1.reauthTimer = sm.reauthTimer ∧
      (authPaeDisconnected sm).1.reAuthWhen = sm.reAuthWhen ∧
      (authPaeDisconnected sm).1.authPae.eapLogoff = false ∧
      (authPaeDisconnected sm).1.authPae.reAuthCount = 0 :=
  ⟨⟨rfl, rfl, rfl, rfl, rfl, rfl⟩, ⟨rfl, rfl, rfl, rfl, rfl, rfl, rfl⟩, rfl, rfl, rfl, rfl, rfl⟩

theorem authPaeHeld_moved (sm : EapolStateMachine) :
    Moved .held sm (authPaeHeld sm).1 ∧ (authPaeHeld sm).1.portStatus = .unauthorized := by
  obtain ⟨quietWhile, heq⟩ : ∃ quietWhile, (authPaeHeld sm).1 = { sm with
      portStatus := .unauthorized
      quietWhile := quietWhile
      currentId := sm.currentId + 1
      authPae := { sm.authPae with state := .held, eapLogoff := false } } := ⟨_, rfl⟩
  rw [heq]
  exact ⟨⟨rfl, rfl, rfl, rfl, rfl, rfl⟩, rfl⟩

end Moves

section Closed

/-- The port is closed, and the authenticator only waits for a station. -/
structure Closed (sm : EapolStateMachine) : Prop where
  running : Running sm
  reAuthMax : 1 ≤ sm.authPae.reAuthMax
  portStatus : sm.portStatus = .unauthorized
  state : sm.authPae.state = .disconnected ∨
    sm.authPae.state = .connecting ∧ sm.authPae.rxInitialRsp = false

theorem Closed.rest (h : Closed sm) : Closed (restStep sm) := by
  have hport := restStep_samePort sm
  refine ⟨h.running.rest hport, ?_, hport.portStatus.trans h.portStatus, ?_⟩
  · rw [hport.authPae]; exact h.reAuthMax
  · rw [hport.authPae]; exact h.state

theorem Closed.not_live (h : Closed sm) : ¬TimerLive sm := by
  intro hlive
  have hopen := hlive.2.1
  rw [h.portStatus] at hopen
  cases hopen

/-- The changes of the authenticator of a closed port: from `DISCONNECTED` it connects, and gives
up at once while a logoff or too many requests are left over. -/
def paeLeft (sm : EapolStateMachine) : Nat :=
  if sm.authPae.state = .disconnected then
    if sm.authPae.eapLogoff ∨ sm.authPae.reAuthMax ≤ sm.authPae.reAuthCount then 3 else 1
  else if sm.authPae.eapLogoff ∨ sm.authPae.reAuthMax < sm.authPae.reAuthCount then 2 else 0

theorem paeLeft_le (sm : EapolStateMachine) : paeLeft sm ≤ 3 := by
  unfold paeLeft
  split <;> split <;> omega

theorem Closed.pae (h : Closed sm) :
    Closed (authPaeStep sm).1 ∧ SameBackend sm (authPaeStep sm).1 ∧
      SameTimer sm (authPaeStep sm).1 ∧
      ((authPaeStep sm).1.authPae.state = sm.authPae.state ∨
        paeLeft (authPaeStep sm).1 < paeLeft sm) := by
  have hmax := h.reAuthMax
  rw [h.running.step, authPaeSwitch]
  rcases h.state with hs | ⟨hs, hrx⟩
  · obtain ⟨hmoved, hback, htimer, _, hrx, hlogoff, hcount⟩ := authPaeConnecting_moved sm
    have hat := hmoved.at h.running h.reAuthMax
    rw [hs]
    refine ⟨⟨hat.running, hat.reAuthMax, htimer.portStatus.trans h.portStatus,
      .inr ⟨hat.state, hrx⟩⟩, hback, htimer, .inr ?_⟩
    unfold paeLeft
    rw [hmoved.state, hs, hlogoff, hcount, hmoved.reAuthMax]
    simp only [Nat.lt_succ_iff, if_true, reduceCtorEq, if_false]
    split <;> omega
  · rw [hs]
    dsimp only
    split
    · rename_i hgive
      obtain ⟨hmoved, hback, hclosed, htimer, hwhen, hlogoff, hcount⟩ :=
        authPaeDisconnected_moved sm
      have hat := hmoved.at h.running h.reAuthMax
      refine ⟨⟨hat.running, hat.reAuthMax, hclosed, .inl hat.state⟩, hback,
        ⟨hmoved.initializing, hmoved.portControl, hclosed.trans h.portStatus.symm, htimer, hwhen⟩,
        .inr ?_⟩
      unfold paeLeft
      rw [hmoved.state, hs, hlogoff, hcount, hmoved.reAuthMax]
      simp only [if_true, reduceCtorEq, if_false, if_pos hgive, Bool.false_eq_true, false_or]
      rw [if_neg (by omega)]
      exact Nat.lt_succ_self 1
    · rw [hrx]
      simp only [Bool.false_eq_true, false_and, if_false]
      split
      · obtain ⟨hmoved, hback, htimer, _, hrx', _, _⟩ := authPaeConnecting_moved sm
        have hat := hmoved.at h.running h.reAuthMax
        exact ⟨⟨hat.running, hat.reAuthMax, htimer.portStatus.trans h.portStatus,
          .inr ⟨hat.state, hrx'⟩⟩, hback, htimer, .inl hat.state⟩
      · exact ⟨h, ⟨rfl, rfl, rfl, rfl, rfl, rfl, rfl⟩, ⟨rfl, rfl, rfl, rfl, rfl⟩, .inl hs⟩

theorem paeLeft_rest (sm : EapolStateMachine) : paeLeft (restStep sm) = paeLeft sm := by
  rw [paeLeft, paeLeft, (restStep_samePort sm).authPae]

theorem SameBackend.frozenLeft (hback : SameBackend sm sm') (htimer : SameTimer sm sm') :
    frozenLeft sm' = frozenLeft sm := by
  rw [Dot1x.frozenLeft, Dot1x.frozenLeft, hback.beLeft, hback.keyLeft, htimer.frozenTimerLeft]

theorem closed_ends (h : Closed sm) : StepEnds sm := by
  refine rests_of_rank Closed (fun sm => 4 * frozenLeft sm + paeLeft sm) (fun sm hs => ?_) h
  obtain ⟨hclosed, hback, htimer, hpae⟩ := hs.pae
  have hrest := restStep_frozenLeft hclosed.running.initializing
    fun hlive => absurd hlive hclosed.not_live
  rw [hback.frozenLeft htimer] at hrest
  have hbound := paeLeft_le (restStep (authPaeStep sm).1)
  rw [eapolSmPass_rest]
  rcases hrest with ⟨hsame, hle⟩ | hlt
  · rcases hpae with hstate | hfalls
    · left
      apply states_eq
      · rw [(restStep_samePort _).authPae, hstate]
      · rw [hsame, EapolStateMachine.restStates, EapolStateMachine.restStates, hback.beAuth,
          htimer.reauthTimer, hback.authKeyTx]
    · right; right
      refine ⟨hclosed.rest, ?_⟩
      rw [paeLeft_rest]
      omega
  · right; right
    exact ⟨hclosed.rest, by omega⟩

theorem disconnected_closed (hs : Running sm) (hmax : 1 ≤ sm.authPae.reAuthMax) :
    StepEnds (restStep (authPaeDisconnected sm).1) := by
  obtain ⟨hmoved, _, hclosed, _⟩ := authPaeDisconnected_moved sm
  have hat := hmoved.at hs hmax
  have hafter : Closed (authPaeDisconnected sm).1 :=
    ⟨hat.running, hat.reAuthMax, hclosed, .inl hat.state⟩
  exact closed_ends hafter.rest

end Closed

section Connecting

/-- An open port may ask for a reauthentication as often as `reAuthMax` allows. -/
structure Connecting (sm : EapolStateMachine) : Prop extends At .connecting sm where
  rxInitialRsp : sm.authPae.rxInitialRsp = false

theorem Connecting.rest (h : Connecting sm) : Connecting (restStep sm) :=
  ⟨h.toAt.rest, by rw [(restStep_samePort sm).authPae]; exact h.rxInitialRsp⟩

def connectingLeft (sm : EapolStateMachine) : Nat :=
  restLeft sm + 3 * (sm.authPae.reAuthMax + 1 - sm.authPae.reAuthCount)

theorem connecting_ends (h : Connecting sm) : StepEnds sm := by
  refine rests_of_rank Connecting connectingLeft (fun sm hs => ?_) h
  have hstep := hs.running.step
  rw [authPaeSwitch, hs.state, hs.rxInitialRsp] at hstep
  simp only [Bool.false_eq_true, false_and, if_false] at hstep
  rw [eapolSmPass_rest]
  split at hstep
  · right; left
    rw [hstep]
    exact disconnected_closed hs.running hs.reAuthMax
  · rename_i hkeep
    simp only [not_or, Nat.not_lt] at hkeep
    split at hstep
    · obtain ⟨hmoved, hback, htimer, hasked, hrx, _, hcount⟩ := authPaeConnecting_moved sm
      have hnext : Connecting (authPaeConnecting sm).1 := ⟨hmoved.at hs.running hs.reAuthMax, hrx⟩
      have hrest := restStep_left hnext.running.initializing fun _ => hasked
      have htimer := timerLeft_le (authPaeConnecting sm).1
      right; right
      rw [hstep]
      refine ⟨hnext.rest, ?_⟩
      unfold connectingLeft
      rw [(restStep_samePort _).authPae, hmoved.reAuthMax, hcount]
      have hafter : restLeft (authPaeConnecting sm).1 ≤ restLeft sm + 2 := by
        unfold restLeft
        rw [hback.beLeft, hback.keyLeft]
        omega
      rcases hrest with ⟨_, hle⟩ | hlt <;> omega
    · rename_i hquiet
      have hasked : sm.reAuthenticate = false := by
        cases hre : sm.reAuthenticate with
        | false => rfl
        | true => exact absurd ⟨.inr (.inr hre), hkeep.2⟩ hquiet
      rw [hstep]
      dsimp only
      rcases restStep_left hs.running.initializing (fun _ => hasked) with ⟨hsame, _⟩ | hlt
      · left
        exact states_eq (by rw [(restStep_samePort sm).authPae]) hsame
      · right; right
        refine ⟨hs.rest, ?_⟩
        unfold connectingLeft
        rw [(restStep_samePort sm).authPae]
        omega

theorem connecting_after (hs : Running sm) (hmax : 1 ≤ sm.authPae.reAuthMax) :
    StepEnds (restStep (authPaeConnecting sm).1) := by
  obtain ⟨hmoved, _, _, _, hrx, _⟩ := authPaeConnecting_moved sm
  have hafter : Connecting (authPaeConnecting sm).1 := ⟨hmoved.at hs hmax, hrx⟩
  exact connecting_ends hafter.rest

end Connecting

section Waiting

theorem stays_ends {st : AuthPaeState}
    (hpae : ∀ sm, At st sm → StepEnds (restStep (authPaeStep sm).1) ∨
      authPaeStep sm = (sm, []) ∧ sm.reAuthenticate = false) (h : At st sm) : StepEnds sm := by
  refine rests_of_rank (At st) restLeft (fun sm hs => ?_) h
  rw [eapolSmPass_rest]
  rcases hpae sm hs with hends | ⟨hstep, hasked⟩
  · right; left
    exact hends
  · rw [hstep]
    rcases restStep_left hs.running.initializing (fun _ => hasked) with ⟨hsame, _⟩ | hlt
    · left
      exact states_eq (by rw [(restStep_samePort sm).authPae]) hsame
    · right; right
      exact ⟨hs.rest, hlt⟩

theorem init_ends (h : At .init sm) : StepEnds sm := by
  apply ends_after (r := authPaeDisconnected sm)
  · rw [h.running.step, authPaeSwitch, h.state]
  · exact disconnected_closed h.running h.reAuthMax

theorem disconnected_ends (h : At .disconnected sm) : StepEnds sm := by
  apply ends_after (r := authPaeConnecting sm)
  · rw [h.running.step, authPaeSwitch, h.state]
  · exact connecting_after h.running h.reAuthMax

theorem authenticated_ends (h : At .authenticated sm) : StepEnds sm := by
  apply stays_ends _ h
  intro sm hs
  rw [hs.running.step, authPaeSwitch, hs.state]
  dsimp only
  split
  · exact .inl (connecting_after hs.running hs.reAuthMax)
  · rename_i hquiet
    split
    · exact .inl (disconnected_closed hs.running hs.reAuthMax)
    · simp only [not_or, Bool.not_eq_true] at hquiet
      exact .inr ⟨rfl, hquiet.2⟩

theorem aborted_ends (h : At .aborting sm) (habort : sm.authAbort = false) : StepEnds sm := by
  have hstep := h.running.step
  rw [authPaeSwitch, h.state, habort] at hstep
  simp only [Bool.false_eq_true, not_false_eq_true, and_true] at hstep
  split at hstep
  · exact ends_after hstep (disconnected_closed h.running h.reAuthMax)
  · exact ends_after hstep (connecting_after h.running h.reAuthMax)

theorem restStep_aborted (h : sm.authAbort = true) : (restStep sm).authAbort = false := by
  have hbe : beAuthStep sm = beAuthInitialize sm := by
    rw [beAuthStep, if_pos (.inr (.inr h))]
  have htimer := reauthTimerStep_sameBackend (beAuthStep sm).1
  obtain ⟨_, _, hkey⟩ := authKeyTxStep_frame (reauthTimerStep (beAuthStep sm).1).1
  rw [restStep, hkey]
  exact htimer.authAbort.trans (by rw [hbe]; rfl)

theorem aborting_ends (h : At .aborting sm) : StepEnds sm := by
  cases habort : sm.authAbort with
  | false => exact aborted_ends h habort
  | true =>
    apply ends_after (r := (sm, []))
    · rw [h.running.step, authPaeSwitch, h.state, habort]
      simp
    · exact aborted_ends h.rest (restStep_aborted habort)

end Waiting

end OpenwrtMtk.Dot1x
