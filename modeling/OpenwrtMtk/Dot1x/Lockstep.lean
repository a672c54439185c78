import OpenwrtMtk.Dot1x.AuthenticatorRun
import OpenwrtMtk.Dot1x.Station

/-!
# The lock step of EAP

A response is to be forwarded only if it came after the request with the current identifier was sent
and carries that identifier. A response that arrives while the server is being waited for is kept,
and answers the next request before the station has seen it.
-/

namespace OpenwrtMtk.Dot1x

open Toolkit

set_option autoImplicit false

namespace Talk

/-- `BE_AUTH` enters `REQUEST` for another request than before. -/
def NewRequest : Talk → Prop
  | .response _ => False
  | .move m _ _ => m.before.beAuth.state ≠ .request ∧ m.after.beAuth.state = .request

def Requests (id : U8) : Talk → Prop
  | .response _ => False
  | .move m _ radius => Action.txReq id ∈ m.actions ∧ m.after.beAuth.state = .request ∧ radius ≠ none

/-- `BE_AUTH` enters `RESPONSE` from `REQUEST`. -/
def Forwards : Talk → Prop
  | .response _ => False
  | .move m _ _ => m.before.beAuth.state = .request ∧ m.after.beAuth.state = .response

/-- `last_eap_supp` and `currentId` at a move. -/
def forwarded : Talk → Option (List U8) × U8
  | .response _ => (none, 0)
  | .move m supp _ => (supp, m.before.currentId)

end Talk

def Asked (id : U8) (log : List Talk) : Prop := Since (fun _ x => x.Requests id) Talk.NewRequest log

def Answered (packet : Option (List U8)) (id : U8) (log : List Talk) : Prop :=
  ∃ eap, packet = some eap ∧ eap.getD 1 0 = id ∧
    Since (fun before x => x = .response eap ∧ Asked id before) Talk.NewRequest log

def InStep (before : List Talk) (x : Talk) : Prop :=
  x.Forwards → Answered x.forwarded.1 x.forwarded.2 before

section Moves

variable {sm : EapolStateMachine} {log : List Talk} {supp radius : Option (List U8)}

/-- The backend's part of the conversation, as far as the authenticator has not aborted it. -/
structure Locked (log : List Talk) (supp radius : Option (List U8)) (sm : EapolStateMachine) :
    Prop where
  asked : sm.beAuth.state = .request → sm.authAbort = false →
    sm.currentId = sm.beAuth.idFromServer ∧ radius ≠ none ∧ Asked sm.currentId log
  answered : sm.beAuth.state = .request → sm.authAbort = false → sm.beAuth.rxResp = true →
    Answered supp sm.currentId log
  clean : sm.beAuth.state = .response → sm.beAuth.aReq = true →
    sm.beAuth.rxResp = false ∧ radius ≠ none
  inStep : Always InStep log

theorem Asked.snoc {id : U8} {x : Talk} (h : Asked id log) (hx : ¬x.NewRequest) :
    Asked id (log ++ [x]) :=
  Since.snoc h hx

theorem Answered.snoc {id : U8} {x : Talk} (h : Answered supp id log) (hx : ¬x.NewRequest) :
    Answered supp id (log ++ [x]) := by
  obtain ⟨eap, hsupp, hid, hsince⟩ := h
  exact ⟨eap, hsupp, hid, hsince.snoc hx⟩

theorem Locked.spared {m : Move} (h : Locked log supp radius m.before)
    (hbe : m.after.beAuth = m.before.beAuth)
    (hid : m.before.beAuth.state = .request → m.after.authAbort = false →
      m.after.currentId = m.before.currentId ∧ m.before.authAbort = false) :
    Locked (log ++ [.move m supp radius]) supp radius m.after := by
  have hnew : ¬(Talk.move m supp radius).NewRequest := by
    rintro ⟨hno, hyes⟩
    rw [hbe] at hyes
    exact hno hyes
  refine ⟨?_, ?_, ?_, always_snoc h.inStep ?_⟩
  · intro hs habort
    rw [hbe] at hs ⊢
    obtain ⟨hsame, hbefore⟩ := hid hs habort
    obtain ⟨hcurrent, hradius, hasked⟩ := h.asked hs hbefore
    rw [hsame]
    exact ⟨hcurrent, hradius, hasked.snoc hnew⟩
  · intro hs habort hrsp
    rw [hbe] at hs hrsp
    obtain ⟨hsame, hbefore⟩ := hid hs habort
    rw [hsame]
    exact (h.answered hs hbefore hrsp).snoc hnew
  · rw [hbe]
    exact h.clean
  · rintro ⟨hrequest, hresponse⟩
    rw [hbe, hrequest] at hresponse
    cases hresponse

theorem authPaeStep_exchange {accepted : Prop} (hw : Wired sm) (h : Phase accepted sm.view)
    (hbe : sm.beAuth.state = .request ∨ sm.beAuth.state = .response) :
    authPaeStep sm = (sm, []) ∨ (authPaeStep sm).1.authAbort = true := by
  have hview : sm.view.be = .request ∨ sm.view.be = .response := hbe
  obtain ⟨hpae, hsuccess, hfail⟩ := h.of_exchange hview
  have hs : sm.authPae.state = .authenticating := hpae
  have hcases := authPaeStep_cases hw
  generalize authPaeStep sm = r at hcases ⊢
  cases hcases with
  | succeed _ hyes => exact absurd (hyes.symm.trans hsuccess) (by simp)
  | fail _ _ hyes => exact absurd (hyes.symm.trans hfail) (by simp)
  | abort => exact .inr rfl
  | wait => exact .inl rfl
  | forced _ hother => rcases hother with hother | hother <;> simp [hs] at hother
  | _ hother => simp [hs] at hother

theorem locked_pae {accepted : Prop} (hw : Wired sm) (hp : Phase accepted sm.view)
    (h : Locked log supp radius sm) :
    Locked (log ++ [.move (moveOf authPaeStep sm) supp radius]) supp radius (authPaeStep sm).1 := by
  apply h.spared (m := moveOf authPaeStep sm) (authPaeStep_spares hw hp).1
  intro hs habort
  rcases authPaeStep_exchange hw hp (.inl hs) with hstay | hyes
  · simp only [moveOf] at habort ⊢
    rw [hstay] at habort ⊢
    exact ⟨rfl, habort⟩
  · exact absurd (hyes.symm.trans habort) (by simp)

theorem Locked.left {m : Move} (h : Locked log supp radius m.before)
    (hbe : m.after.beAuth.state ≠ .request)
    (hclean : m.after.beAuth.state = .response → m.after.beAuth.aReq = false)
    (hstep : InStep log (.move m supp radius)) :
    Locked (log ++ [.move m supp radius]) supp radius m.after := by
  refine ⟨?_, ?_, ?_, always_snoc h.inStep hstep⟩
  · intro hs
    exact absurd hs hbe
  · intro hs
    exact absurd hs hbe
  · intro hs hreq
    exact absurd (hreq.symm.trans (hclean hs)) (by simp)

theorem inStep_of_ne {m : Move} (h : m.after.beAuth.state ≠ .response) :
    InStep log (.move m supp radius) :=
  fun hx => absurd hx.2 h

theorem locked_be (hw : Wired sm) (h : Locked log supp radius sm) :
    Locked (log ++ [.move (moveOf beAuthStep sm) supp radius]) supp radius (beAuthStep sm).1 := by
  have hcases := beAuthStep_cases hw
  unfold moveOf
  generalize beAuthStep sm = r at hcases ⊢
  cases hcases with
  | ask habort hs =>
    obtain ⟨hcurrent, hradius, hasked⟩ := h.asked hs habort
    have hnew : ¬(Talk.move ⟨sm, (beAuthRequest sm).1, (beAuthRequest sm).2⟩ supp radius).NewRequest :=
      fun hx => hx.1 hs
    refine ⟨?_, ?_, ?_, always_snoc h.inStep (inStep_of_ne (by simp [beAuthRequest]))⟩
    · intro _ _
      refine ⟨rfl, hradius, ?_⟩
      rw [hcurrent] at hasked
      exact hasked.snoc hnew
    · intro _ _ hrsp
      have hans := h.answered hs habort hrsp
      rw [hcurrent] at hans
      exact hans.snoc hnew
    · intro hresponse
      simp [beAuthRequest] at hresponse
  | forward habort hs hrsp =>
    apply h.left (m := ⟨sm, (beAuthResponse sm).1, (beAuthResponse sm).2⟩)
    · simp [beAuthResponse]
    · intro _
      rfl
    · intro _
      exact h.answered hs habort hrsp
  | challenge habort hs hreq =>
    obtain ⟨hrsp, hradius⟩ := h.clean hs hreq
    refine ⟨?_, ?_, ?_, always_snoc h.inStep (inStep_of_ne (by simp [beAuthRequest]))⟩
    · intro _ _
      exact ⟨rfl, hradius, since_last ⟨by simp [beAuthRequest], rfl, hradius⟩⟩
    · intro _ _ hyes
      exact absurd (hyes.symm.trans hrsp) (by simp)
    · intro hresponse
      simp [beAuthRequest] at hresponse
  | engage habort hs =>
    apply h.left (m := ⟨sm, (beAuthResponse sm).1, (beAuthResponse sm).2⟩)
    · simp [beAuthResponse]
    · intro _
      rfl
    · intro hx
      exact absurd (hx.1.symm.trans hs) (by simp)
  | expect => exact h.spared (m := ⟨sm, sm, []⟩) rfl fun _ habort => ⟨rfl, habort⟩
  | wait => exact h.spared (m := ⟨sm, sm, []⟩) rfl fun _ habort => ⟨rfl, habort⟩
  | rest => exact h.spared (m := ⟨sm, sm, []⟩) rfl fun _ habort => ⟨rfl, habort⟩
  | abort =>
    exact h.left (m := ⟨sm, (beAuthInitialize sm).1, []⟩) (by simp [beAuthInitialize])
      (by simp [beAuthInitialize]) (inStep_of_ne (by simp [beAuthInitialize]))
  | finish =>
    exact h.left (m := ⟨sm, (beAuthIdle sm).1, []⟩) (by simp [beAuthIdle])
      (by simp [beAuthIdle]) (inStep_of_ne (by simp [beAuthIdle]))
  | noAnswer =>
    exact h.left (m := ⟨sm, (beAuthTimeout sm).1, _⟩) (by simp [beAuthTimeout])
      (by simp [beAuthTimeout]) (inStep_of_ne (by simp [beAuthTimeout]))
  | noServer =>
    exact h.left (m := ⟨sm, (beAuthTimeout sm).1, _⟩) (by simp [beAuthTimeout])
      (by simp [beAuthTimeout]) (inStep_of_ne (by simp [beAuthTimeout]))
  | fail =>
    exact h.left (m := ⟨sm, (beAuthFail sm).1, _⟩) (by simp [beAuthFail])
      (by simp [beAuthFail]) (inStep_of_ne (by simp [beAuthFail]))
  | succeed =>
    exact h.left (m := ⟨sm, (beAuthSuccess sm).1, _⟩) (by simp [beAuthSuccess])
      (by simp [beAuthSuccess]) (inStep_of_ne (by simp [beAuthSuccess]))

/-- While the backend has a request out, or is about to send one, `p` holds and nothing has been
asked of the server. -/
def Unsent (p : Prop) (moves : List Move) (sm : EapolStateMachine) : Prop :=
  sm.beAuth.state = .request ∨ sm.beAuth.state = .response ∧ sm.beAuth.aReq = true →
    p ∧ ∀ m ∈ moves, Action.sendRespToServer ∉ m.actions

variable {p : Prop} {moves : List Move}

theorem Unsent.snoc {m : Move} (h : Unsent p moves m.before)
    (hbe : m.after.beAuth = m.before.beAuth) (hsends : Action.sendRespToServer ∉ m.actions) :
    Unsent p (moves ++ [m]) m.after := by
  intro hs
  rw [hbe] at hs
  obtain ⟨hp, hnone⟩ := h hs
  refine ⟨hp, ?_⟩
  intro m' hm'
  rcases List.mem_append.mp hm' with hm' | hm'
  · exact hnone m' hm'
  · rwa [List.mem_singleton.mp hm']

theorem unsent_be (hw : Wired sm) (h : Unsent p moves sm) :
    Unsent p (moves ++ [moveOf beAuthStep sm]) (beAuthStep sm).1 := by
  have hcases := beAuthStep_cases hw
  unfold moveOf
  generalize beAuthStep sm = r at hcases ⊢
  intro hs
  have hkeep : ∀ hout : sm.beAuth.state = .request ∨
      sm.beAuth.state = .response ∧ sm.beAuth.aReq = true,
      Action.sendRespToServer ∉ r.2 →
      p ∧ ∀ m ∈ moves ++ [(⟨sm, r.1, r.2⟩ : Move)], Action.sendRespToServer ∉ m.actions := by
    intro hout hsends
    obtain ⟨hp, hnone⟩ := h hout
    refine ⟨hp, ?_⟩
    intro m hm
    rcases List.mem_append.mp hm with hm | hm
    · exact hnone m hm
    · rwa [List.mem_singleton.mp hm]
  cases hcases with
  | ask _ hbe => exact hkeep (.inl hbe) (by simp [beAuthRequest])
  | challenge _ hbe hreq => exact hkeep (.inr ⟨hbe, hreq⟩) (by simp [beAuthRequest])
  | expect _ hbe => exact hkeep (.inl hbe) (by simp)
  | wait _ hbe hno => simp [hbe, hno] at hs
  | rest _ hbe => simp [hbe] at hs
  | abort => simp [beAuthInitialize] at hs
  | finish => simp [beAuthIdle] at hs
  | forward => simp [beAuthResponse] at hs
  | engage => simp [beAuthResponse] at hs
  | noAnswer => simp [beAuthTimeout] at hs
  | noServer => simp [beAuthTimeout] at hs
  | fail => simp [beAuthFail] at hs
  | succeed => simp [beAuthSuccess] at hs

/-- The machines in the middle of an `eapol_sm_step`, after some of its moves. -/
structure Talking (p : Prop) (log : List Talk) (supp radius : Option (List U8)) (moves : List Move)
    (sm : EapolStateMachine) : Prop where
  wired : Wired sm
  phase : Phase True sm.view
  locked : Locked (log ++ moves.map fun m => .move m supp radius) supp radius sm
  unsent : Unsent p moves sm

theorem talk_snoc (log : List Talk) (moves : List Move) (m : Move) :
    (log ++ (moves ++ [m]).map fun m => Talk.move m supp radius) =
      (log ++ moves.map fun m => .move m supp radius) ++ [.move m supp radius] := by
  simp

theorem eapolSmPass_talking (h : Talking p log supp radius moves sm) :
    Talking p log supp radius (moves ++ passMoves sm) (eapolSmPass sm).1 := by
  have hpae := authPaeStep_wired_after h.wired h.phase
  have hmid : MidPhase True (authPaeStep sm).1.view :=
    authPaeStep_phase h.wired h.phase fun _ _ => trivial
  have hlocked := locked_pae h.wired h.phase h.locked
  have hunsent := h.unsent.snoc (m := moveOf authPaeStep sm)
    (authPaeStep_spares h.wired h.phase).1 (authPaeStep_sends h.wired h.phase)
  rw [eapolSmPass_fst]
  rw [← talk_snoc] at hlocked
  have hmoves : moves ++ passMoves sm = (((moves ++ [moveOf authPaeStep sm]) ++
      [moveOf beAuthStep (authPaeStep sm).1]) ++
      [moveOf reauthTimerStep (beAuthStep (authPaeStep sm).1).1]) ++
      [moveOf authKeyTxStep (reauthTimerStep (beAuthStep (authPaeStep sm).1).1).1] := by
    simp [passMoves, moveOf]
  rw [hmoves]
  change Unsent p _ (authPaeStep sm).1 at hunsent
  generalize moves ++ [moveOf authPaeStep sm] = moves₁ at *
  generalize (authPaeStep sm).1 = sm₁ at *
  -- the backend
  have hbe := (beAuthStep_spares hpae).1.wired hpae
  have hphase : Phase True (beAuthStep sm₁).1.view := beAuthStep_phase hpae hmid fun _ _ => trivial
  have hlocked₂ := locked_be hpae hlocked
  have hunsent₂ := unsent_be hpae hunsent
  rw [← talk_snoc] at hlocked₂
  generalize moves₁ ++ [moveOf beAuthStep sm₁] = moves₂ at *
  generalize (beAuthStep sm₁).1 = sm₂ at *
  -- the timers and the keys
  obtain ⟨htimerSpares, htimerView, htimerBe, _, _, htimerActions⟩ := reauthTimerStep_spares hbe
  have htimer := htimerSpares.wired hbe
  have hlocked₃ := hlocked₂.spared (m := moveOf reauthTimerStep sm₂) htimerBe
    fun _ habort => ⟨(reauthTimerStep_ids hbe).1, (reauthTimerStep_ids hbe).2 ▸ habort⟩
  have hunsent₃ := hunsent₂.snoc (m := moveOf reauthTimerStep sm₂) htimerBe
    (by simp [moveOf, htimerActions])
  rw [← talk_snoc] at hlocked₃
  obtain ⟨hkeySpares, hkeyView, hkeyBe, _, _, hkeyActions⟩ := authKeyTxStep_spares htimer
  have hlocked₄ := hlocked₃.spared (m := moveOf authKeyTxStep (reauthTimerStep sm₂).1) hkeyBe
    fun _ habort => ⟨(authKeyTxStep_ids htimer).1, (authKeyTxStep_ids htimer).2 ▸ habort⟩
  have hunsent₄ := hunsent₃.snoc (m := moveOf authKeyTxStep (reauthTimerStep sm₂).1) hkeyBe
    hkeyActions
  rw [← talk_snoc] at hlocked₄
  refine ⟨hkeySpares.wired htimer, ?_, hlocked₄, hunsent₄⟩
  rw [hkeyView, htimerView]
  exact hphase

theorem aReq_of_rest (h : Talking p log supp radius moves sm)
    (hsame : (eapolSmPass sm).1.states = sm.states)
    (hs : (eapolSmPass sm).1.beAuth.state = .response) :
    (eapolSmPass sm).1.beAuth.aReq = false := by
  have hpae := authPaeStep_wired_after h.wired h.phase
  have hbe := (beAuthStep_spares hpae).1.wired hpae
  obtain ⟨htimerSpares, _, htimerBe, _⟩ := reauthTimerStep_spares hbe
  obtain ⟨_, _, hkeyBe, _⟩ := authKeyTxStep_spares (htimerSpares.wired hbe)
  have hstay : (beAuthStep (authPaeStep sm).1).1.beAuth.state =
      (authPaeStep sm).1.beAuth.state := by
    simp only [EapolStateMachine.states, Prod.mk.injEq] at hsame
    rw [(authPaeStep_spares h.wired h.phase).1, ← hsame.2.1, eapolSmPass_fst, hkeyBe, htimerBe]
  rw [eapolSmPass_fst, hkeyBe, htimerBe] at hs ⊢
  generalize (authPaeStep sm).1 = sm₁ at *
  have hcases := beAuthStep_cases hpae
  generalize beAuthStep sm₁ = r at hcases hs hstay ⊢
  cases hcases with
  | wait _ _ hno => exact hno
  | forward => rfl
  | engage => rfl
  | expect _ hbe => simp [hbe] at hs
  | rest _ hbe => simp [hbe] at hs
  | abort => simp [beAuthInitialize] at hs
  | finish => simp [beAuthIdle] at hs
  | ask => simp [beAuthRequest] at hs
  | challenge => simp [beAuthRequest] at hs
  | noAnswer => simp [beAuthTimeout] at hs
  | noServer => simp [beAuthTimeout] at hs
  | fail => simp [beAuthFail] at hs
  | succeed => simp [beAuthSuccess] at hs

end Moves

section Stations

variable {st st' : Station} {log talk : List Talk} {rounds : Nat} {ids : Nat → U8}

structure Ready (log : List Talk) (st : Station) : Prop where
  wired : Wired st.sta.eapolSm
  phase : Phase True st.sta.eapolSm.view
  locked : Locked log st.sta.lastEapSupp st.sta.lastEapRadius st.sta.eapolSm
  unsent : Unsent (st.sta.radiusIdentifier < 0) [] st.sta.eapolSm

structure Resting (log : List Talk) (st : Station) : Prop extends Ready log st where
  answered : st.sta.eapolSm.beAuth.state = .response → st.sta.eapolSm.beAuth.aReq = false

theorem act_spares (ids : Nat → U8) (actions : List Action) (st : Station) :
    (actions.foldl (Station.act ids) st).sta.eapolSm = st.sta.eapolSm ∧
      (actions.foldl (Station.act ids) st).sta.lastEapSupp = st.sta.lastEapSupp ∧
      ((actions.foldl (Station.act ids) st).sta.lastEapRadius = none ↔
        st.sta.lastEapRadius = none) ∧
      (Action.sendRespToServer ∉ actions →
        (actions.foldl (Station.act ids) st).sta.radiusIdentifier = st.sta.radiusIdentifier) := by
  induction actions generalizing st with
  | nil => exact ⟨rfl, rfl, Iff.rfl, fun _ => rfl⟩
  | cons a actions ih =>
    obtain ⟨hsm, hsupp, hradius, hid⟩ := ih (st.act ids a)
    rw [List.foldl_cons, hsm, hsupp, hradius]
    cases a with
    | sendRespToServer => exact ⟨rfl, rfl, Iff.rfl, fun hnone => absurd List.mem_cons_self hnone⟩
    | txReq id =>
      refine ⟨rfl, rfl, by simp [Station.act], fun hnone => ?_⟩
      exact hid fun hmem => hnone (List.mem_cons_of_mem _ hmem)
    | _ =>
      refine ⟨rfl, rfl, Iff.rfl, fun hnone => ?_⟩
      exact hid fun hmem => hnone (List.mem_cons_of_mem _ hmem)

theorem Locked.withRadius {supp radius radius' : Option (List U8)} {sm : EapolStateMachine}
    (h : Locked log supp radius sm) (hr : radius' = none ↔ radius = none) :
    Locked log supp radius' sm := by
  refine ⟨?_, h.answered, ?_, h.inStep⟩
  · intro hs habort
    obtain ⟨hcurrent, hradius, hasked⟩ := h.asked hs habort
    exact ⟨hcurrent, fun hnone => hradius (hr.mp hnone), hasked⟩
  · intro hs hreq
    obtain ⟨hrsp, hradius⟩ := h.clean hs hreq
    exact ⟨hrsp, fun hnone => hradius (hr.mp hnone)⟩

theorem stationStep_resting (h : Ready log st)
    (hstep : stationStep rounds ids st = some (st', talk)) : Resting (log ++ talk) st' := by
  obtain ⟨⟨last, moves⟩, hrounds, heq⟩ := Option.map_eq_some_iff.mp hstep
  cases heq
  have hfirst : Talking (st.sta.radiusIdentifier < 0) log st.sta.lastEapSupp st.sta.lastEapRadius
      [] st.sta.eapolSm := ⟨h.wired, h.phase, by simpa using h.locked, h.unsent⟩
  have hall := eapolSmRounds_induct
    (Talking (st.sta.radiusIdentifier < 0) log st.sta.lastEapSupp st.sta.lastEapRadius)
    (fun _ _ => eapolSmPass_talking) hfirst hrounds
  obtain ⟨htalking, before, sm', hbefore, rfl, hsame⟩ := hall
  rw [List.nil_append] at htalking
  obtain ⟨hsm, hsupp, hradius, hid⟩ := act_spares ids (moves.flatMap Move.actions)
    { st with sta := { st.sta with eapolSm := (eapolSmPass sm').1 } }
  refine ⟨⟨?_, ?_, ?_, ?_⟩, ?_⟩
  · rw [hsm]
    exact htalking.wired
  · rw [hsm]
    exact htalking.phase
  · rw [hsm, hsupp]
    exact htalking.locked.withRadius hradius
  · rw [hsm]
    intro hs
    obtain ⟨hneg, hnone⟩ := htalking.unsent hs
    refine ⟨?_, fun m hm => by cases hm⟩
    rw [hid]
    · exact hneg
    · intro hmem
      obtain ⟨m, hm, ha⟩ := List.mem_flatMap.mp hmem
      exact hnone m hm ha
  · rw [hsm]
    exact aReq_of_rest hbefore hsame

theorem Ready.setSm {f : EapolStateMachine → EapolStateMachine} (h : Ready log st)
    (hwired : Wired (f st.sta.eapolSm)) (hview : (f st.sta.eapolSm).view = st.sta.eapolSm.view)
    (hbe : (f st.sta.eapolSm).beAuth = st.sta.eapolSm.beAuth)
    (hid : (f st.sta.eapolSm).currentId = st.sta.eapolSm.currentId) :
    Ready log (st.setSm f) := by
  have habort : (f st.sta.eapolSm).authAbort = st.sta.eapolSm.authAbort :=
    congrArg View.authAbort hview
  have hphase : Phase True (f st.sta.eapolSm).view := by
    rw [hview]
    exact h.phase
  refine ⟨hwired, hphase, ⟨?_, ?_, ?_, h.locked.inStep⟩, ?_⟩ <;>
    simp only [Station.setSm, Station.set, Unsent, hbe, hid, habort]
  · exact h.locked.asked
  · exact h.locked.answered
  · exact h.locked.clean
  · exact h.unsent

theorem handleEap_stored (s : Sta) (buf : List U8) (len : Nat) :
    storedResponse s buf len = none ∧ handleEap s buf len = s ∨
      ∃ eap identity initial resp, storedResponse s buf len = some eap ∧
        eap.getD 1 0 = s.eapolSm.currentId ∧
        handleEap s buf len =
          { s with
            lastEapSupp := some eap, identity := identity
            eapolSm := { s.eapolSm with
              authPae := { s.eapolSm.authPae with rxInitialRsp := initial }
              beAuth := { s.eapolSm.beAuth with rxResp := resp } } } := by
  unfold storedResponse handleEap handleEapResponse
  dsimp only
  by_cases hlen : len < sizeofEapHdr
  · left
    simp [hlen]
  · by_cases heap : ntohs buf 2 < sizeofEapHdr ∨ len < ntohs buf 2
    · left
      rw [if_pos (by tauto), if_neg hlen, if_pos heap]
      exact ⟨rfl, rfl⟩
    · by_cases hcode : buf.getD 0 0 = eapCodeResponse
      · by_cases hid : buf.getD 1 0 = s.eapolSm.currentId
        · cases hdata : slice buf sizeofEapHdr (ntohs buf 2 - sizeofEapHdr) with
          | nil =>
            left
            simp [hlen, heap]
          | cons type rest =>
            right
            have hlong : sizeofEapHdr < buf.length := by
              by_contra hshort
              rw [slice, List.drop_eq_nil_of_le (by omega)] at hdata
              simp at hdata
            have hsecond : (buf.take sizeofEapHdr ++ type :: rest).getD 1 0 =
                s.eapolSm.currentId := by
              have hfront : 1 < (buf.take sizeofEapHdr).length := by
                rw [List.length_take, sizeofEapHdr] at *
                omega
              rw [← hid, List.getD_eq_getElem?_getD, List.getElem?_append_left hfront,
                List.getElem?_take_of_lt (by decide), ← List.getD_eq_getElem?_getD]
            rw [if_neg (by tauto), if_neg hlen, if_neg heap, if_pos hcode, if_neg (by simpa using hid)]
            dsimp only
            split
            · exact ⟨_, _, _, _, rfl, hsecond, rfl⟩
            · exact ⟨_, _, _, _, rfl, hsecond, rfl⟩
        · left
          rw [if_pos (by tauto), if_neg hlen, if_neg heap, if_pos hcode, if_pos hid]
          exact ⟨rfl, rfl⟩
      · left
        rw [if_pos (by tauto), if_neg hlen, if_neg heap, if_neg hcode]
        exact ⟨rfl, rfl⟩

theorem Resting.handleEap (h : Resting log st) (buf : List U8) (len : Nat) :
    Ready (log ++ (storedResponse st.sta buf len).toList.map .response)
      (st.set fun s => Dot1x.handleEap s buf len) := by
  change Ready _ ⟨Dot1x.handleEap st.sta buf len, st.sent⟩
  rcases handleEap_stored st.sta buf len with ⟨hnone, hsame⟩ |
    ⟨eap, identity, initial, resp, hsome, hid, heq⟩
  · rw [hnone, hsame]
    simpa using h.toReady
  · rw [hsome, heq]
    have hnew : ¬(Talk.response eap).NewRequest := id
    obtain ⟨hcontrol, hmode, henabled, hvalid, hinit, hmax, hperiod⟩ := h.wired
    refine ⟨⟨hcontrol, hmode, henabled, hvalid, hinit, hmax, hperiod⟩, h.phase,
      ⟨?_, ?_, ?_, always_snoc h.locked.inStep fun hx => hx.elim⟩, h.unsent⟩
    · intro hs habort
      obtain ⟨hcurrent, hradius, hasked⟩ := h.locked.asked hs habort
      exact ⟨hcurrent, hradius, hasked.snoc hnew⟩
    · intro hs habort _
      obtain ⟨_, _, hasked⟩ := h.locked.asked hs habort
      exact ⟨eap, rfl, hid, since_last ⟨rfl, hasked⟩⟩
    · intro hs hreq
      exact absurd (hreq.symm.trans (h.answered hs)) (by simp)

/-- A challenge that comes while `BE_AUTH` waits for the server finds no response of the station
that nobody has asked for, and leaves an EAP packet to be sent. -/
def FindsNoResponse (st : Station) : StationEvent → Prop
  | .reply msg keys =>
    st.sta.Awaits msg → msg.code = radiusCodeAccessChallenge →
    st.sta.eapolSm.beAuth.state = .response →
      st.sta.eapolSm.beAuth.rxResp = false ∧ (takeReply msg keys st.sta).lastEapRadius ≠ none
  | _ => True

theorem decapsulate_writes (msg : RadiusMsg) (s : Sta) :
    ∃ radius id, decapsulateRadius msg s =
      { s with
        lastEapRadius := radius
        eapolSm := { s.eapolSm with beAuth := { s.eapolSm.beAuth with idFromServer := id } } } := by
  unfold decapsulateRadius
  split
  · exact ⟨_, _, rfl⟩
  · split <;> exact ⟨_, _, rfl⟩

theorem switchSta_writes (msg : RadiusMsg) (keys : Option (List U8 × List U8)) (s : Sta)
    (hcode : knownCode msg.code) :
    ∃ sign crypt keyAvailable timer success fail req supp, switchSta msg keys s =
      { s with
        eapolKeySign := sign, eapolKeyCrypt := crypt
        eapolSm := { s.eapolSm with
          keyAvailable := keyAvailable, reauthTimer := timer
          beAuth := { s.eapolSm.beAuth with
            aSuccess := success, aFail := fail, aReq := req, suppTimeout := supp } } } ∧
      (req = s.eapolSm.beAuth.aReq ∨ msg.code = radiusCodeAccessChallenge) := by
  unfold switchSta
  dsimp only
  split
  · exact ⟨_, _, _, _, _, _, _, _, rfl, .inl rfl⟩
  · rename_i haccept
    split
    · exact ⟨_, _, _, _, _, _, _, _, rfl, .inl rfl⟩
    · rename_i hreject
      exact ⟨_, _, _, _, _, _, _, _, rfl, .inr ((hcode.resolve_left haccept).resolve_left hreject)⟩

theorem Resting.takeReply (h : Resting log st) {msg : RadiusMsg}
    {keys : Option (List U8 × List U8)} (hawaits : st.sta.Awaits msg)
    (hok : FindsNoResponse st (.reply msg keys)) :
    Ready log (st.set (Dot1x.takeReply msg keys)) := by
  have hfree : st.sta.eapolSm.beAuth.state ≠ .request := by
    intro hs
    have hneg := (h.unsent (.inl hs)).1
    have hpos := hawaits.1
    omega
  have hfound := hok hawaits
  obtain ⟨sign, crypt, keyAvailable, timer, success, fail, req, supp, hswitch, hreq⟩ :=
    switchSta_writes msg keys
      { st.sta with radiusIdentifier := -1, lastRecvRadius := some msg } hawaits.2.2
  obtain ⟨radius, id, hdecap⟩ := decapsulate_writes msg (switchSta msg keys
      { st.sta with radiusIdentifier := -1, lastRecvRadius := some msg })
  have hall : Dot1x.takeReply msg keys st.sta = _ := hdecap
  rw [hswitch] at hall
  rw [hall] at hfound
  change Ready log ⟨Dot1x.takeReply msg keys st.sta, st.sent⟩
  rw [hall]
  obtain ⟨hcontrol, hmode, henabled, hvalid, hinit, hmax, hperiod⟩ := h.wired
  refine ⟨⟨hcontrol, hmode, henabled, hvalid, hinit, hmax, hperiod⟩, ?_,
    ⟨?_, ?_, ?_, h.locked.inStep⟩, ?_⟩
  · exact h.phase.withSuccess success trivial
  · intro hs
    exact absurd hs hfree
  · intro hs
    exact absurd hs hfree
  · intro hs hyes
    rcases hreq with hsame | hchallenge
    · have hno := h.answered hs
      exact absurd (hyes.symm.trans (hsame.trans hno)) (by simp)
    · exact hfound hchallenge hs
  · intro _
    exact ⟨by simp, fun m hm => by cases hm⟩

theorem Resting.dispatch (h : Resting log st) {buf : List U8} {datalen : Nat}
    (hstep : stationDispatch rounds ids st buf datalen = some (st', talk)) :
    Resting (log ++ talk) st' := by
  obtain ⟨hcontrol, hmode, henabled, hvalid, hinit, hmax, hperiod⟩ := h.wired
  obtain ⟨⟨mid, first⟩, hhandled, hrest⟩ := Option.bind_eq_some_iff.mp hstep
  obtain ⟨⟨last, more⟩, hlast, heq⟩ := Option.map_eq_some_iff.mp hrest
  cases heq
  have hready : Ready (log ++ first) mid := by
    split at hhandled
    · cases hhandled
      exact h.handleEap (buf.drop 4) datalen
    · split at hhandled
      · exact (stationStep_resting (h.setSm
          ⟨hcontrol, hmode, henabled, hvalid, hinit, hmax, hperiod⟩ rfl rfl rfl) hhandled).toReady
      · split at hhandled
        · exact (stationStep_resting (h.setSm
            ⟨hcontrol, hmode, henabled, hvalid, hinit, hmax, hperiod⟩ rfl rfl rfl)
              hhandled).toReady
        · cases hhandled
          simpa using h.toReady
  rw [← List.append_assoc]
  exact stationStep_resting hready hlast

theorem Resting.receive (h : Resting log st) {f : Frame}
    (hstep : stationReceive rounds ids st f = some (st', talk)) : Resting (log ++ talk) st' := by
  unfold stationReceive at hstep
  generalize (if f.buf.take 6 = snap8021h then f.buf.drop 8 else f.buf) = buf at hstep
  dsimp only at hstep
  have hnothing : ∀ {talk' : List Talk}, some (st, []) = some (st', talk') →
      Resting (log ++ talk') st' := by
    intro talk' heq
    cases heq
    rwa [List.append_nil]
  split at hstep
  · exact hnothing hstep
  · split at hstep
    · exact hnothing hstep
    · split at hstep
      · exact hnothing hstep
      · exact h.dispatch hstep

theorem Resting.next (h : Resting log st) {e : StationEvent} (hok : FindsNoResponse st e)
    (hstep : stationNext rounds ids st e = some (st', talk)) : Resting (log ++ talk) st' := by
  cases e with
  | frame f => exact h.receive hstep
  | reply msg keys =>
    simp only [stationNext] at hstep
    split at hstep
    · rename_i hawaits
      exact stationStep_resting (h.takeReply hawaits hok) hstep
    · cases hstep
      rwa [List.append_nil]
  | tick =>
    obtain ⟨hcontrol, hmode, henabled, hvalid, hinit, hmax, hperiod⟩ := h.wired
    exact stationStep_resting (h.setSm
      ⟨hcontrol, hmode, henabled, hvalid, hinit, hmax, hperiod⟩ rfl rfl rfl) hstep

theorem resting_start {s : Sta} (h : Rested [] s.eapolSm) (hidle : s.eapolSm.beAuth.state = .idle) :
    Resting [] ⟨s, 0⟩ := by
  refine ⟨⟨h.toWired, h.phase.mono fun _ => trivial, ⟨?_, ?_, ?_, always_nil⟩, ?_⟩, ?_⟩
  · intro hs
    exact absurd (hidle.symm.trans hs) (by simp)
  · intro hs
    exact absurd (hidle.symm.trans hs) (by simp)
  · intro hs
    exact absurd (hidle.symm.trans hs) (by simp)
  · rintro (hs | ⟨hs, _⟩)
    · exact absurd (hidle.symm.trans hs) (by simp)
    · exact absurd (hidle.symm.trans hs) (by simp)
  · intro hs
    exact absurd (hidle.symm.trans hs) (by simp)

end Stations

/-- In every run in which each challenge finds no response that nobody asked for, what `BE_AUTH`
forwards when it enters `RESPONSE` from `REQUEST` came after the request with the current identifier
was sent, and carries that identifier. -/
theorem forwarded_answers_request {quietInterval : Nat} {sessionTimeout : Option Nat} {rounds : Nat}
    {ids : Nat → U8} {start : EapolStateMachine}
    (halloc : eapolSmAlloc quietInterval sessionTimeout rounds = some start) {s : Sta}
    (hs : s.eapolSm = start) {events : List StationEvent} {t : Trace Station Talk}
    (hrun : Run (Guarded (fun t e => FindsNoResponse t.state e)
      (Graph (traceStep (stationNext rounds ids)))) ⟨⟨s, 0⟩, []⟩ events t) :
    ∀ before x after, t.log = before ++ x :: after → x.Forwards →
      Answered x.forwarded.1 x.forwarded.2 before := by
  subst hs
  obtain ⟨hrested, hidle⟩ := rested_of_alloc halloc
  have hrest : Resting t.log t.state := by
    apply hrun.invariant (fun t => Resting t.log t.state) _ (resting_start hrested hidle)
    intro t e t' ht hstep
    obtain ⟨⟨st', talk⟩, hnext, heq⟩ := Option.map_eq_some_iff.mp hstep.2
    cases heq
    exact ht.next hstep.1 hnext
  exact hrest.locked.inStep

section Duplicate

instance (x : Talk) : Decidable x.Forwards :=
  match x with
  | .response _ => isFalse id
  | .move _ _ _ => inferInstanceAs (Decidable (_ ∧ _))

instance (st : Station) (e : StationEvent) : Decidable (FindsNoResponse st e) :=
  match e with
  | .frame _ => isTrue trivial
  | .reply _ _ => inferInstanceAs (Decidable (_ → _ → _ → _ ∧ _))
  | .tick => isTrue trivial

def newStation : Station where
  sta :=
    { node := 0, addr := #v[2, 0, 0, 0, 1, 7], aid := 1
      eapolSm := { eapolSmDefaults 60 none with
        reAuthWhen := toInt32 3600
        portEnabled := true
        authPae := ⟨false, false, .auto, 0, false, 60, 2, 30, .init⟩
        beAuth := ⟨0, false, false, false, false, 0, 30, 30, 2, .idle⟩ }
      radiusIdentifier := -1
      lastRecvRadius := none, lastEapSupp := none, lastEapRadius := none, identity := none
      eapolKeySign := none, eapolKeyCrypt := none, apIdx := 0, ethertype := ethPPae, sockNum := 0 }
  sent := 0

def eapAnswer (id type : U8) : StationEvent :=
  .frame ⟨#v[2, 0, 0, 0, 1, 7], 0, [1, ieee8021xTypeEapPacket, 0, 6, eapCodeResponse, id, 0, 6, type, 7],
    10, ethPPae, 0, 1⟩

def eapChallenge (request id : U8) : StationEvent :=
  .reply ⟨[radiusCodeAccessChallenge, request, 0, 27] ++ List.replicate 16 0 ++
    [radiusAttrEapMessage, 7, eapCodeRequest, id, 0, 5, 4], 27, [20], radiusDefaultAttrCount⟩ none

def firstExchange : List StationEvent :=
  [eapAnswer 1 eapTypeIdentity, eapAnswer 1 eapTypeIdentity, eapChallenge 0 5, eapAnswer 5 4]

/-- Its answer arrives a second time, and then the next challenge does. -/
def duplicatedAnswer : List StationEvent := firstExchange ++ [eapAnswer 5 4, eapChallenge 1 6]

theorem exists_forwarded {r : Option (Trace Station Talk)} {k : Nat} {what : Option (List U8) × U8}
    (h : (r.bind fun t => t.log[k]?).map (fun x => (decide x.Forwards, x.forwarded)) =
      some (true, what)) :
    ∃ t before x after, r = some t ∧ t.log = before ++ x :: after ∧ x.Forwards ∧
      x.forwarded = what := by
  obtain ⟨x, hx, hwhat⟩ := Option.map_eq_some_iff.mp h
  obtain ⟨t, hr, hk⟩ := Option.bind_eq_some_iff.mp hx
  rw [Prod.mk.injEq] at hwhat
  obtain ⟨hk', hget⟩ := List.getElem?_eq_some_iff.mp hk
  refine ⟨t, t.log.take k, x, t.log.drop (k + 1), hr, ?_, of_decide_eq_true hwhat.1, hwhat.2⟩
  rw [← hget, List.getElem_cons_drop, List.take_append_drop]

/-- The first answer is forwarded in step. -/
theorem forwarded_answers_request_once :
    ∃ t before x after, Run (Guarded (fun (t : Trace Station Talk) e => FindsNoResponse t.state e)
        (Graph (traceStep (stationNext 20 (BitVec.ofNat 8))))) ⟨newStation, []⟩ firstExchange t ∧
      t.log = before ++ x :: after ∧ x.Forwards ∧
      Answered x.forwarded.1 x.forwarded.2 before := by
  have hlog : ((exec (guardStep (fun (t : Trace Station Talk) e => FindsNoResponse t.state e)
      (traceStep (stationNext 20 (BitVec.ofNat 8)))) ⟨newStation, []⟩ firstExchange).bind
      fun t => t.log[32]?).map (fun x => (decide x.Forwards, x.forwarded)) =
        some (true, some [2, 5, 0, 6, 4, 7], 5) := by
    decide +kernel
  obtain ⟨t, before, x, after, hexec, hsplit, hforwards, _⟩ := exists_forwarded hlog
  have hrun := exec_guarded_run hexec
  exact ⟨t, before, x, after, hrun, hsplit, hforwards,
    forwarded_answers_request (eapolSmAlloc_eq 60 none 18) rfl hrun before x after hsplit hforwards⟩

/-- The second copy of the answer to request 5 is forwarded as the answer to request 6. -/
theorem duplicate_answers_next_request :
    ¬∀ {quietInterval : Nat} {sessionTimeout : Option Nat} {rounds : Nat} {ids : Nat → U8}
        {start : EapolStateMachine},
      eapolSmAlloc quietInterval sessionTimeout rounds = some start → ∀ {s : Sta},
      s.eapolSm = start → ∀ {events : List StationEvent} {t : Trace Station Talk},
      Run (Graph (traceStep (stationNext rounds ids))) ⟨⟨s, 0⟩, []⟩ events t →
      ∀ before x after, t.log = before ++ x :: after → x.Forwards →
        Answered x.forwarded.1 x.forwarded.2 before := by
  intro hclaim
  have hlog : ((exec (traceStep (stationNext 20 (BitVec.ofNat 8))) ⟨newStation, []⟩
      duplicatedAnswer).bind fun t => t.log[49]?).map (fun x => (decide x.Forwards, x.forwarded)) =
        some (true, some [2, 5, 0, 6, 4, 7], 6) := by
    decide +kernel
  obtain ⟨t, before, x, after, hexec, hsplit, hforwards, hwhat⟩ := exists_forwarded hlog
  obtain ⟨eap, hpacket, hid, _⟩ := hclaim (eapolSmAlloc_eq 60 none 18) rfl (exec_run hexec)
    before x after hsplit hforwards
  rw [hwhat] at hpacket hid
  cases hpacket
  revert hid
  decide

end Duplicate

end OpenwrtMtk.Dot1x
