import OpenwrtMtk.Dot1x.Daemon

/-!
# Relations that a station's machines keep

Running the machines of a station comes down to edits of that station and to the requests it sends.
A relation that composes and holds of these holds of `eapol_sm_step` and of a reply that is applied.
-/

namespace OpenwrtMtk.Dot1x

open Toolkit

set_option autoImplicit false

def KeepsIdentity (f : Sta → Sta) : Prop :=
  ∀ s, (f s).node = s.node ∧ (f s).addr = s.addr ∧ (f s).radiusIdentifier = s.radiusIdentifier

def Effect.Quiet : Effect → Prop
  | .identifier _ _ _ => False
  | .request _ _ _ => False
  | .reply _ _ _ _ => False
  | _ => True

def AllQuiet (effects : List Effect) : Prop := ∀ x ∈ effects, x.Quiet

@[simp] theorem allQuiet_nil : AllQuiet [] := by
  intro x h
  cases h

theorem allQuiet_singleton {x : Effect} (h : x.Quiet) : AllQuiet [x] := by
  intro y hy
  rwa [List.mem_singleton.mp hy]

/-- What a relation needs for the machines of a station to keep it. -/
structure Machinery (env : Env) (node : Nat) (Rel : Rtapd → List Effect → Rtapd → Prop) : Prop
    extends Composes Rel where
  quiet : ∀ {d effects}, AllQuiet effects → Rel d effects d
  edit : ∀ {d f effects}, KeepsIdentity f → AllQuiet effects → Rel d effects (d.setSta node f)
  encapsulate : ∀ d, Meets Rel d (ieee8021xEncapsulateRadius env node d)

theorem keepsIdentity_sm (f : Sta → EapolStateMachine) :
    KeepsIdentity fun s => { s with eapolSm := f s } :=
  fun _ => ⟨rfl, rfl, rfl⟩

theorem keepsIdentity_decapsulate (msg : RadiusMsg) : KeepsIdentity (decapsulateRadius msg) := by
  intro s
  unfold decapsulateRadius
  split
  · exact ⟨rfl, rfl, rfl⟩
  · split <;> exact ⟨rfl, rfl, rfl⟩

theorem handleEapResponse_identity (s : Sta) (packet data : List U8) :
    (handleEapResponse s packet data).node = s.node ∧
      (handleEapResponse s packet data).addr = s.addr ∧
      (handleEapResponse s packet data).radiusIdentifier = s.radiusIdentifier := by
  unfold handleEapResponse
  split
  · exact ⟨rfl, rfl, rfl⟩
  · split
    · exact ⟨rfl, rfl, rfl⟩
    · dsimp only
      split <;> exact ⟨rfl, rfl, rfl⟩

theorem handleEap_identity (buf : List U8) (len : Nat) :
    KeepsIdentity fun s => handleEap s buf len := by
  intro s
  dsimp only [handleEap]
  split
  · exact ⟨rfl, rfl, rfl⟩
  · split
    · exact ⟨rfl, rfl, rfl⟩
    · split
      · exact handleEapResponse_identity s _ _
      · exact ⟨rfl, rfl, rfl⟩

def stepReply (env : Env) (node : Nat) (d : Rtapd) (a : Datagram) (msg : RadiusMsg)
    (req : Entry) : Outcome :=
  andThen
    (andThen
      (some (d.setSta node fun s => { s with radiusIdentifier := -1, lastRecvRadius := some msg },
        [.reply node msg.code req.serial (!bareReject msg)]))
      fun d => switchReply env node d a msg req)
    fun d => stepSta env node (d.setSta node (decapsulateRadius msg))

theorem applyReply_eq (env : Env) (node : Nat) (d : Rtapd) (a : Datagram) (msg : RadiusMsg)
    (req : Entry) :
    applyReply env node d a msg req =
      andThen (stepReply env node d a msg req) fun d' =>
        if freeFlag d.conf msg then (apFreeSta d' node).map fun d => (d, []) else some (d', []) :=
  rfl

namespace Machinery

variable {env : Env} {node : Nat} {Rel : Rtapd → List Effect → Rtapd → Prop}

theorem runAction (h : Machinery env node Rel) (d : Rtapd) (a : Action) :
    Meets Rel d (runAction env node d a) := by
  apply meets_bind
  intro s _
  cases a with
  | txCannedFail id => exact meets_some.mpr (h.quiet (allQuiet_singleton trivial))
  | txCannedSuccess id => exact meets_some.mpr (h.quiet (allQuiet_singleton trivial))
  | txInitialMsg id =>
    exact meets_some.mpr (h.edit (fun _ => ⟨rfl, rfl, rfl⟩) (allQuiet_singleton trivial))
  | txReq id =>
    refine meets_result (p := ieee8021xTxReq node d s id) ?_
    unfold ieee8021xTxReq
    cases s.lastEapRadius with
    | none => exact h.nothing d
    | some eap => exact h.edit (fun _ => ⟨rfl, rfl, rfl⟩) (allQuiet_singleton trivial)
  | sendRespToServer => exact h.encapsulate d
  | txKey id =>
    refine meets_result (p := ieee8021xTxKey node d s) ?_
    apply h.quiet
    dsimp only [ieee8021xTxKey]
    split
    · exact allQuiet_singleton trivial
    · exact allQuiet_nil
  | setPortAuthorized authSuccess =>
    refine meets_result (p := ieee8021xSetStaAuthorized node d s authSuccess) ?_
    apply h.quiet
    dsimp only [ieee8021xSetStaAuthorized]
    split
    · exact allQuiet_singleton trivial
    · exact allQuiet_nil
  | setPortUnauthorized => exact meets_some.mpr (h.nothing d)

theorem runActions (h : Machinery env node Rel) (actions : List Action) (d : Rtapd) :
    Meets Rel d (runActions env node actions d) := by
  induction actions generalizing d with
  | nil => exact meets_some.mpr (h.nothing d)
  | cons a actions ih =>
    apply meets_andThen h.toComposes (h.runAction d a)
    intro d' _ _
    exact ih d'

theorem after_edit (h : Machinery env node Rel) {d : Rtapd} {f : Sta → Sta} {r : Outcome}
    (hf : KeepsIdentity f) (hr : Meets Rel (d.setSta node f) r) : Meets Rel d r := by
  intro d' effects heq
  have hboth := h.step (h.edit hf allQuiet_nil) (hr d' effects heq)
  simpa using hboth

theorem stepSta (h : Machinery env node Rel) (d : Rtapd) : Meets Rel d (stepSta env node d) := by
  apply meets_bind
  intro s _
  apply meets_bind
  intro entered _
  apply h.after_edit (keepsIdentity_sm fun _ => entered.1)
  exact h.runActions entered.2 _

theorem getKeys (h : Machinery env node Rel) (d : Rtapd) (a : Datagram) (msg : RadiusMsg)
    (req : Entry) : Meets Rel d (ieee8021xGetKeys env node d a msg req) := by
  apply meets_map
  intro keys _
  dsimp only
  split
  · exact h.nothing d
  · split
    · exact h.quiet (allQuiet_singleton trivial)
    · exact h.edit (fun _ => ⟨rfl, rfl, rfl⟩) (allQuiet_singleton trivial)

theorem sessionOf (h : Machinery env node Rel) (d : Rtapd) (msg : RadiusMsg)
    (hsession : Dot1x.sessionOf node d msg = d ∨ ∀ d, Rel d [] (apStaSessionTimeout d node)) :
    Rel d [] (sessionOf node d msg) := by
  rcases hsession with hsame | hsession
  · rw [hsame]
    exact h.nothing d
  · unfold Dot1x.sessionOf
    split
    · split
      · exact h.edit (keepsIdentity_sm _) allQuiet_nil
      · exact hsession d
    · split
      · exact hsession d
      · exact h.nothing d

theorem sessionOf_free (d : Rtapd) {msg : RadiusMsg} (hfree : freeFlag d.conf msg) :
    Dot1x.sessionOf node d msg = d := by
  simp only [freeFlag, decide_eq_true_eq] at hfree
  unfold Dot1x.sessionOf
  rw [hfree.2.1, hfree.2.2]
  rfl

theorem switchReply (h : Machinery env node Rel) (d : Rtapd) (a : Datagram) (msg : RadiusMsg)
    (req : Entry)
    (hsession : freeFlag d.conf msg ∨ ∀ d, Rel d [] (apStaSessionTimeout d node)) :
    Meets Rel d (switchReply env node d a msg req) := by
  unfold Dot1x.switchReply
  split
  · apply meets_andThen h.toComposes
    · refine meets_some.mpr ?_
      have hidle : AllQuiet (idleTimeoutEffect node msg) := by
        unfold idleTimeoutEffect
        split
        · exact allQuiet_nil
        · exact allQuiet_singleton trivial
      exact h.step (h.sessionOf d msg (hsession.imp_left (sessionOf_free d)))
        (h.edit (keepsIdentity_sm _) hidle)
    · intro d' _ _
      exact h.getKeys d' a msg req
  · split
    · exact meets_some.mpr (h.edit (keepsIdentity_sm _) allQuiet_nil)
    · exact meets_some.mpr (h.edit (keepsIdentity_sm _) allQuiet_nil)

theorem stepReply (h : Machinery env node Rel) {before : Rtapd} (d : Rtapd) (a : Datagram)
    (msg : RadiusMsg) (req : Entry)
    (htaken : Rel before [.reply node msg.code req.serial (!bareReject msg)]
      (d.setSta node fun s => { s with radiusIdentifier := -1, lastRecvRadius := some msg }))
    (hsession : freeFlag d.conf msg ∨ ∀ d, Rel d [] (apStaSessionTimeout d node)) :
    Meets Rel before (stepReply env node d a msg req) := by
  apply meets_andThen h.toComposes
  · apply meets_andThen h.toComposes (meets_some.mpr htaken)
    intro d' _ heq
    cases heq
    exact h.switchReply _ a msg req hsession
  · intro d' _ _
    exact h.after_edit (keepsIdentity_decapsulate msg) (h.stepSta _)

theorem applyReply (h : Machinery env node Rel) {before : Rtapd} (d : Rtapd) (a : Datagram)
    (msg : RadiusMsg) (req : Entry)
    (htaken : Rel before [.reply node msg.code req.serial (!bareReject msg)]
      (d.setSta node fun s => { s with radiusIdentifier := -1, lastRecvRadius := some msg }))
    (hsession : ∀ d, Rel d [] (apStaSessionTimeout d node))
    (hfree : ∀ d d', apFreeSta d node = some d' → Rel d [] d') :
    Meets Rel before (applyReply env node d a msg req) := by
  rw [applyReply_eq]
  apply meets_andThen h.toComposes (h.stepReply d a msg req htaken (.inr hsession))
  intro d' _ _
  split
  · apply meets_map
    intro d'' hd
    exact hfree d' d'' hd
  · exact meets_some.mpr (h.nothing d')

theorem dispatchFrame (h : Machinery env node Rel) (d : Rtapd) (buf : List U8) (datalen : Nat) :
    Meets Rel d (dispatchFrame env node d buf datalen) := by
  apply meets_andThen h.toComposes
  · dsimp only
    split
    · exact meets_some.mpr (h.edit (handleEap_identity _ _) allQuiet_nil)
    · split
      · exact h.after_edit (keepsIdentity_sm _) (h.stepSta _)
      · split
        · exact h.after_edit (keepsIdentity_sm _) (h.stepSta _)
        · exact meets_some.mpr (h.nothing d)
  · intro d' _ _
    exact h.stepSta d'

theorem receiveFrom (h : Machinery env node Rel) (f : Frame) (d : Rtapd) :
    Meets Rel d (receiveFrom env f node d) := by
  unfold Dot1x.receiveFrom
  generalize (if f.buf.take 6 = snap8021h then f.buf.drop 8 else f.buf) = buf
  dsimp only
  split
  · exact meets_some.mpr (h.nothing d)
  · split
    · exact meets_some.mpr (h.nothing d)
    · split
      · exact meets_some.mpr (h.nothing d)
      · exact h.dispatchFrame d _ _

end Machinery

end OpenwrtMtk.Dot1x
