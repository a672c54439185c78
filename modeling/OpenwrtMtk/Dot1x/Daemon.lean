import OpenwrtMtk.Dot1x.Ieee8021x

/-!
# The daemon as a transition system

What `eloop` calls: frames of stations and datagrams of servers arrive, the driver reports that a
station is gone or that there is a new configuration, and timers expire.
-/

namespace OpenwrtMtk.Dot1x

open Toolkit

set_option autoImplicit false

/-- `sizeof(buf)` in `Radius_client_receive`. -/
def radiusBufSize : Nat := 3000

def unlinkRequest (d : Rtapd) (rest : List Entry) : Rtapd :=
  { d with radius := { d.radius with msgs := rest, numMsgs := d.radius.numMsgs - 1 } }

/-- `Radius_client_receive`, with the handler that `ieee802_1x_init` registers. The request leaves
the list before the handler sees the datagram, and is freed whatever the handler returns. -/
def radiusClientReceive (env : Env) (d : Rtapd) (a : Datagram) : Outcome :=
  if radiusBufSize ≤ a.data.length then some (d, [])
  else
    match radiusMsgParse a.mem a.data with
    | none => some (d, [])
    | some msg =>
      match takeRequest msg.identifier d.radius.msgs with
      | none => some (d, [])
      | some (req, rest) =>
        (ieee8021xReceiveAuth env (unlinkRequest d rest) a msg req).map
          fun (_, d, effects) => (d, effects)

theorem radiusClientReceive_cases {env : Env} {d d' : Rtapd} {a : Datagram}
    {effects : List Effect} (h : radiusClientReceive env d a = some (d', effects)) :
    d' = d ∧ effects = [] ∨
      ∃ msg req rest res, radiusMsgParse a.mem a.data = some msg ∧
        takeRequest msg.identifier d.radius.msgs = some (req, rest) ∧
        ieee8021xReceiveAuth env (unlinkRequest d rest) a msg req = some (res, d', effects) := by
  unfold radiusClientReceive at h
  split at h
  · cases h
    exact .inl ⟨rfl, rfl⟩
  · split at h
    · cases h
      exact .inl ⟨rfl, rfl⟩
    · rename_i msg hparse
      split at h
      · cases h
        exact .inl ⟨rfl, rfl⟩
      · rename_i req rest htake
        obtain ⟨⟨res, last, made⟩, hauth, heq⟩ := Option.map_eq_some_iff.mp h
        cases heq
        exact .inr ⟨msg, req, rest, res, hparse, htake, hauth⟩

/-- `Handle_reload_config`, once the new configuration is read. -/
def handleReloadConfig (d : Rtapd) (conf : Config) : Option Rtapd :=
  let d := { radiusClientFlush d with conf := conf }
  (apdFreeStas (d.staList.map (·.node)) d).map radiusClientFlush

/-- `DOT1X_DISCONNECT_ENTRY`. -/
def disconnectEntry (d : Rtapd) (sa : Mac) : Option Rtapd :=
  match findInChain d sa (d.staHash (staHash sa)) with
  | none => none
  | some none => some d
  | some (some node) => apFreeSta d node

/-- The handlers of the timers; a timer leaves `eloop` before its handler runs. -/
def expire (env : Env) (d : Rtapd) (now : Nat) : Timeout → Outcome
  | .radiusClientTimer => radiusClientTimer d now
  | .radiusRetryPrimaryTimer => (radiusRetryPrimaryTimer d).map fun d => (d, [])
  | .eapolPortTimersTick node =>
    andThen (stepSta env node (d.setSm node eapolPortTimersTick)) fun d =>
      some (d.registerTimeout (.eapolPortTimersTick node), [])
  | .apHandleSessionTimer node => (d.sta node).map fun _ => (d, [.deauth node])

inductive Event where
  | frame (f : Frame)
  | datagram (a : Datagram)
  | disconnect (sa : Mac)
  | reload (conf : Config)
  | expired (t : Timeout) (now : Nat)

def daemonStep (env : Env) (d : Rtapd) : Event → Outcome
  | .frame f => ieee8021xReceive env f d
  | .datagram a => radiusClientReceive env d a
  | .disconnect sa => (disconnectEntry d sa).map fun d => (d, [])
  | .reload conf => (handleReloadConfig d conf).map fun d => (d, [])
  | .expired t now =>
    if t ∈ d.timeouts then expire env { d with timeouts := d.timeouts.erase t } now t else none

/-- The daemon after `Apd_setup_interface`. -/
def Rtapd.start (conf : Config) : Rtapd where
  conf := conf
  radius := ⟨[], 0, 0, 0⟩
  staList := []
  staHash := fun _ => []
  numSta := 0
  nodes := 0
  timeouts := if conf.radiusRetryPrimaryInterval = 0 then [] else [.radiusRetryPrimaryTimer]

end OpenwrtMtk.Dot1x
