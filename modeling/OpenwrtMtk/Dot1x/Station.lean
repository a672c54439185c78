import OpenwrtMtk.Dot1x.Ieee8021x
import OpenwrtMtk.Dot1x.EapolMoves

/-!
# One station and what drives it

`ieee802_1x_receive`, `ieee802_1x_receive_auth` and the tick, as far as they concern the record of
one station: its machines, the EAP packets it holds, and the identifier it waits under. The log keeps
every EAP response that is stored and every move of the machines.
-/

namespace OpenwrtMtk.Dot1x

open Toolkit

set_option autoImplicit false

/-- A station and the number of requests it has made. -/
structure Station where
  sta : Sta
  sent : Nat

inductive Talk where
  /-- `handle_eap_response` stores an EAP response. -/
  | response (eap : List U8)
  /-- A move of the machines, with `last_eap_supp` and `last_eap_radius` at that time. -/
  | move (m : Move) (supp radius : Option (List U8))

/-- What an action of the machines does to the record of the station; `ids` are the identifiers that
`Radius_client_get_id` hands out to it. -/
def Station.act (ids : Nat → U8) (st : Station) : Action → Station
  | .txInitialMsg _ => { st with sta := { st.sta with lastRecvRadius := none } }
  | .txReq id =>
    { st with sta := { st.sta with
      lastEapRadius := st.sta.lastEapRadius.map fun eap => eap.set 1 id } }
  | .sendRespToServer =>
    { sta := { st.sta with radiusIdentifier := (ids st.sent).toNat }, sent := st.sent + 1 }
  | .txCannedFail _ | .txCannedSuccess _ | .txKey _ | .setPortAuthorized _
  | .setPortUnauthorized => st

/-- `eapol_sm_step`. -/
def stationStep (rounds : Nat) (ids : Nat → U8) (st : Station) : Logged Station Talk :=
  (eapolSmRounds rounds st.sta.eapolSm).map fun (sm, moves) =>
    ((moves.flatMap Move.actions).foldl (Station.act ids)
      { st with sta := { st.sta with eapolSm := sm } },
      moves.map fun m => .move m st.sta.lastEapSupp st.sta.lastEapRadius)

/-- The EAP response that `handle_eap` stores, if it does. -/
def storedResponse (s : Sta) (buf : List U8) (len : Nat) : Option (List U8) :=
  let eapLen := ntohs buf 2
  let data := slice buf sizeofEapHdr (eapLen - sizeofEapHdr)
  if len < sizeofEapHdr ∨ eapLen < sizeofEapHdr ∨ len < eapLen ∨ buf.getD 0 0 ≠ eapCodeResponse ∨
      buf.getD 1 0 ≠ s.eapolSm.currentId ∨ data = [] then
    none
  else some (buf.take sizeofEapHdr ++ data)

def Station.set (st : Station) (f : Sta → Sta) : Station := { st with sta := f st.sta }

def Station.setSm (st : Station) (f : EapolStateMachine → EapolStateMachine) : Station :=
  st.set fun s => { s with eapolSm := f s.eapolSm }

/-- The part of `ieee802_1x_receive` behind the tests of the header. -/
def stationDispatch (rounds : Nat) (ids : Nat → U8) (st : Station) (buf : List U8)
    (datalen : Nat) : Logged Station Talk :=
  let type := buf.getD 1 0
  let handled : Logged Station Talk :=
    if type = ieee8021xTypeEapPacket then
      some (st.set fun s => handleEap s (buf.drop 4) datalen,
        (storedResponse st.sta (buf.drop 4) datalen).toList.map .response)
    else if type = ieee8021xTypeEapolStart then
      stationStep rounds ids (st.setSm fun sm =>
        { sm with authPae := { sm.authPae with eapStart := true } })
    else if type = ieee8021xTypeEapolLogoff then
      stationStep rounds ids (st.setSm fun sm =>
        { sm with authPae := { sm.authPae with eapLogoff := true } })
    else some (st, [])
  andThen handled (stationStep rounds ids)

/-- `ieee802_1x_receive` for a frame of the station. -/
def stationReceive (rounds : Nat) (ids : Nat → U8) (st : Station) (f : Frame) :
    Logged Station Talk :=
  let buf := if f.buf.take 6 = snap8021h then f.buf.drop 8 else f.buf
  let datalen := ntohs buf 2
  let version := buf.getD 0 0
  if sizeTSub f.len 4 < datalen then some (st, [])
  else if f.ethertype ≠ ethPPae ∧ f.ethertype ≠ ethPPreAuth then some (st, [])
  else if version ≠ 1 ∧ version ≠ 2 then some (st, [])
  else stationDispatch rounds ids st buf datalen

def periodOf (msg : RadiusMsg) : Option Nat :=
  match radiusMsgGetAttrInt32 msg radiusAttrSessionTimeout with
  | none => none
  | some seconds =>
    if (radiusMsgGetAttrInt32 msg radiusAttrTerminationAction).getD
        radiusTerminationActionDefault = radiusTerminationActionRadiusRequest then some seconds
    else none

/-- What the code of a reply sets; `keys` are the keys that `ieee802_1x_get_keys` stores. -/
def switchSta (msg : RadiusMsg) (keys : Option (List U8 × List U8)) (s : Sta) : Sta :=
  let be := s.eapolSm.beAuth
  if msg.code = radiusCodeAccessAccept then
    { s with
      eapolKeySign := keys.elim s.eapolKeySign fun k => some k.1
      eapolKeyCrypt := keys.elim s.eapolKeyCrypt fun k => some k.2
      eapolSm := { s.eapolSm with
        keyAvailable := keys.isSome || s.eapolSm.keyAvailable
        reauthTimer := { s.eapolSm.reauthTimer with
          reAuthPeriod := (periodOf msg).getD s.eapolSm.reauthTimer.reAuthPeriod }
        beAuth := { be with aSuccess := true } } }
  else if msg.code = radiusCodeAccessReject then
    { s with eapolSm := { s.eapolSm with beAuth := { be with aFail := true } } }
  else
    { s with eapolSm := { s.eapolSm with beAuth := { be with
      suppTimeout := (radiusMsgGetAttrInt32 msg radiusAttrSessionTimeout).getD be.suppTimeout
      aReq := true } } }

def takeReply (msg : RadiusMsg) (keys : Option (List U8 × List U8)) (s : Sta) : Sta :=
  decapsulateRadius msg
    (switchSta msg keys { s with radiusIdentifier := -1, lastRecvRadius := some msg })

/-- `ieee802_1x_receive_auth` finds a station by the identifier it waits under. -/
def Sta.Awaits (s : Sta) (msg : RadiusMsg) : Prop :=
  0 ≤ s.radiusIdentifier ∧ s.radiusIdentifier = msg.identifier.toNat ∧ knownCode msg.code

instance (s : Sta) (msg : RadiusMsg) : Decidable (s.Awaits msg) :=
  inferInstanceAs (Decidable (_ ∧ _))

inductive StationEvent where
  | frame (f : Frame)
  | reply (msg : RadiusMsg) (keys : Option (List U8 × List U8))
  | tick

def stationNext (rounds : Nat) (ids : Nat → U8) (st : Station) : StationEvent → Logged Station Talk
  | .frame f => stationReceive rounds ids st f
  | .reply msg keys =>
    if st.sta.Awaits msg then stationStep rounds ids (st.set (takeReply msg keys))
    else some (st, [])
  | .tick => stationStep rounds ids (st.setSm eapolPortTimersTick)

end OpenwrtMtk.Dot1x
