import OpenwrtMtk.Dot1x.Client

/-!
# Between the stations and the RADIUS server

`ieee802_1x.c`: frames of a station drive its state machines, which send requests to the server, and
the server's replies drive them in turn. A reply is applied to the station that holds its identifier.
-/

namespace OpenwrtMtk.Dot1x

open Toolkit

set_option autoImplicit false

def ethPPae : U16 := 0x888e
def ethPPreAuth : U16 := 0x88c7

def eapCodeRequest : U8 := 1
def eapCodeResponse : U8 := 2
def eapCodeSuccess : U8 := 3
def eapCodeFailure : U8 := 4
def eapTypeIdentity : U8 := 1

def ieee8021xTypeEapPacket : U8 := 0
def ieee8021xTypeEapolStart : U8 := 1
def ieee8021xTypeEapolLogoff : U8 := 2

/-- `sizeof(struct eap_hdr)`. -/
def sizeofEapHdr : Nat := 4

def Rtapd.setSm (d : Rtapd) (node : Nat) (f : EapolStateMachine → EapolStateMachine) : Rtapd :=
  d.setSta node fun s => { s with eapolSm := f s.eapolSm }

section Transmit

variable (node : Nat) (d : Rtapd)

def ieee8021xRequestIdentity (id : U8) : Rtapd × List Effect :=
  (d.setSta node fun s => { s with lastRecvRadius := none },
    [.eapol node ieee8021xTypeEapPacket
      ([eapCodeRequest, id] ++ htons (sizeofEapHdr + 1) ++ [eapTypeIdentity])])

def ieee8021xTxCannedEap (id : U8) (success : Bool) : Rtapd × List Effect :=
  (d, [.eapol node ieee8021xTypeEapPacket
    ([if success then eapCodeSuccess else eapCodeFailure, id] ++ htons sizeofEapHdr)])

/-- `ieee802_1x_tx_req`: the stored EAP packet of the server goes out under the identifier. -/
def ieee8021xTxReq (s : Sta) (id : U8) : Rtapd × List Effect :=
  match s.lastEapRadius with
  | none => (d, [])
  | some eap =>
    (d.setSta node fun s => { s with lastEapRadius := some (eap.set 1 id) },
      [.eapol node ieee8021xTypeEapPacket (eap.set 1 id)])

def ieee8021xTxKey (s : Sta) : Rtapd × List Effect :=
  (d, if s.eapolKeySign.isSome && s.eapolKeyCrypt.isSome then [.txKey node] else [])

/-- `ieee802_1x_set_sta_authorized` with 1. -/
def ieee8021xSetStaAuthorized (s : Sta) (authSuccess : Bool) : Rtapd × List Effect :=
  (d,
    if authSuccess && (s.eapolKeySign.getD []).isEmpty && (s.eapolKeyCrypt.getD []).isEmpty then
      [.staticWepCopy node]
    else [])

end Transmit

section Requests

def hexDigit (n : Nat) : U8 := BitVec.ofNat 8 (if n < 10 then 48 + n else 55 + n)

/-- `RADIUS_802_1X_ADDR_FORMAT`. -/
def formatAddr (addr : Mac) : List U8 :=
  List.intercalate [45] (addr.toList.map fun b => [hexDigit (b.toNat / 16), hexDigit (b.toNat % 16)])

/-- The attributes of an Access-Request up to the EAP message, in the order they are added. -/
def stationAttrs (conf : Config) (bss : Bss) (s : Sta) : List (U8 × List U8) :=
  (s.identity.map fun identity => (radiusAttrUserName, identity)).toList ++
    [(radiusAttrNasIpAddress, conf.ownIpAddr.toList)] ++
    (if bss.nasId = [] then [] else [(radiusAttrNasIdentifier, bss.nasId)]) ++
    [(radiusAttrNasPort, htonl s.aid.toNat),
      (radiusAttrCalledStationId, formatAddr bss.ownAddr),
      (radiusAttrCallingStationId, formatAddr s.addr),
      (radiusAttrFramedMtu, htonl 1400),
      (radiusAttrNasPortType, htonl radiusNasPortTypeIeee80211)]

def addAttrs (mem : Memory) (msg : RadiusMsg) (attrs : List (U8 × List U8)) : Option RadiusMsg :=
  attrs.foldlM (fun msg attr => radiusMsgAddAttr mem msg attr.1 attr.2) msg

/-- The State attribute of the challenge that the request answers. -/
def copyState (mem : Memory) (s : Sta) (msg : RadiusMsg) : Option RadiusMsg :=
  match s.lastRecvRadius with
  | none => some msg
  | some last =>
    if last.code = radiusCodeAccessChallenge then
      radiusMsgCopyAttr mem msg last radiusAttrState
    else some msg

/-- The message that `ieee802_1x_encapsulate_radius` builds; `none` when it fails. -/
def buildRequest (H : Digest) (o : SendOracle) (conf : Config) (bss : Bss) (s : Sta) (id : U8) :
    Option RadiusMsg := do
  let msg ← radiusMsgNew o.mem radiusCodeAccessRequest id
  let msg := radiusMsgMakeAuthenticator H msg o.seed
  let msg ← addAttrs o.mem msg (stationAttrs conf bss s)
  let msg ← radiusMsgAddEap o.mem msg (s.lastEapSupp.getD [])
  copyState o.mem s msg

/-- `ieee802_1x_encapsulate_radius`. The station has its new identifier also when no message can be
built. -/
def ieee8021xEncapsulateRadius (env : Env) (node : Nat) (d : Rtapd) : Outcome :=
  (d.sta node).bind fun s =>
    (d.conf.bss[s.apIdx]?).bind fun bss =>
      (radiusClientGetId d.radius).bind fun (id, radius) =>
        let taken := { d with radius := radius }.setSta node fun s =>
          { s with radiusIdentifier := id.toNat }
        match buildRequest env.digest (env.send d.radius.calls) d.conf bss s id with
        | none => some (taken, [.identifier d node id])
        | some msg =>
          andThen (some (taken, [.identifier d node id])) fun taken =>
            radiusClientSend env taken d.radius.calls node msg s.apIdx

end Requests

section Machines

variable (env : Env) (node : Nat)

def runAction (d : Rtapd) (a : Action) : Outcome :=
  (d.sta node).bind fun s =>
    match a with
    | .txCannedFail id => some (ieee8021xTxCannedEap node d id false)
    | .txCannedSuccess id => some (ieee8021xTxCannedEap node d id true)
    | .txInitialMsg id => some (ieee8021xRequestIdentity node d id)
    | .txReq id => some (ieee8021xTxReq node d s id)
    | .sendRespToServer => ieee8021xEncapsulateRadius env node d
    | .txKey _ => some (ieee8021xTxKey node d s)
    | .setPortAuthorized authSuccess => some (ieee8021xSetStaAuthorized node d s authSuccess)
    | .setPortUnauthorized => some (d, [])

def runActions : List Action → Rtapd → Outcome
  | [], d => some (d, [])
  | a :: actions, d => andThen (runAction env node d a) (runActions actions)

/-- `eapol_sm_step` for the machines of a station. -/
def stepSta (d : Rtapd) : Outcome :=
  (d.sta node).bind fun s =>
    (eapolSmStep env.rounds s.eapolSm).bind fun (sm, actions) =>
      runActions env node actions (d.setSm node fun _ => sm)

end Machines

section Stations

variable (env : Env)

/-- A station as `Ap_get_sta` sets it up. -/
def newSta (d : Rtapd) (sa : Mac) (apIdx : Nat) (ethertype : U16) (sock : Int) (aid : U16)
    (sm : EapolStateMachine) : Sta :=
  { node := d.nodes, addr := sa, aid := aid, eapolSm := sm, radiusIdentifier := -1
    lastRecvRadius := none, lastEapSupp := none, lastEapRadius := none, identity := none
    eapolKeySign := none, eapolKeyCrypt := none
    apIdx := if 1 < d.conf.bss.length then apIdx else 0
    ethertype := ethertype, sockNum := sock }

/-- `Ap_get_sta`, for a station that is not known yet; `ieee802_1x_new_station` runs its machines
before their port is enabled. -/
def addSta (d : Rtapd) (sa : Mac) (apIdx : Nat) (ethertype : U16) (sock : Int) (aid : U16) :
    Outcome :=
  (eapolSmInitialize (eapolSmDefaults d.conf.quietInterval d.conf.sessionTimeout)
      env.rounds).bind fun (sm, actions) =>
    let listed := { d with
      staList := newSta d sa apIdx ethertype sock aid sm :: d.staList
      numSta := d.numSta + 1, nodes := d.nodes + 1 }
    andThen
      (runActions env d.nodes actions
        ((apStaHashAdd listed d.nodes sa).registerTimeout (.eapolPortTimersTick d.nodes)))
      fun d' => some (d'.setSm d.nodes fun sm => { sm with portEnabled := true }, [])

/-- A frame of a station: the memory from its 802.1X header on, and the length that was received. -/
structure Frame where
  sa : Mac
  apIdx : Nat
  buf : List U8
  len : Nat
  ethertype : U16
  sock : Int
  aid : U16

/-- `handle_eap_response`; `packet` starts with the EAP header, `data` follows it. -/
def handleEapResponse (s : Sta) (packet data : List U8) : Sta :=
  if packet.getD 1 0 ≠ s.eapolSm.currentId then s
  else
    match data with
    | [] => s
    | type :: rest =>
      let s := { s with lastEapSupp := some (packet.take sizeofEapHdr ++ data) }
      if type = eapTypeIdentity then
        { s with
          eapolSm := { s.eapolSm with authPae := { s.eapolSm.authPae with rxInitialRsp := true } }
          identity := some rest }
      else
        { s with
          eapolSm := { s.eapolSm with beAuth := { s.eapolSm.beAuth with rxResp := true } } }

def handleEap (s : Sta) (buf : List U8) (len : Nat) : Sta :=
  if len < sizeofEapHdr then s
  else
    let eapLen := ntohs buf 2
    if eapLen < sizeofEapHdr ∨ len < eapLen then s
    else if buf.getD 0 0 = eapCodeResponse then
      handleEapResponse s buf (slice buf sizeofEapHdr (eapLen - sizeofEapHdr))
    else s

def snap8021h : List U8 := [0xaa, 0xaa, 0x03, 0, 0, 0]

/-- `len - sizeof(*hdr)`, of type `size_t`. -/
def sizeTSub (len n : Nat) : Nat := (len + 2 ^ 32 - n) % 2 ^ 32

/-- The part of `ieee802_1x_receive` behind the tests of the header: what the frame does, and then a
step of the machines. -/
def dispatchFrame (node : Nat) (d : Rtapd) (buf : List U8) (datalen : Nat) : Outcome :=
  let type := buf.getD 1 0
  let handled : Outcome :=
    if type = ieee8021xTypeEapPacket then
      some (d.setSta node fun s => handleEap s (buf.drop 4) datalen, [])
    else if type = ieee8021xTypeEapolStart then
      stepSta env node (d.setSm node fun sm =>
        { sm with authPae := { sm.authPae with eapStart := true } })
    else if type = ieee8021xTypeEapolLogoff then
      stepSta env node (d.setSm node fun sm =>
        { sm with authPae := { sm.authPae with eapLogoff := true } })
    else some (d, [])
  andThen handled (stepSta env node)

/-- `ieee802_1x_receive`, once `Ap_get_sta` has found or made the station. -/
def receiveFrom (f : Frame) (node : Nat) (d : Rtapd) : Outcome :=
  let buf := if f.buf.take 6 = snap8021h then f.buf.drop 8 else f.buf
  let datalen := ntohs buf 2
  let version := buf.getD 0 0
  if sizeTSub f.len 4 < datalen then some (d, [])
  else if f.ethertype ≠ ethPPae ∧ f.ethertype ≠ ethPPreAuth then some (d, [])
  else if version ≠ 1 ∧ version ≠ 2 then some (d, [])
  else dispatchFrame env node d buf datalen

def ieee8021xReceive (f : Frame) (d : Rtapd) : Outcome :=
  match findInChain d f.sa (d.staHash (staHash f.sa)) with
  | none => none
  | some (some node) => receiveFrom env f node d
  | some none =>
    if maxStaCount ≤ d.numSta then some (d, [])
    else
      andThen (addSta env d f.sa f.apIdx f.ethertype f.sock f.aid) (receiveFrom env f d.nodes)

end Stations

section Replies

/-- A datagram from the server: its bytes, the allocations for the message, what the heap holds
behind it, and whether the driver refuses the keys. -/
structure Datagram where
  data : List U8
  mem : Memory
  stale : Nat → U8
  ioctlFails : Bool

inductive RadiusRxResult where
  | processed | queued | unknown | invalidAuthenticator
  deriving DecidableEq

variable (env : Env) (node : Nat) (d : Rtapd)

/-- `ieee802_1x_decapsulate_radius`. -/
def decapsulateRadius (msg : RadiusMsg) (s : Sta) : Sta :=
  match radiusMsgGetEap msg with
  | none => { s with lastEapRadius := none }
  | some eap =>
    if eap.length < sizeofEapHdr then s
    else
      { s with
        lastEapRadius := some eap
        eapolSm := { s.eapolSm with
          beAuth := { s.eapolSm.beAuth with idFromServer := eap.getD 1 0 } } }

/-- `ieee802_1x_get_keys`. -/
def ieee8021xGetKeys (a : Datagram) (msg : RadiusMsg) (req : Entry) : Outcome :=
  (radiusMsgGetMsKeys msg env.digest req.msg req.sharedSecret).map fun keys =>
    if (keys.recv.getD []).isEmpty then (d, [])
    else if a.ioctlFails ∨ keys.send = none then (d, [.setKey node keys])
    else
      (d.setSta node fun s => { s with
        eapolKeySign := keys.send, eapolKeyCrypt := keys.recv
        eapolSm := { s.eapolSm with keyAvailable := true } }, [.setKey node keys])

/-- What an Access-Accept says about the session: the period of reauthentication, or the timer that
ends it. -/
def sessionOf (msg : RadiusMsg) : Rtapd :=
  match radiusMsgGetAttrInt32 msg radiusAttrSessionTimeout with
  | some seconds =>
    if (radiusMsgGetAttrInt32 msg radiusAttrTerminationAction).getD
        radiusTerminationActionDefault = radiusTerminationActionRadiusRequest then
      d.setSm node fun sm =>
        { sm with reauthTimer := { sm.reauthTimer with reAuthPeriod := seconds } }
    else apStaSessionTimeout d node
  | none => if d.conf.sessionTimeout.isSome then apStaSessionTimeout d node else d

/-- `free_flag`: neither the message nor the configuration limits the session. -/
def freeFlag (conf : Config) (msg : RadiusMsg) : Bool :=
  msg.code = radiusCodeAccessAccept ∧
    radiusMsgGetAttrInt32 msg radiusAttrSessionTimeout = none ∧ conf.sessionTimeout = none

def setBeAuth (f : BackendAuthSm → BackendAuthSm) : Rtapd :=
  d.setSm node fun sm => { sm with beAuth := f sm.beAuth }

def idleTimeoutEffect (msg : RadiusMsg) : List Effect :=
  match radiusMsgGetAttrInt32 msg radiusAttrIdleTimeout with
  | none => []
  | some seconds => [.idleTimeout node (max 60 seconds)]

def acceptReply (a : Datagram) (msg : RadiusMsg) (req : Entry) : Outcome :=
  andThen
    (some (setBeAuth node (sessionOf node d msg) fun be => { be with aSuccess := true },
      idleTimeoutEffect node msg))
    fun d => ieee8021xGetKeys env node d a msg req

def rejectReply : Rtapd := setBeAuth node d fun be => { be with aFail := true }

def challengeReply (msg : RadiusMsg) : Rtapd :=
  setBeAuth node d fun be =>
    { be with
      suppTimeout := (radiusMsgGetAttrInt32 msg radiusAttrSessionTimeout).getD be.suppTimeout
      aReq := true }

/-- The `switch` over the code of a reply. -/
def switchReply (a : Datagram) (msg : RadiusMsg) (req : Entry) : Outcome :=
  if msg.code = radiusCodeAccessAccept then acceptReply env node d a msg req
  else if msg.code = radiusCodeAccessReject then some (rejectReply node d, [])
  else some (challengeReply node d msg, [])

/-- An Access-Reject with neither a Message-Authenticator nor an EAP-Message, which is taken
without verification. -/
def bareReject (msg : RadiusMsg) : Bool :=
  msg.code = radiusCodeAccessReject ∧
    msg.attr? radiusAttrMessageAuthenticator = none ∧ msg.attr? radiusAttrEapMessage = none

/-- `ieee802_1x_receive_auth` from `sta->radius_identifier = -1` on. -/
def applyReply (a : Datagram) (msg : RadiusMsg) (req : Entry) : Outcome :=
  let taken := d.setSta node fun s =>
    { s with radiusIdentifier := -1, lastRecvRadius := some msg }
  andThen
    (andThen
      (andThen (some (taken, [.reply node msg.code req.serial (!bareReject msg)]))
        fun d => switchReply env node d a msg req)
      fun d => stepSta env node (d.setSta node (decapsulateRadius msg)))
    fun d' => if freeFlag d.conf msg then (apFreeSta d' node).map fun d => (d, [])
      else some (d', [])

def knownCode (code : U8) : Prop :=
  code = radiusCodeAccessAccept ∨ code = radiusCodeAccessReject ∨ code = radiusCodeAccessChallenge

instance (code : U8) : Decidable (knownCode code) := inferInstanceAs (Decidable (_ ∨ _))

def ieee8021xReceiveAuth (a : Datagram) (msg : RadiusMsg) (req : Entry) :
    Option (RadiusRxResult × Rtapd × List Effect) :=
  match apGetStaRadiusIdentifier d msg.identifier with
  | none => some (.unknown, d, [])
  | some s =>
    if ¬bareReject msg ∧
        ¬radiusMsgVerify msg env.digest a.stale req.sharedSecret req.msg then
      some (.unknown, d, [])
    else if ¬knownCode msg.code then some (.unknown, d, [])
    else (applyReply env s.node d a msg req).map fun (d, effects) => (.queued, d, effects)

end Replies

end OpenwrtMtk.Dot1x
