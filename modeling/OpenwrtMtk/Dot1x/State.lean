import OpenwrtMtk.Dot1x.EapolSm
import OpenwrtMtk.Dot1x.Radius
import OpenwrtMtk.Lib.Run

/-!
# The state of the 802.1X daemon

The stations, the pending RADIUS requests and the registered timers. A station and a request keep
for life the number they are given when they are made, which stands for their address; the number
of requests is at the same time the number of identifiers handed out. The effects name what the
functions of the daemon did, in order.
-/

namespace OpenwrtMtk.Dot1x

open Toolkit

set_option autoImplicit false

abbrev Mac := Vector U8 6

def maxStaCount : Int := 1024

/-- One wireless interface: the secrets of its servers, the server in use, whether its socket is
open, and its names. -/
structure Bss where
  servers : List (List U8)
  current : Nat
  sockOpen : Bool
  nasId : List U8
  ownAddr : Mac

/-- `struct rtapd_config`; `bss` has `SsidNum` entries. -/
structure Config where
  bss : List Bss
  ownIpAddr : Vector U8 4
  sessionTimeout : Option Nat
  quietInterval : Nat
  radiusRetryPrimaryInterval : Nat

/-- `struct sta_info`; buffer and length are one field. -/
structure Sta where
  node : Nat
  addr : Mac
  aid : U16
  eapolSm : EapolStateMachine
  radiusIdentifier : Int
  lastRecvRadius : Option RadiusMsg
  lastEapSupp : Option (List U8)
  lastEapRadius : Option (List U8)
  identity : Option (List U8)
  eapolKeySign : Option (List U8)
  eapolKeyCrypt : Option (List U8)
  apIdx : Nat
  ethertype : U16
  sockNum : Int

/-- `struct radius_msg_list`. -/
structure Entry where
  serial : Nat
  msg : RadiusMsg
  firstTry : Nat
  nextTry : Nat
  attempts : Nat
  nextWait : Nat
  sharedSecret : List U8
  apIdx : Nat

/-- `struct radius_client_data`; `calls` counts the calls of `Radius_client_get_id`. -/
structure RadiusClientData where
  msgs : List Entry
  numMsgs : U32
  nextRadiusIdentifier : U8
  calls : Nat

/-- The timers of `eloop`, by handler and user data. -/
inductive Timeout where
  | radiusClientTimer
  | radiusRetryPrimaryTimer
  | eapolPortTimersTick (sta : Nat)
  | apHandleSessionTimer (sta : Nat)
  deriving DecidableEq

/-- The daemon: `staList` newest first, `staHash` the chains of station addresses. -/
structure Rtapd where
  conf : Config
  radius : RadiusClientData
  staList : List Sta
  staHash : U8 → List Nat
  numSta : Int
  nodes : Nat
  timeouts : List Timeout

inductive Effect where
  /-- `ieee802_1x_encapsulate_radius` takes an identifier for a station, in this state. -/
  | identifier (before : Rtapd) (sta : Nat) (id : U8)
  /-- `Radius_client_send` sends the message it built. -/
  | request (serial : Nat) (sta : Nat) (msg : RadiusMsg)
  | retransmit (serial : Nat)
  /-- `ieee802_1x_receive_auth` applies a reply to a pending request. -/
  | reply (sta : Nat) (code : U8) (serial : Nat) (verified : Bool)
  /-- `ieee802_1x_send`. -/
  | eapol (sta : Nat) (type : U8) (data : List U8)
  | txKey (sta : Nat)
  | staticWepCopy (sta : Nat)
  | setKey (sta : Nat) (keys : RadiusMsMppeKeys)
  | idleTimeout (sta : Nat) (seconds : Nat)
  | deauth (sta : Nat)

/-- What a function of the daemon leaves behind: `none` for a use of freed memory or of a null
pointer, and where a loop does not end. -/
abbrev Outcome := Logged Rtapd Effect

/-- What the outside gives to the request with a serial number: its allocations, the bytes its
authenticator is hashed from, the time, and whether it gets an entry in the list of pending
requests. -/
structure SendOracle where
  mem : Memory
  seed : List U8
  now : Nat
  listed : Bool

structure Env where
  digest : Digest
  rounds : Nat
  send : Nat → SendOracle

namespace Rtapd

variable (d : Rtapd)

/-- The station at an address; `none` when it was freed. -/
def sta (node : Nat) : Option Sta := d.staList.find? fun s => s.node = node

def setSta (node : Nat) (f : Sta → Sta) : Rtapd :=
  { d with staList := d.staList.map fun s => if s.node = node then f s else s }

def registerTimeout (t : Timeout) : Rtapd := { d with timeouts := d.timeouts ++ [t] }

def cancelTimeout (t : Timeout) : Rtapd := { d with timeouts := d.timeouts.filter (· ≠ t) }

end Rtapd

/-- `STA_HASH`. -/
def staHash (addr : Mac) : U8 := addr[5]

def findInChain (d : Rtapd) (addr : Mac) : List Nat → Option (Option Nat)
  | [] => some none
  | node :: chain =>
    match d.sta node with
    | none => none
    | some s => if s.addr = addr then some (some node) else findInChain d addr chain

/-- `Ap_get_sta_radius_identifier`. -/
def apGetStaRadiusIdentifier (d : Rtapd) (id : U8) : Option Sta :=
  d.staList.find? fun s => 0 ≤ s.radiusIdentifier ∧ s.radiusIdentifier = id.toNat

def apStaListDel (d : Rtapd) (node : Nat) : Rtapd :=
  { d with staList := d.staList.filter fun s => s.node ≠ node }

def apStaHashAdd (d : Rtapd) (node : Nat) (addr : Mac) : Rtapd :=
  { d with staHash := Function.update d.staHash (staHash addr) (node :: d.staHash (staHash addr)) }

/-- The walk of `Ap_sta_hash_del`: the first station with the address leaves its chain. -/
def removeFromChain (d : Rtapd) (addr : Mac) : List Nat → Option (List Nat)
  | [] => some []
  | node :: chain =>
    match d.sta node with
    | none => none
    | some s =>
      if s.addr = addr then some chain else (removeFromChain d addr chain).map (node :: ·)

def apStaHashDel (d : Rtapd) (addr : Mac) : Option Rtapd :=
  (removeFromChain d addr (d.staHash (staHash addr))).map fun chain =>
    { d with staHash := Function.update d.staHash (staHash addr) chain }

/-- `Ap_free_sta`; `eapol_sm_free` cancels the tick of the machines. -/
def apFreeSta (d : Rtapd) (node : Nat) : Option Rtapd :=
  (d.sta node).bind fun s =>
    (apStaHashDel d s.addr).map fun d =>
      { (apStaListDel d node).cancelTimeout (.eapolPortTimersTick node) with
        numSta := d.numSta - 1 }

/-- `Apd_free_stas`. -/
def apdFreeStas : List Nat → Rtapd → Option Rtapd
  | [], d => some d
  | node :: nodes, d => (apFreeSta d node).bind (apdFreeStas nodes)

/-- `Ap_sta_session_timeout`. -/
def apStaSessionTimeout (d : Rtapd) (node : Nat) : Rtapd :=
  (d.cancelTimeout (.apHandleSessionTimer node)).registerTimeout (.apHandleSessionTimer node)

end OpenwrtMtk.Dot1x
