import OpenwrtMtk.Dot1x.Daemon
import OpenwrtMtk.Dot1x.Request
import OpenwrtMtk.Lib.Chain

/-!
# The pending requests in memory

`radius_client.c` once more, with the entries at their addresses: every access to an entry needs it
to be allocated, and each loop moves the pointers that the source moves. A loop that meets more
entries than are allocated has met one twice.
-/

namespace OpenwrtMtk.Dot1x.Linked

open Toolkit

set_option autoImplicit false

/-- `struct radius_client_data` and the entries of its list; `live` are the allocated ones. -/
structure RadiusClientData where
  msgs : Option Nat
  next : Nat → Option Nat
  entry : Nat → Entry
  live : List Nat
  numMsgs : U32
  nextRadiusIdentifier : U8

namespace RadiusClientData

variable (r : RadiusClientData)

/-- `if (prev) prev->next = target; else msgs = target`. -/
def link (prev target : Option Nat) : Option RadiusClientData :=
  match prev with
  | none => some { r with msgs := target }
  | some p => if p ∈ r.live then some { r with next := Function.update r.next p target } else none

def setEntry (i : Nat) (e : Entry) : RadiusClientData :=
  { r with entry := Function.update r.entry i e }

end RadiusClientData

def fuel (r : RadiusClientData) : Nat := r.live.length + 1

def radiusClientMsgFree (r : RadiusClientData) (i : Nat) : Option RadiusClientData :=
  if i ∈ r.live then some { r with live := r.live.filter (· ≠ i) } else none

/-- The loop of `Radius_client_get_id`; `prev` is also the entry that was just freed. -/
def removeId (id : U8) :
    Nat → Option Nat → Option Nat → RadiusClientData → Option RadiusClientData
  | 0, _, _, _ => none
  | _ + 1, _, none, r => some r
  | n + 1, prev, some i, r =>
    if i ∈ r.live then
      if (r.entry i).msg.identifier = id then
        (r.link prev (r.next i)).bind fun r =>
          (radiusClientMsgFree r i).bind (removeId id n (some i) (r.next i))
      else removeId id n (some i) (r.next i) r
    else none

def radiusClientGetId (r : RadiusClientData) : Option (U8 × RadiusClientData) :=
  let id := r.nextRadiusIdentifier
  (removeId id (fuel r) none r.msgs { r with nextRadiusIdentifier := id + 1 }).map fun r => (id, r)

/-- `while (entry->next)`, for `prev` and `entry`. -/
def walkToLast (r : RadiusClientData) : Nat → Option Nat → Nat → Option (Option Nat × Nat)
  | 0, _, _ => none
  | n + 1, prev, i =>
    if i ∈ r.live then
      match r.next i with
      | none => some (prev, i)
      | some j => walkToLast r n (some i) j
    else none

/-- The end of `Radius_client_list_add` for a new entry at the address `i`. -/
def limitList (r : RadiusClientData) (i : Nat) : Option RadiusClientData :=
  if (BitVec.ofNat 32 radiusClientMaxEntries).ule r.numMsgs then
    (walkToLast r (fuel r) none i).bind fun (prev, last) =>
      match prev with
      | none => some r
      | some p => (r.link (some p) none).bind fun r => radiusClientMsgFree r last
  else some { r with numMsgs := r.numMsgs + 1 }

/-- A new entry at the address `i` in front of the list. -/
def pushEntry (r : RadiusClientData) (i : Nat) (e : Entry) : Option RadiusClientData :=
  limitList
    { r.setEntry i e with
      live := i :: r.live
      next := Function.update r.next i r.msgs
      msgs := some i }
    i

/-- The search of `Radius_client_receive`, for `prev_req` and `req`. -/
def findRequest (id : U8) (r : RadiusClientData) :
    Nat → Option Nat → Option Nat → Option (Option Nat × Option Nat)
  | 0, _, _ => none
  | _ + 1, prev, none => some (prev, none)
  | n + 1, prev, some i =>
    if i ∈ r.live then
      if (r.entry i).msg.identifier = id then some (prev, some i)
      else findRequest id r n (some i) (r.next i)
    else none

/-- The loop of `Radius_client_timer`. Besides the list it makes the interfaces whose requests
failed too often, and the serials it sends again. -/
def retransmitLoop (now : Nat) : Nat → Option Nat → Option Nat → RadiusClientData →
    Option (RadiusClientData × List Nat × List Nat)
  | 0, _, _, _ => none
  | _ + 1, _, none, r => some (r, [], [])
  | n + 1, prev, some i, r =>
    if i ∈ r.live then
      if (r.entry i).nextTry ≤ now then
        match radiusClientRetransmit now (r.entry i) with
        | none =>
          (r.link prev (r.next i)).bind fun r =>
            (radiusClientMsgFree r i).bind fun freed =>
              (retransmitLoop now n prev (r.next i)
                { freed with numMsgs := freed.numMsgs - 1 }).map fun (r', failed, again) =>
                  (r', failed, (r.entry i).serial :: again)
        | some e =>
          (retransmitLoop now n (some i) (r.next i) (r.setEntry i e)).map fun (r, failed, again) =>
            (r, (if radiusClientNumFailover < e.attempts then [e.apIdx] else []) ++ failed,
              e.serial :: again)
      else
        (retransmitLoop now n (some i) (r.next i) r).map fun (r', failed, again) =>
          (r', (if radiusClientNumFailover < (r.entry i).attempts then [(r.entry i).apIdx] else []) ++
            failed, again)
    else none

/-- The loop of `Radius_client_flush`. -/
def freeAll : Nat → Option Nat → RadiusClientData → Option RadiusClientData
  | 0, _, _ => none
  | _ + 1, none, r => some r
  | n + 1, some i, r => (radiusClientMsgFree r i).bind (freeAll n (r.next i))

/-- The loop of `Radius_change_server`. -/
def resetAll : Nat → Option Nat → RadiusClientData → Option RadiusClientData
  | 0, _, _ => none
  | _ + 1, none, r => some r
  | n + 1, some i, r =>
    if i ∈ r.live then resetAll n (r.next i) (r.setEntry i (resetEntry (r.entry i))) else none

/-- What `malloc` returns when `live` is allocated. -/
structure Malloc where
  addr : List Nat → Nat
  fresh : ∀ live, addr live ∉ live

/-- What the client works on; `acked` is the request that `Radius_client_receive` has taken off
the list and hands to the handlers. -/
structure Client where
  conf : Config
  timeouts : List Timeout
  radius : RadiusClientData
  acked : Option Nat

namespace Client

variable (c : Client)

def registerTimeout (t : Timeout) : Client := { c with timeouts := c.timeouts ++ [t] }

def cancelTimeout (t : Timeout) : Client := { c with timeouts := c.timeouts.filter (· ≠ t) }

end Client

def radiusClientListAdd (o : SendOracle) (malloc : Malloc) (c : Client) (serial : Nat)
    (msg : RadiusMsg) (secret : List U8) (apIdx : Nat) : Option Client :=
  if o.listed then
    let c := if c.radius.msgs = none then c.registerTimeout .radiusClientTimer else c
    (pushEntry c.radius (malloc.addr c.radius.live)
      ⟨serial, msg, o.now, o.now + radiusClientFirstWait, 1, radiusClientFirstWait * 2, secret,
        apIdx⟩).map fun r => { c with radius := r }
  else some c

def radiusClientSend (env : Env) (malloc : Malloc) (c : Client) (serial : Nat) (msg : RadiusMsg)
    (apIdx : Nat) : Option Client :=
  let o := env.send serial
  (c.conf.secret apIdx).bind fun secret =>
    (radiusMsgFinish o.mem env.digest msg secret).bind fun msg =>
      radiusClientListAdd o malloc c serial msg secret apIdx

/-- `Radius_client_receive` up to the call of the handlers. -/
def radiusClientReceive (c : Client) (mem : Memory) (data : List U8) : Option Client :=
  if radiusBufSize ≤ data.length then some c
  else
    match radiusMsgParse mem data with
    | none => some c
    | some msg =>
      (findRequest msg.identifier c.radius (fuel c.radius) none c.radius.msgs).bind
        fun (prev, req) =>
          match req with
          | none => some c
          | some i =>
            (c.radius.link prev (c.radius.next i)).map fun r =>
              { c with radius := { r with numMsgs := r.numMsgs - 1 }, acked := some i }

/-- `Radius_client_receive` from the return of the handlers on. -/
def freeAcked (c : Client) (i : Nat) : Option Client :=
  (radiusClientMsgFree c.radius i).map fun r => { c with radius := r, acked := none }

def radiusClientFlush (c : Client) : Option Client :=
  let c := c.cancelTimeout .radiusClientTimer
  (freeAll (fuel c.radius) c.radius.msgs { c.radius with msgs := none, numMsgs := 0 }).map fun r =>
    { c with radius := r }

def radiusChangeServer (c : Client) (nserv : List U8) (oserv : Option (List U8)) : Option Client :=
  if oserv ≠ some nserv then radiusClientFlush c
  else
    (resetAll (fuel c.radius) c.radius.msgs c.radius).map fun r =>
      let c := { c with radius := r }
      if r.msgs = none then c
      else (c.cancelTimeout .radiusClientTimer).registerTimeout .radiusClientTimer

def useServer (c : Client) (i : Nat) (bss : Bss) (next : Nat) : Option Client :=
  (bss.servers[next]?).bind fun nserv =>
    radiusChangeServer
      { c with conf := { c.conf with bss := c.conf.bss.set i { bss with current := next } } }
      nserv bss.servers[bss.current]?

def failover (failed : List Nat) (c : Client) (i : Nat) : Option Client :=
  match c.conf.bss[i]? with
  | none => some c
  | some bss =>
    if i ∈ failed ∧ 1 < bss.servers.length then
      useServer c i bss (if bss.current + 1 < bss.servers.length then bss.current + 1 else 0)
    else some c

def radiusClientTimer (c : Client) (now : Nat) : Option Client :=
  if c.radius.msgs = none then some c
  else
    (retransmitLoop now (fuel c.radius) none c.radius.msgs c.radius).bind fun (r, failed, _) =>
      let c := { c with radius := r }
      let c := if r.msgs = none then c else c.registerTimeout .radiusClientTimer
      (List.range c.conf.bss.length).foldlM (failover failed) c

def retryPrimary (c : Client) (i : Nat) : Option Client :=
  match c.conf.bss[i]? with
  | none => some c
  | some bss =>
    if bss.sockOpen ∧ bss.servers ≠ [] ∧ bss.current ≠ 0 then useServer c i bss 0 else some c

def radiusRetryPrimaryTimer (c : Client) : Option Client :=
  ((List.range c.conf.bss.length).foldlM retryPrimary c).map fun c =>
    if c.conf.radiusRetryPrimaryInterval = 0 then c
    else c.registerTimeout .radiusRetryPrimaryTimer

/-- A message that was built for the identifier, and the call that sends it. -/
structure Sending where
  malloc : Malloc
  serial : Nat
  msg : RadiusMsg
  apIdx : Nat

inductive ClientEvent where
  /-- `Radius_client_get_id`, and `Radius_client_send` if the message could be built. -/
  | request (sending : Option Sending)
  | datagram (mem : Memory) (data : List U8)
  /-- The handlers of a datagram return; until then they may send requests. -/
  | handled
  | timer (now : Nat)
  | retryPrimary
  /-- `Radius_client_flush`, with the configuration that is read then. -/
  | flush (conf : Config)

def clientStep (env : Env) (c : Client) : ClientEvent → Option Client
  | .request sending =>
    (radiusClientGetId c.radius).bind fun (_, radius) =>
      let c := { c with radius := radius }
      match sending with
      | none => some c
      | some s => radiusClientSend env s.malloc c s.serial s.msg s.apIdx
  | .datagram mem data => radiusClientReceive c mem data
  | .handled =>
    match c.acked with
    | none => some c
    | some i => freeAcked c i
  | .timer now => radiusClientTimer c now
  | .retryPrimary => radiusRetryPrimaryTimer c
  | .flush conf => radiusClientFlush { c with conf := conf }

/-- The message that is sent carries the identifier that `Radius_client_get_id` hands out. -/
def Carries (id : U8) : ClientEvent → Prop
  | .request (some s) => Headed id s.msg
  | _ => True

def Step (env : Env) (c : Client) (e : ClientEvent) (c' : Client) : Prop :=
  Carries c.radius.nextRadiusIdentifier e ∧ clientStep env c e = some c'

/-- The client after `Radius_client_init`. -/
def Client.start (conf : Config) : Client where
  conf := conf
  timeouts := if conf.radiusRetryPrimaryInterval = 0 then [] else [.radiusRetryPrimaryTimer]
  radius := ⟨none, fun _ => none, fun _ => ⟨0, ⟨[], 0, [], 0⟩, 0, 0, 0, 0, [], 0⟩, [], 0, 0⟩
  acked := none

end OpenwrtMtk.Dot1x.Linked
