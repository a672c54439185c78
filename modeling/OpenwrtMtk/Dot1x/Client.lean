import OpenwrtMtk.Dot1x.State

/-!
# The RADIUS client

`radius_client.c`: a request gets an 8-bit identifier, is sent and stays in the list of pending
requests until a datagram with its identifier arrives, it was sent too often, the list grows too
long, or the server is changed for one with another secret.
-/

namespace OpenwrtMtk.Dot1x

open Toolkit

set_option autoImplicit false

def radiusClientFirstWait : Nat := 1
def radiusClientMaxWait : Nat := 120
def radiusClientMaxRetries : Nat := 10
def radiusClientMaxEntries : Nat := 30
def radiusClientNumFailover : Nat := 4

/-- The loop of `Radius_client_get_id`. The entry before the next one is always `prev`, freed or
not: a second match right behind a first one writes to freed memory. -/
def removeId (id : U8) : Bool → List Entry → Option (List Entry)
  | _, [] => some []
  | prevFreed, e :: es =>
    if e.msg.identifier = id then if prevFreed then none else removeId id true es
    else (removeId id false es).map (e :: ·)

/-- `Radius_client_get_id`. The count of entries is not touched. -/
def radiusClientGetId (r : RadiusClientData) : Option (U8 × RadiusClientData) :=
  (removeId r.nextRadiusIdentifier false r.msgs).map fun msgs =>
    (r.nextRadiusIdentifier,
      { r with
        msgs := msgs, nextRadiusIdentifier := r.nextRadiusIdentifier + 1, calls := r.calls + 1 })

/-- The pending list with a new entry in front. When the count says that it is full the last entry
goes, unless it is the new one. -/
def pushEntry (r : RadiusClientData) (e : Entry) : RadiusClientData :=
  if (BitVec.ofNat 32 radiusClientMaxEntries).ule r.numMsgs then
    { r with msgs := e :: r.msgs.dropLast }
  else { r with msgs := e :: r.msgs, numMsgs := r.numMsgs + 1 }

def radiusClientListAdd (o : SendOracle) (d : Rtapd) (serial : Nat) (msg : RadiusMsg)
    (secret : List U8) (apIdx : Nat) : Rtapd :=
  if o.listed then
    let d := if d.radius.msgs = [] then d.registerTimeout .radiusClientTimer else d
    { d with
      radius := pushEntry d.radius
        ⟨serial, msg, o.now, o.now + radiusClientFirstWait, 1, radiusClientFirstWait * 2, secret,
          apIdx⟩ }
  else d

def Config.secret (c : Config) (apIdx : Nat) : Option (List U8) :=
  (c.bss[apIdx]?).bind fun bss => bss.servers[bss.current]?

/-- `Radius_client_send`, for the station that the request is about. -/
def radiusClientSend (env : Env) (d : Rtapd) (serial sta : Nat) (msg : RadiusMsg) (apIdx : Nat) :
    Outcome :=
  let o := env.send serial
  (d.conf.secret apIdx).bind fun secret =>
    (radiusMsgFinish o.mem env.digest msg secret).map fun msg =>
      (radiusClientListAdd o d serial msg secret apIdx, [.request serial sta msg])

/-- The pending request that a datagram with an identifier answers, and the others. -/
def takeRequest (id : U8) : List Entry → Option (Entry × List Entry)
  | [] => none
  | e :: es =>
    if e.msg.identifier = id then some (e, es)
    else (takeRequest id es).map fun (req, rest) => (req, e :: rest)

def radiusClientFlush (d : Rtapd) : Rtapd :=
  let d := d.cancelTimeout .radiusClientTimer
  { d with radius := { d.radius with msgs := [], numMsgs := 0 } }

/-- `Radius_client_retransmit`, less the sending; gives up when it was sent too often. -/
def radiusClientRetransmit (now : Nat) (e : Entry) : Option Entry :=
  let e := { e with
    attempts := e.attempts + 1
    nextTry := now + e.nextWait
    nextWait := min (e.nextWait * 2) radiusClientMaxWait }
  if radiusClientMaxRetries ≤ e.attempts then none else some e

/-- What the loop of `Radius_client_timer` makes of the list: the entries it keeps, how many it
removes, and the serials it sends again. -/
structure Retransmitted where
  msgs : List Entry
  removed : Nat
  again : List Nat

def retransmitAll (now : Nat) : List Entry → Retransmitted
  | [] => ⟨[], 0, []⟩
  | e :: es =>
    let r := retransmitAll now es
    if e.nextTry ≤ now then
      match radiusClientRetransmit now e with
      | none => ⟨r.msgs, r.removed + 1, e.serial :: r.again⟩
      | some e => ⟨e :: r.msgs, r.removed, e.serial :: r.again⟩
    else ⟨e :: r.msgs, r.removed, r.again⟩

def resetEntry (e : Entry) : Entry :=
  { e with
    nextTry := e.firstTry + radiusClientFirstWait, attempts := 0
    nextWait := radiusClientFirstWait * 2 }

/-- `Radius_change_server`, given the secrets of the two servers. -/
def radiusChangeServer (d : Rtapd) (nserv : List U8) (oserv : Option (List U8)) : Rtapd :=
  if oserv ≠ some nserv then radiusClientFlush d
  else
    let d := { d with radius := { d.radius with msgs := d.radius.msgs.map resetEntry } }
    if d.radius.msgs = [] then d
    else (d.cancelTimeout .radiusClientTimer).registerTimeout .radiusClientTimer

/-- Make the server at `next` the one in use on an interface. -/
def useServer (d : Rtapd) (i : Nat) (bss : Bss) (next : Nat) : Option Rtapd :=
  (bss.servers[next]?).map fun nserv =>
    radiusChangeServer
      { d with
        conf := { d.conf with bss := d.conf.bss.set i { bss with current := next } } }
      nserv bss.servers[bss.current]?

/-- The next server in the round, for an interface with a request that failed too often. -/
def failover (msgs : List Entry) (d : Rtapd) (i : Nat) : Option Rtapd :=
  match d.conf.bss[i]? with
  | none => some d
  | some bss =>
    if (msgs.any fun e => e.apIdx = i ∧ radiusClientNumFailover < e.attempts) ∧
        1 < bss.servers.length then
      useServer d i bss (if bss.current + 1 < bss.servers.length then bss.current + 1 else 0)
    else some d

/-- `Radius_client_timer`. -/
def radiusClientTimer (d : Rtapd) (now : Nat) : Outcome :=
  if d.radius.msgs = [] then some (d, [])
  else
    let r := retransmitAll now d.radius.msgs
    let d := { d with
      radius := { d.radius with
        msgs := r.msgs, numMsgs := d.radius.numMsgs - BitVec.ofNat 32 r.removed } }
    let d := if r.msgs = [] then d else d.registerTimeout .radiusClientTimer
    ((List.range d.conf.bss.length).foldlM (failover r.msgs) d).map fun d =>
      (d, r.again.map .retransmit)

def retryPrimary (d : Rtapd) (i : Nat) : Option Rtapd :=
  match d.conf.bss[i]? with
  | none => some d
  | some bss =>
    if bss.sockOpen ∧ bss.servers ≠ [] ∧ bss.current ≠ 0 then useServer d i bss 0 else some d

/-- `Radius_retry_primary_timer`. -/
def radiusRetryPrimaryTimer (d : Rtapd) : Option Rtapd :=
  ((List.range d.conf.bss.length).foldlM retryPrimary d).map fun d =>
    if d.conf.radiusRetryPrimaryInterval = 0 then d
    else d.registerTimeout .radiusRetryPrimaryTimer

end OpenwrtMtk.Dot1x
