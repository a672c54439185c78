import OpenwrtMtk.Ead.Crypt

/-!
# The ead server

`ead.c`: a packet of the right type runs its handler, the reply goes out, and then `set_state`
does the work of leaving the old state. Session objects are cells that `t_serveropenraw` adds and
`t_serverclose` frees. What the SRP library, the password file and the child process answer is an
argument of the step.
-/

namespace OpenwrtMtk.Ead

open Toolkit

set_option autoImplicit false

/-- `enum ead_type`. -/
inductive EadType where
  | ping | pong | setUsername | ackUsername | getPrime | prime | sendA | sendB | sendAuth | doneAuth
  | sendCmd | resultCmd
  deriving DecidableEq

def EadType.code : EadType → Nat
  | ping => 0
  | pong => 1
  | setUsername => 2
  | ackUsername => 3
  | getPrime => 4
  | prime => 5
  | sendA => 6
  | sendB => 7
  | sendAuth => 8
  | doneAuth => 9
  | sendCmd => 10
  | resultCmd => 11

def eadTypes : List EadType :=
  [.ping, .pong, .setUsername, .ackUsername, .getPrime, .prime, .sendA, .sendB, .sendAuth,
    .doneAuth, .sendCmd, .resultCmd]

/-- The constant of a type field; a packet of any other type is dropped. -/
def eadType (t : U32) : Option EadType := eadTypes.find? fun k => k.code = t.toNat

/-- A captured frame: its length on the wire, the fields that are tested, and the memory behind the
message header, which the frame fills as far as its length says. -/
structure Packet where
  hlen : Nat
  etherType : U16
  dhost : List U8
  proto : U8
  destport : U16
  magic : U32
  len : U32
  type : U32
  nid : U16
  sid : U16
  data : List U8

/-- A session object: the user it was opened for, its salt, and `B` once it is generated. -/
structure TServer where
  owner : List U8
  salt : List U8
  B : List U8
  deriving DecidableEq

/-- What `prepare_password` leaves behind. -/
structure Password where
  tceIndex : U8
  extSalt : List U8
  deriving DecidableEq

structure State where
  state : EadType
  username : List U8
  ts : Option Nat
  /-- `B` points into this session object. -/
  B : Option Nat
  A : List U8
  password : Password
  crypt : Crypt
  /-- Every session object ever opened; a freed one is `none`. -/
  servers : List (Option TServer)
  deriving DecidableEq

structure Config where
  nid : U16
  instanceId : U16
  devName : List U8

/-- One round of console output, and what the packet buffer holds behind it. -/
structure Chunk where
  bytes : List U8
  stale : Nat → U8

/-- The answers of the parts outside: the password file, the SRP library and the child process. -/
structure Oracle where
  prepare : Option Password
  openraw : Option (List U8)
  genexp : List U8
  getkey : Option (List U8)
  verify : Bool
  response : List U8
  /-- `pipe` and `fork` succeed. -/
  started : Bool
  chunks : List Chunk
  /-- The child ends before the timeout. -/
  finished : Bool
  stale : Nat → U8

structure Reply where
  type : Nat
  nid : U16
  sid : U16
  body : List U8
  deriving DecidableEq

/-- A command given to `system`, and the encrypted message and vector it came in. -/
structure Executed where
  wire : List U8
  iv : U32
  command : List U8
  deriving DecidableEq

/-- What a step does besides changing the variables, in order. -/
inductive Effect where
  | userSet (username : List U8)
  | opened (id : Nat) (username : List U8)
  | closed (id : Nat)
  | keySet (id : Nat) (skey : List U8)
  | verified (id : Nat) (ok : Bool)
  | decrypting
  | executed (x : Executed)
  | sealed (m : Sealed)
  | sent (r : Reply)
  deriving DecidableEq

/-- `ts`, when it is dereferenced. -/
def State.server (s : State) : Except Fault (Nat × TServer) :=
  match s.ts with
  | none => .error .nullTs
  | some id =>
    match s.servers[id]? with
    | some (some t) => .ok (id, t)
    | _ => .error .closedTs

/-- `*B`. -/
def State.exponent (s : State) : Except Fault (List U8) :=
  match s.B with
  | none => .error .nullB
  | some id =>
    match s.servers[id]? with
    | some (some t) => .ok t.B
    | _ => .error .closedTs

abbrev Result := Except Fault (State × List Effect)

/-- The work of `set_state` on leaving a state for a later one. -/
def leaveState (o : Oracle) (s : State) (nstate : EadType) : Result :=
  match s.state with
  | .setUsername =>
    match o.prepare with
    | none => .ok (s, [])
    | some password =>
      match o.openraw with
      | none => .ok ({ s with password := password, ts := none }, [])
      | some salt =>
        .ok ({ s with
          password := password
          ts := some s.servers.length
          servers := s.servers ++ [some ⟨s.username, salt, []⟩]
          state := nstate }, [.opened s.servers.length s.username])
  | .getPrime =>
    s.server.map fun (id, t) =>
      ({ s with
        B := some id
        servers := s.servers.set id (some { t with B := o.genexp })
        state := nstate }, [])
  | .sendA =>
    s.server.map fun (id, _) =>
      match o.getkey with
      | none => (s, [])
      | some skey =>
        ({ s with crypt := eadSetKey s.crypt skey, state := nstate }, [.keySet id skey])
  | _ => .ok ({ s with state := nstate }, [])

def setState (o : Oracle) (s : State) (nstate : EadType) : Result :=
  if s.state = nstate then .ok (s, [])
  else if nstate.code < s.state.code then
    if nstate.code < EadType.getPrime.code ∧ EadType.getPrime.code ≤ s.state.code then
      s.server.map fun (id, _) =>
        ({ s with ts := none, servers := s.servers.set id none, state := nstate }, [.closed id])
    else .ok ({ s with state := nstate }, [])
  else leaveState o s nstate

/-- What a handler returns: the body of its reply, if it has one, and the next state. -/
structure Handled where
  reply : Option (List U8)
  nstate : EadType
  s : State
  effects : List Effect

def eadAuthMd5 : U8 := 1

def handlePing (cfg : Config) (s : State) : Except Fault Handled :=
  .ok ⟨some (0 :: eadAuthMd5 :: cfg.devName.take 1024), s.state, s, []⟩

/-- The C string that `strncpy` leaves in a buffer of 32 bytes. -/
def userName (data : List U8) : List U8 := (data.take 31).takeWhile (· ≠ 0)

def handleSetUsername (o : Oracle) (s : State) (pkt : Packet) : Except Fault Handled :=
  (setState o s .setUsername).map fun (s, effects) =>
    ⟨some [], .getPrime, { s with username := userName pkt.data },
      effects ++ [.userSet (userName pkt.data)]⟩

def maxSaltLen : Nat := 32

def handleGetPrime (o : Oracle) (s : State) : Except Fault Handled :=
  s.server.map fun (_, t) =>
    ⟨some ((s.password.tceIndex - 1) :: BitVec.ofNat 8 t.salt.length :: t.salt ++
      (List.range (maxSaltLen - t.salt.length)).map o.stale ++ s.password.extSalt),
      .sendA, s, []⟩

/-- `MAXPARAMLEN`. -/
def maxParamLen : Nat := 256

def handleSendA (o : Oracle) (s : State) (pkt : Packet) : Except Fault Handled :=
  let len := (pkt.len - 1).toInt
  if (maxParamLen + 1 : Nat) < len then .ok ⟨none, s.state, s, []⟩
  else if len < 0 then .error .overrun
  else if pkt.data.length < 1 + len.toNat then .error .overread
  else
    s.exponent.map fun B =>
      ⟨some (o.stale 0 :: B), .sendAuth, { s with A := slice pkt.data 1 len.toNat }, []⟩

def handleSendAuth (o : Oracle) (s : State) : Except Fault Handled :=
  s.server.map fun (id, _) =>
    if o.verify then ⟨some (o.response.take 20), .sendCmd, s, [.verified id true]⟩
    else ⟨none, .setUsername, s, [.verified id false]⟩

/-- `enum ead_cmd_type`. -/
inductive CmdType where
  | normal | background
  deriving DecidableEq

/-- `ntohs(cmd->type)` of the one byte field, on a little-endian machine. -/
def ntohsByte (b : U8) : U16 := b ++ (0 : U8)

def cmdType (b : U8) : Option CmdType :=
  if ntohsByte b = 0 then some .normal else if ntohsByte b = 1 then some .background else none

/-- The console output, round by round, each encrypted and sent. -/
def streamOutput (K : Cipher) : Crypt → List Chunk → Crypt × List Sealed
  | c, [] => (c, [])
  | c, chunk :: chunks =>
    let (c, m) := eadEncryptMessage K c (0 :: chunk.bytes) chunk.stale
    let (c, ms) := streamOutput K c chunks
    (c, m :: ms)

/-- The command of a decrypted message: `datalen` bytes at most, up to a zero. -/
def commandText (plain : List U8) (datalen : Nat) : List U8 :=
  ((plain.drop (sizeofEncrypted + 3)).take datalen).takeWhile (· ≠ 0)

/-- A normal command: run it, stream its output, and close with `done`. -/
def runNormal (K : Cipher) (o : Oracle) (s : State) (x : Executed) : Handled :=
  let (c, ms) := streamOutput K s.crypt o.chunks
  if o.finished then
    let (c, m) := eadEncryptMessage K c [1] o.stale
    ⟨some m.wire, s.state, { s with crypt := c },
      .executed x :: (ms ++ [m]).map .sealed⟩
  else ⟨none, s.state, { s with crypt := c }, .executed x :: ms.map .sealed⟩

/-- A background command: run it and answer `done` at once. -/
def runBackground (K : Cipher) (o : Oracle) (s : State) (x : Executed) : Handled :=
  let (c, m) := eadEncryptMessage K s.crypt [1] o.stale
  ⟨some m.wire, s.state, { s with crypt := c }, [.executed x, .sealed m]⟩

def handleSendCmd (K : Cipher) (o : Oracle) (s : State) (pkt : Packet) : Except Fault Handled :=
  match eadDecryptMessage K s.crypt pkt.len pkt.data with
  | .error f => .error f
  | .ok (c, enclen, plain) =>
    let s := { s with crypt := c }
    let datalen := (enclen - 3).toInt
    if datalen ≤ 0 then .ok ⟨none, s.state, s, [.decrypting]⟩
    else
      let x : Executed :=
        ⟨pkt.data.take pkt.len.toInt.toNat, ntohl (slice plain 20 4),
          commandText plain datalen.toNat⟩
      match cmdType (plain.getD sizeofEncrypted 0), o.started with
      | some .normal, true =>
        let h := runNormal K o s x
        .ok { h with effects := .decrypting :: h.effects }
      | some .background, true =>
        let h := runBackground K o s x
        .ok { h with effects := .decrypting :: h.effects }
      | _, _ => .ok ⟨none, s.state, s, [.decrypting]⟩

/-- `sizeof(struct ead_packet)`. -/
def sizeofPacket : Nat := 62

/-- The handler of a type and the bytes it needs behind the header. -/
def handlerOf (cfg : Config) (K : Cipher) (o : Oracle) (s : State) (pkt : Packet) :
    EadType → Option (Nat × Except Fault Handled)
  | .ping => some (0, handlePing cfg s)
  | .setUsername => some (32, handleSetUsername o s pkt)
  | .getPrime => some (0, handleGetPrime o s)
  | .sendA => some (1, handleSendA o s pkt)
  | .sendAuth => some (20, handleSendAuth o s)
  | .sendCmd => some (3 + sizeofEncrypted, handleSendCmd K o s pkt)
  | _ => none

def instanceOf (sid : U16) : U16 := (sid &&& 0xf000) >>> 12

/-- The tests of `parse_message` before it dispatches. -/
def dispatches (cfg : Config) (s : State) (pkt : Packet) (t : EadType) : Prop :=
  (t.code < EadType.getPrime.code ∨ s.state = t) ∧
    (t = .ping ∨ instanceOf pkt.sid = cfg.instanceId)

instance (cfg : Config) (s : State) (pkt : Packet) (t : EadType) :
    Decidable (dispatches cfg s pkt t) :=
  inferInstanceAs (Decidable (_ ∧ _))

def finish (cfg : Config) (o : Oracle) (pkt : Packet) (t : EadType) (h : Handled) : Result :=
  let sent := h.reply.toList.map fun body => Effect.sent ⟨t.code + 1, cfg.nid, pkt.sid, body⟩
  (setState o h.s h.nstate).map fun (s, effects) => (s, h.effects ++ sent ++ effects)

def parseMessage (cfg : Config) (K : Cipher) (o : Oracle) (s : State) (pkt : Packet) : Result :=
  match eadType pkt.type with
  | none => .ok (s, [])
  | some t =>
    if dispatches cfg s pkt t then
      match handlerOf cfg K o s pkt t with
      | none => .ok (s, [])
      | some (need, handled) =>
        if pkt.hlen < sizeofPacket + need then .ok (s, [])
        else handled.bind (finish cfg o pkt t)
    else .ok (s, [])

def ethertypeIp : U16 := 0x0800
def uipProtoUdp : U8 := 17
def eadPort : U16 := 56026
def eadMagic : U32 := 3671771902
def broadcast : List U8 := List.replicate 6 0xff

/-- The tests of `handle_packet`; the sum of the sizes is a 32 bit one. -/
def wellFramed (cfg : Config) (pkt : Packet) : Prop :=
  sizeofPacket ≤ pkt.hlen ∧ pkt.etherType = ethertypeIp ∧ pkt.dhost = broadcast ∧
    pkt.proto = uipProtoUdp ∧ pkt.destport = eadPort ∧ pkt.magic = eadMagic ∧
    (BitVec.ofNat 32 sizeofPacket + pkt.len).toNat ≤ pkt.hlen ∧
    (pkt.nid = 0xffff ∨ pkt.nid = cfg.nid)

instance (cfg : Config) (pkt : Packet) : Decidable (wellFramed cfg pkt) :=
  inferInstanceAs (Decidable (_ ∧ _))

def handlePacket (cfg : Config) (K : Cipher) (o : Oracle) (s : State) (pkt : Packet) : Result :=
  if wellFramed cfg pkt then parseMessage cfg K o s pkt else .ok (s, [])

end OpenwrtMtk.Ead
