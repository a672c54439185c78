import OpenwrtMtk.Wapi.KeyHandlers
import OpenwrtMtk.Wapi.Mlme

/-!
# The memory that received frames reach

What `wapi_handle_l2_receive` reads, copies and writes, and what the handlers of the key frames read
of a queued message, in the order of the code. The daemon receives frames, runs its queue and keeps a
log of these accesses.
-/

namespace OpenwrtMtk.Wapi

open Toolkit

set_option autoImplicit false

def rxBuffer : Nat := 2048

/-- An access, with what it has to stay in. -/
inductive Access where
  /-- Bytes of a frame of `rcvdLen` bytes are read. -/
  | received (rcvdLen off n : Nat)
  /-- Bytes of the reassembly buffer are read, `total` bytes of which are recorded. -/
  | recorded (total off n : Nat)
  /-- The length of a copy. -/
  | copied (n : Int)
  /-- Bytes of the reassembly buffer are written. -/
  | written (off n : Nat)
  /-- Bytes of a queued message are read. -/
  | message (msgLen : Nat) (off n : Int)
  deriving DecidableEq

section Receive

def L2Frame.ofBuffer (buf : List U8) : L2Frame where
  daddr := field buf 0 6
  saddr := field buf 6 6
  etherType := wordOf (byteAt buf 12) (byteAt buf 13)
  data := buf.drop lenHeader8023

def L2Frame.start (f : L2Frame) : Nat :=
  if f.etherType = ethPVlan ∧ wordOf (byteAt f.data 2) (byteAt f.data 3) = ethPWapi then
    lenHeader8023 + 4
  else lenHeader8023

/-- A read of a frame of `rcvdLen` bytes whose payload starts at `start`. -/
def posRead (rcvdLen start off n : Nat) : Access := .received rcvdLen (start + off) n

/-- `MlmeEnqueueForRecv` with the payload. -/
def enqueueAccesses (rcvdLen start n : Nat) : List Access :=
  [posRead rcvdLen start 2 2, .copied n, posRead rcvdLen start 0 n]

/-- The header is replaced, and what is behind it is appended to the `n` bytes. -/
def copyAccesses (rcvdLen start n : Nat) (pos : List U8) : List Access :=
  let more := pos.length - lengthHeaderWai
  [posRead rcvdLen start 0 lengthHeaderWai, .written 0 lengthHeaderWai,
    .copied ((pos.length : Int) - lengthHeaderWai), posRead rcvdLen start lengthHeaderWai more,
    .written n more, posRead rcvdLen start 11 1] ++
    if waiFlag pos = 0 then [.recorded (n + more) 2 2, .recorded (n + more) 0 (n + more)] else []

/-- A fragment that is neither the only one nor the first, as in `Rx.append`. -/
def Rx.appendAccesses (rx : Rx) (rcvdLen start : Nat) (pos : List U8) : List Access :=
  [.recorded rx.totalFragLen 8 2, posRead rcvdLen start 8 2] ++
    if waiPktSeq rx.fragFrame ≠ waiPktSeq pos then []
    else
      [.recorded rx.totalFragLen 10 1] ++
        if (waiFragSeq rx.fragFrame).toNat + 1 ≠ (waiFragSeq pos).toNat then []
        else copyAccesses rcvdLen start rx.totalFragLen pos

/-- A WAI frame of a station that has an entry, as in `Rx.reassemble`. The second fields are read only
where the first are zero. -/
def Rx.reassembleAccesses (rx : Rx) (rcvdLen start : Nat) (pos : List U8) : List Access :=
  [posRead rcvdLen start 10 1] ++
    if waiFragSeq pos = 0 then
      [posRead rcvdLen start 11 1] ++
        if waiFlag pos = 0 then enqueueAccesses rcvdLen start pos.length
        else
          [posRead rcvdLen start 6 2, .copied pos.length, posRead rcvdLen start 0 pos.length,
            .written 0 pos.length]
    else [posRead rcvdLen start 6 2] ++ rx.appendAccesses rcvdLen start pos

def L2Frame.tagReads (f : L2Frame) (rcvdLen : Nat) : List Access :=
  if f.etherType = ethPVlan then
    [posRead rcvdLen lenHeader8023 2 2] ++
      if f.untagged.1 = ethPWapi then [posRead rcvdLen lenHeader8023 0 2] else []
  else []

/-- `wapi_handle_l2_receive` with a frame of `rcvdLen` bytes. -/
def receiveAccesses (wlanAddrs : List MacAddr) (rx : Rx) (f : L2Frame) : List Access :=
  let rcvdLen := lenHeader8023 + f.data.length
  if f.data.length < lengthHeaderWai then []
  else
    [.received rcvdLen 12 2] ++ f.tagReads rcvdLen ++
      let (etherType, pos) := f.untagged
      if etherType ≠ ethPWapi then []
      else
        [.received rcvdLen 0 6] ++
          if f.daddr ∉ wlanAddrs then []
          else
            [.received rcvdLen 6 6] ++
              match rx.entryFor f.saddr with
              | none => []
              | some rx =>
                [posRead rcvdLen f.start 0 3] ++
                  if pos.take 3 = ralinkSpecificIe then [posRead rcvdLen f.start 3 1]
                  else rx.reassembleAccesses rcvdLen f.start pos

end Receive

section Handlers

variable (c : Crypto) (env : Env) (elem : Elem) (s : Side)

def Elem.readAt (off n : Nat) : Access := .message elem.msgLen (lengthHeaderWai + off) n

def Elem.readMac : Access := .message elem.msgLen ((elem.msgLen : Int) - lenMsgAuthCode) lenMsgAuthCode

/-- `hmac_sha256` over what is before the code. -/
def Elem.readAuthenticated : Access :=
  .message elem.msgLen lengthHeaderWai ((elem.msgLen : Int) - lengthHeaderWai - lenMsgAuthCode)

def acceptUcastKeyReqAccesses : List Access :=
  [elem.readAt 30 32] ++ if env.malloc = false then [] else [elem.readAt 0 1]

def ucastKeyReqAccesses : List Access :=
  if s.entry.valid = false then []
  else
    let pMsg := UcastKeyReqFrame.read elem.body
    let s := s.asAsue c
    [elem.readAt 1 16] ++
      if s.entry.bkid ≠ pMsg.bkid then []
      else
        [elem.readAt 0 1] ++
          if uskRenewIsOn pMsg.flag = false then acceptUcastKeyReqAccesses env elem
          else
            [elem.readAt 17 1] ++
              if pMsg.uskid = s.entry.uskid then []
              else
                [elem.readAt 30 32] ++
                  if pMsg.aeChallenge ≠ s.entry.ptkSeed then []
                  else acceptUcastKeyReqAccesses env elem

def wieAccesses (size : Nat) : List Access :=
  (env.wie.map fun wie => elem.readAt size wie.length).toList

def verifyUcastKeyRespAccesses (pMsg : UcastKeyRespFrame) : List Access :=
  [elem.readAt 62 32] ++
    if pMsg.aeChallenge ≠ s.entry.anonce then []
    else
      [elem.readAt 30 32, elem.readAuthenticated] ++
        if elem.rcvdMac ≠ msgAuthCode c (s.deriveFrom c pMsg).entry.mak elem.authenticated then []
        else if env.malloc = false then []
        else
          [elem.readAt 0 1, elem.readAt 1 16, elem.readAt 17 1, elem.readAt 18 12,
            elem.readAt 30 32]

def ucastKeyRespAccesses : List Access :=
  let pMsg := UcastKeyRespFrame.read elem.body
  if elem.msgLen ≤ lengthHeaderWai + UcastKeyRespFrame.size then []
  else if s.entry.valid = false then []
  else
    [elem.readMac, elem.readAt 0 1] ++
      if uskRenewIsOn pMsg.flag then
        [elem.readAt 17 1] ++
          if pMsg.uskid = s.entry.uskid then []
          else verifyUcastKeyRespAccesses c env elem (s.setUskid pMsg.uskid) pMsg
      else
        wieAccesses env elem UcastKeyRespFrame.size ++
          if wieMatches env elem UcastKeyRespFrame.size = false then []
          else verifyUcastKeyRespAccesses c env elem s pMsg

def ucastKeyCfmAccesses : List Access :=
  let pMsg := UcastKeyCfmFrame.read elem.body
  if elem.msgLen ≤ lengthHeaderWai + UcastKeyCfmFrame.size then []
  else
    [elem.readMac, elem.readAt 30 32] ++
      if pMsg.asueChallenge ≠ s.entry.snonce then []
      else
        [elem.readAuthenticated] ++
          if elem.rcvdMac ≠ msgAuthCode c s.entry.mak elem.authenticated then []
          else
            [elem.readAt 0 1] ++
              if uskRenewIsOn pMsg.flag = false then wieAccesses env elem UcastKeyCfmFrame.size
              else []

def mcastKeyRespAccesses : List Access :=
  let pMsg := McastKeyRespFrame.read elem.body
  if elem.msgLen < lengthHeaderWai + McastKeyRespFrame.size then []
  else if s.entry.valid = false then []
  else
    [elem.readMac, elem.readAuthenticated] ++
      if elem.rcvdMac ≠ msgAuthCode c s.entry.mak elem.authenticated then []
      else
        [elem.readAt 1 1] ++
          if pMsg.mskid ≠ s.mbss.mskid then []
          else
            [elem.readAt 2 1] ++ if pMsg.uskid ≠ s.entry.uskid then [] else [elem.readAt 3 12]

/-- The response is built from the message when there is memory for it. -/
def mcastKeyNotifyAccesses : List Access :=
  [elem.readMac, elem.readAuthenticated] ++
    if elem.rcvdMac ≠ msgAuthCode c s.entry.mak elem.authenticated then []
    else
      [elem.readAt 31 16, elem.readAt 1 1, elem.readAt 48 16] ++
        if env.malloc = false then []
        else
          [elem.readAt 0 1, elem.readAt 1 1, elem.readAt 2 1, elem.readAt 3 12,
            elem.readAt 31 16] ++
            if env.send = false then [] else [elem.readAt 15 16]

/-- What an action reads of its message. The messages of the daemon itself are not read. -/
def keyActionAccesses : WaiKeyMsg → List Access
  | .peerUcastKeyReq => ucastKeyReqAccesses c env elem s
  | .peerUcastKeyResp => ucastKeyRespAccesses c env elem s
  | .peerUcastKeyCfm => ucastKeyCfmAccesses c env elem s
  | .peerMcastKeyNotify => mcastKeyNotifyAccesses c env elem s
  | .peerMcastKeyResp => mcastKeyRespAccesses c elem s
  | .mlmeUcastKeyReq | .mlmeUcastKeyResp | .mlmeMcastKeyNotify => []

def keyAccesses (msg : WaiKeyMsg) : List Access :=
  if s.entry.valid = false then []
  else if msg ∈ keyActions s.entry.waiKeyState then keyActionAccesses c env elem s msg
  else []

end Handlers

section Daemon

def keyMsgOf (msgType : U32) : Option WaiKeyMsg :=
  match msgType.toNat with
  | 0 => some .mlmeUcastKeyReq
  | 1 => some .peerUcastKeyReq
  | 2 => some .mlmeUcastKeyResp
  | 3 => some .peerUcastKeyResp
  | 4 => some .peerUcastKeyCfm
  | 5 => some .mlmeMcastKeyNotify
  | 6 => some .peerMcastKeyNotify
  | 7 => some .peerMcastKeyResp
  | _ => none

/-- The daemon: its interfaces, the reassembly buffer, the queue, the entries and the accesses so
far. -/
structure Daemon where
  wlanAddrs : List MacAddr
  rx : Rx
  task : Task
  entries : U8 → Side
  log : List Access

/-- `wapi_data_init`: the buffer is not cleared. -/
def Daemon.start (wlanAddrs : List MacAddr) (fragFrame : List U8) (q : MlmeQueue)
    (stations : Fin maxStaNum → Bool) (entries : U8 → Side) : Daemon :=
  ⟨wlanAddrs, ⟨[], fragFrame, 0⟩, .start q stations, entries, []⟩

inductive DaemonEvent where
  /-- A frame is received; `wcid` is the number of the station in the table. -/
  | frame (buf : List U8) (wcid : U32)
  /-- The queue is used or runs; a turn of it may start an action. -/
  | mlme (e : MlmeEvent) (env : Env)
  /-- What timers, the driver and the authentication make of the entries. -/
  | entries (sides : U8 → Side)

/-- The element whose action the next turn starts, if it is one of the key state machine. -/
def Daemon.dispatched (s : Daemon) : Option (WaiKeyMsg × QueueElem) :=
  let e := s.task.queue.entry s.task.queue.head
  if s.task.queue.empty = false ∧ stationValid s.task.stations e.wcid = true ∧
      e.machine = waiKeyStateMachine then
    (keyMsgOf e.msgType).map fun msg => (msg, e)
  else none

def QueueElem.elem (e : QueueElem) : Elem := ⟨e.msg, e.msgLen⟩

variable (c : Crypto)

/-- The received bytes; `recv` cuts a longer frame. -/
def Daemon.receives (s : Daemon) (buf : List U8) : List Access :=
  receiveAccesses s.wlanAddrs s.rx (.ofBuffer (buf.take rxBuffer))

/-- A delivered message is put into the queue; its first four bytes are read also when it is
shorter. -/
def Daemon.deliver (s : Daemon) (wcid : U32) (d : Delivery) : Daemon :=
  { s with task := (mlmeEnqueueForRecv s.task ⟨wcid, d.msg.length,
      ⟨d.msg ++ List.replicate 4 0, by simp⟩⟩).1 }

/-- `wapi_handle_l2_receive`. Behind a copy that leaves its buffer nothing is known of the state. -/
def Daemon.receive (s : Daemon) (buf : List U8) (wcid : U32) : Daemon :=
  let s' := { s with log := s.log ++ s.receives buf }
  match wapiHandleL2Receive s.wlanAddrs s.rx (.ofBuffer (buf.take rxBuffer)) with
  | none => s'
  | some (rx, none) => { s' with rx := rx }
  | some (rx, some d) => { s' with rx := rx }.deliver wcid d

def Daemon.act (s : Daemon) (env : Env) : Daemon :=
  match s.dispatched with
  | none => s
  | some (msg, e) =>
    let side := s.entries e.wcid
    { s with
      entries := Function.update s.entries e.wcid
        ((mlmeHandler c env e.elem side msg).elim side Prod.fst)
      log := s.log ++ keyAccesses c env e.elem side msg }

/-- The next state; `none` when the event cannot happen there. Frames are received between the runs
of the queue. -/
def Daemon.step (s : Daemon) : DaemonEvent → Option Daemon
  | .frame buf wcid => if s.task.stack.isEmpty then some (s.receive buf wcid) else none
  | .mlme .turn env => (s.task.step .turn).map fun task => { s.act c env with task := task }
  | .mlme e _ => (s.task.step e).map fun task => { s with task := task }
  | .entries sides => some { s with entries := sides }

end Daemon

end OpenwrtMtk.Wapi
