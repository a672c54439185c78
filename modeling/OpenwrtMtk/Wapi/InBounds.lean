import OpenwrtMtk.Wapi.Accesses

/-!
# Where the accesses stay in bounds

For every frame and every queued message, exactly when what is read, copied and written stays inside; and
that a run stays inside if and only if this holds of all its frames and messages.
-/

namespace OpenwrtMtk.Wapi

open Toolkit

set_option autoImplicit false

section Receive

def Rx.Continues (rx : Rx) (pos : List U8) : Prop :=
  waiPktSeq rx.fragFrame = waiPktSeq pos ∧
    (waiFragSeq rx.fragFrame).toNat + 1 = (waiFragSeq pos).toNat

def Rx.Fits (rx : Rx) (pos : List U8) : Prop :=
  if waiFragSeq pos = 0 then lengthHeaderWai ≤ pos.length
  else
    11 ≤ pos.length ∧ rx.totalFragLen ≠ 0 ∧
      (rx.Continues pos → lengthHeaderWai ≤ pos.length ∧
        rx.totalFragLen + (pos.length - lengthHeaderWai) ≤ fragFrameSize)

def waiPayload (wlanAddrs : List MacAddr) (rx : Rx) (f : L2Frame) : Option (List U8) :=
  if f.data.length < lengthHeaderWai ∨ f.untagged.1 ≠ ethPWapi ∨ f.daddr ∉ wlanAddrs ∨
      rx.entryFor f.saddr = none ∨ f.untagged.2.take 3 = ralinkSpecificIe then none
  else some f.untagged.2

def FrameFits (wlanAddrs : List MacAddr) (rx : Rx) (f : L2Frame) : Prop :=
  ∀ pos, waiPayload wlanAddrs rx f = some pos → rx.Fits pos

variable {rx : Rx} {f : L2Frame} {pos : List U8} {rcvdLen start off n : Nat}

end Receive

section Handlers

variable {c : Crypto} {env : Env} {elem : Elem} {s : Side} {off n : Nat}

/-- A request is refused for its `BKID` or for its key index, or it is a whole one. -/
def UcastKeyReqFits (c : Crypto) (elem : Elem) (s : Side) : Prop :=
  let pMsg := UcastKeyReqFrame.read elem.body
  s.entry.valid = true →
    lengthHeaderWai + 17 ≤ elem.msgLen ∧
      ((s.asAsue c).entry.bkid = pMsg.bkid →
        if uskRenewIsOn pMsg.flag = true ∧ pMsg.uskid = s.entry.uskid then
          lengthHeaderWai + 18 ≤ elem.msgLen
        else lengthHeaderWai + 62 ≤ elem.msgLen)

def WieFits (env : Env) (elem : Elem) (size : Nat) : Prop :=
  ∀ wie, env.wie = some wie → lengthHeaderWai + size + wie.length ≤ elem.msgLen

def UcastKeyRespFits (env : Env) (elem : Elem) (s : Side) : Prop :=
  lengthHeaderWai + UcastKeyRespFrame.size < elem.msgLen → s.entry.valid = true →
    uskRenewIsOn (UcastKeyRespFrame.read elem.body).flag = false →
      WieFits env elem UcastKeyRespFrame.size

def UcastKeyCfmFits (c : Crypto) (env : Env) (elem : Elem) (s : Side) : Prop :=
  lengthHeaderWai + UcastKeyCfmFrame.size < elem.msgLen →
    (UcastKeyCfmFrame.read elem.body).asueChallenge = s.entry.snonce →
      elem.rcvdMac = msgAuthCode c s.entry.mak elem.authenticated →
        uskRenewIsOn (UcastKeyCfmFrame.read elem.body).flag = false →
          WieFits env elem UcastKeyCfmFrame.size

def McastKeyNotifyFits (c : Crypto) (elem : Elem) (s : Side) : Prop :=
  lengthHeaderWai + lenMsgAuthCode ≤ elem.msgLen ∧
    (elem.rcvdMac = msgAuthCode c s.entry.mak elem.authenticated →
      lengthHeaderWai + 64 ≤ elem.msgLen)

def KeyActionFits (c : Crypto) (env : Env) (elem : Elem) (s : Side) : WaiKeyMsg → Prop
  | .peerUcastKeyReq => UcastKeyReqFits c elem s
  | .peerUcastKeyResp => UcastKeyRespFits env elem s
  | .peerUcastKeyCfm => UcastKeyCfmFits c env elem s
  | .peerMcastKeyNotify => McastKeyNotifyFits c elem s
  | _ => True

/-- The message has no action in the state of its station, or it fits its handler. -/
def KeyFits (c : Crypto) (env : Env) (elem : Elem) (s : Side) (msg : WaiKeyMsg) : Prop :=
  s.entry.valid = true → msg ∈ keyActions s.entry.waiKeyState → KeyActionFits c env elem s msg

end Handlers

section Runs

variable {c : Crypto} {s s' : Daemon} {e : DaemonEvent}

def Daemon.Fits (c : Crypto) (s : Daemon) : DaemonEvent → Prop
  | .frame buf _ => FrameFits s.wlanAddrs s.rx (.ofBuffer (buf.take rxBuffer))
  | .mlme .turn env =>
    ∀ msg e, s.dispatched = some (msg, e) → KeyFits c env e.elem (s.entries e.wcid) msg
  | _ => True

end Runs

end OpenwrtMtk.Wapi
