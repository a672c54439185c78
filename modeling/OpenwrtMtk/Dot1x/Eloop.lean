import Mathlib.Logic.Function.Basic
import OpenwrtMtk.Lib.Bytes
import OpenwrtMtk.Lib.Run

/-!
# The event loop

`eloop.c`, one file in 8021xd and wapid: the timeouts in the order of their times, the sockets, and
`eloop_run`, which waits for either and calls the handlers. What a handler does to the loop are the
calls it makes before it returns. An access to a timeout that is not allocated has no result, nor
has a walk that meets more timeouts than are allocated.
-/

namespace OpenwrtMtk.Dot1x.Eloop

open Toolkit

set_option autoImplicit false

/-- A context, or the address of a handler or of a timeout. -/
abbrev Ptr := BitVec 32

/-- `ELOOP_ALL_CTX`. -/
def eloopAllCtx : Ptr := BitVec.allOnes 32

/-- `struct timeval`. -/
structure TimeVal where
  sec : Int
  usec : Int
  deriving DecidableEq

/-- `timercmp(a, b, CMP)`. -/
def timercmp (cmp : Int → Int → Bool) (a b : TimeVal) : Bool :=
  if a.sec = b.sec then cmp a.usec b.usec else cmp a.sec b.sec

def before (a b : TimeVal) : Bool := timercmp (fun x y => x < y) a b

def reached (now t : TimeVal) : Bool := timercmp (fun x y => x ≥ y) now t

/-- `timersub`. -/
def timersub (a b : TimeVal) : TimeVal :=
  if a.usec - b.usec < 0 then ⟨a.sec - b.sec - 1, a.usec - b.usec + 1000000⟩
  else ⟨a.sec - b.sec, a.usec - b.usec⟩

/-- `x += n` for a `long` of 32 bits and an `unsigned int`. -/
def addUnsigned (x : Int) (n : U32) : Int := (x + n.toNat).bmod (2 ^ 32)

/-- `while (tv_usec >= 1000000)`, for so many turns. -/
def carry : Nat → TimeVal → TimeVal
  | 0, t => t
  | n + 1, t => if 1000000 ≤ t.usec then carry n ⟨t.sec + 1, t.usec - 1000000⟩ else t

def expiry (now : TimeVal) (secs usecs : U32) : TimeVal :=
  carry ((addUnsigned now.usec usecs).toNat / 1000000)
    ⟨addUnsigned now.sec secs, addUnsigned now.usec usecs⟩

/-- When a timeout comes, and what is called then. -/
structure Timer where
  time : TimeVal
  eloopData : Ptr
  userData : Ptr
  handler : Ptr
  deriving DecidableEq

/-- `struct eloop_timeout`. -/
structure EloopTimeout extends Timer where
  next : Option Ptr

/-- `struct eloop_sock`. -/
structure EloopSock where
  sock : Int
  eloopData : Ptr
  userData : Ptr
  handler : Ptr
  deriving DecidableEq

/-- `struct eloop_data` and the timeouts in memory; `live` are the allocated ones. -/
structure EloopData where
  maxSock : Int
  readers : List EloopSock
  timeout : Option Ptr
  terminate : Bool
  live : List Ptr
  node : Ptr → EloopTimeout

namespace EloopData

variable (d : EloopData)

def next (p : Ptr) : Option Ptr := (d.node p).next

def timer (p : Ptr) : Timer := (d.node p).toTimer

def alloc (p : Ptr) (t : Timer) : EloopData :=
  { d with live := p :: d.live, node := Function.update d.node p ⟨t, none⟩ }

def setNext (p : Ptr) (target : Option Ptr) : EloopData :=
  { d with node := Function.update d.node p { d.node p with next := target } }

/-- `if (prev == NULL) eloop.timeout = target; else prev->next = target`. -/
def link (prev target : Option Ptr) : Option EloopData :=
  match prev with
  | none => some { d with timeout := target }
  | some p => if p ∈ d.live then some (d.setNext p target) else none

def free (p : Ptr) : Option EloopData :=
  if p ∈ d.live then some { d with live := d.live.filter (· ≠ p) } else none

end EloopData

def fuel (d : EloopData) : Nat := d.live.length + 1

/-- What the loop does that can be seen from outside. -/
inductive Did where
  | registered (t : Timer)
  | refused
  | cancelled (handler eloopData userData : Ptr) (removed : Nat)
  | asked (now : TimeVal) (nfds : Int) (rfds : List Int) (timeout : Option TimeVal)
  | checked (now : TimeVal) (called : Option Timer)
  | read (s : EloopSock)
  | left
  deriving DecidableEq

/-- The search of `eloop_register_timeout`, for `prev` and `tmp`. -/
def findPlace (d : EloopData) (time : TimeVal) :
    Nat → Option Ptr → Option Ptr → Option (Option Ptr)
  | 0, _, _ => none
  | _ + 1, prev, none => some prev
  | n + 1, prev, some tmp =>
    if tmp ∈ d.live then
      if before time (d.timer tmp).time then some prev
      else findPlace d time n (some tmp) (d.next tmp)
    else none

/-- `mem` is what `malloc` returns, and `now` is the time of the call. -/
def eloopRegisterTimeout (d : EloopData) (now : TimeVal) (mem : Option Ptr) (secs usecs : U32)
    (handler eloopData userData : Ptr) : Logged EloopData Did :=
  match mem with
  | none => some (d, [.refused])
  | some timeout =>
    let t : Timer := ⟨expiry now secs usecs, eloopData, userData, handler⟩
    let d := d.alloc timeout t
    match d.timeout with
    | none => some ({ d with timeout := some timeout }, [.registered t])
    | some head =>
      (findPlace d t.time (fuel d) none (some head)).bind fun prev =>
        match prev with
        | none =>
          some ({ d.setNext timeout (some head) with timeout := some timeout }, [.registered t])
        | some p =>
          if p ∈ d.live then
            some ((d.setNext timeout (d.next p)).setNext p (some timeout), [.registered t])
          else none

/-- The test of `eloop_cancel_timeout`. -/
def cancels (handler eloopData userData : Ptr) (t : Timer) : Bool :=
  decide (t.handler = handler) &&
    (decide (t.eloopData = eloopData) || decide (eloopData = eloopAllCtx)) &&
    (decide (t.userData = userData) || decide (userData = eloopAllCtx))

/-- The loop of `eloop_cancel_timeout`. -/
def cancelLoop (handler eloopData userData : Ptr) :
    Nat → EloopData → Option Ptr → Option Ptr → Nat → Option (EloopData × Nat)
  | 0, _, _, _, _ => none
  | _ + 1, d, _, none, removed => some (d, removed)
  | n + 1, d, prev, some timeout, removed =>
    if timeout ∈ d.live then
      let next := d.next timeout
      if cancels handler eloopData userData (d.timer timeout) then
        (d.link prev next).bind fun d =>
          (d.free timeout).bind fun d =>
            cancelLoop handler eloopData userData n d prev next (removed + 1)
      else cancelLoop handler eloopData userData n d (some timeout) next removed
    else none

def eloopCancelTimeout (d : EloopData) (handler eloopData userData : Ptr) : Logged EloopData Did :=
  (cancelLoop handler eloopData userData (fuel d) d none d.timeout 0).map fun (d, removed) =>
    (d, [.cancelled handler eloopData userData removed])

/-- `mem` says whether `realloc` has room. -/
def eloopRegisterReadSock (d : EloopData) (mem : Bool) (s : EloopSock) : EloopData :=
  if mem then
    { d with
      readers := d.readers ++ [s]
      maxSock := if s.sock > d.maxSock then s.sock else d.maxSock }
  else d

def eloopTerminate (d : EloopData) : EloopData := { d with terminate := true }

/-- The loop of `eloop_destroy`. -/
def freeAll : Nat → EloopData → Option Ptr → Option EloopData
  | 0, _, _ => none
  | _ + 1, d, none => some d
  | n + 1, d, some timeout =>
    if timeout ∈ d.live then
      let prev := timeout
      let timeout := d.next timeout
      (d.free prev).bind fun d => freeAll n d timeout
    else none

/-- What `select` returns: an error, `EINTR` or not, or the sockets that are ready. -/
inductive Selected where
  | failed (eintr : Bool)
  | ready (rfds : List Int)
  deriving DecidableEq

/-- Where the program is: before `eloop_run`, at the test of its loop, in the handler of a timeout
or of the reader before `i`, behind `eloop_run`, or behind `eloop_destroy`. -/
inductive Phase where
  | setup
  | test
  | inTimer (tmp : Ptr) (res : Selected)
  | inReader (i : Nat) (rfds : List Int)
  | returned
  | destroyed
  deriving DecidableEq

def Phase.inHandler : Phase → Bool
  | .inTimer _ _ | .inReader _ _ => true
  | _ => false

structure Loop where
  data : EloopData
  phase : Phase

/-- The loop over the readers, from the `i`th on, up to the next handler. -/
def dispatch (rfds : List Int) : Nat → List EloopSock → Phase × List Did
  | _, [] => (.test, [])
  | i, s :: readers =>
    if s.sock ∈ rfds then (.inReader (i + 1) rfds, [.read s]) else dispatch rfds (i + 1) readers

/-- `eloop_run` behind its timeouts. -/
def readFrom (d : EloopData) (rfds : List Int) (i : Nat) : Loop × List Did :=
  let (phase, log) := dispatch rfds i (d.readers.drop i)
  (⟨d, phase⟩, log)

/-- `if (res <= 0) continue`. -/
def afterTimeouts (d : EloopData) : Selected → Loop × List Did
  | .failed _ => (⟨d, .test⟩, [])
  | .ready [] => (⟨d, .test⟩, [])
  | .ready rfds => readFrom d rfds 0

def checkTimeouts (d : EloopData) (now : TimeVal) (res : Selected) : Logged Loop Did :=
  match d.timeout with
  | none => some (afterTimeouts d res)
  | some tmp =>
    if tmp ∈ d.live then
      if reached now (d.timer tmp).time then
        some (⟨{ d with timeout := d.next tmp }, .inTimer tmp res⟩,
          [.checked now (some (d.timer tmp))])
      else
        let (l, log) := afterTimeouts d res
        some (l, .checked now none :: log)
    else none

/-- How long `select` may wait when the first timeout comes at `t`. -/
def remaining (now t : TimeVal) : TimeVal :=
  if reached now t then ⟨0, 0⟩ else timersub t now

/-- The timeout for `select`. -/
def selectTimeout (d : EloopData) (now : TimeVal) : Option (Option TimeVal) :=
  match d.timeout with
  | none => some none
  | some p => if p ∈ d.live then some (some (remaining now (d.timer p).time)) else none

/-- One turn of the loop of `eloop_run`, up to the next handler. -/
def turn (d : EloopData) (now : TimeVal) (res : Selected) (later : TimeVal) : Logged Loop Did :=
  if !d.terminate && (d.timeout.isSome || decide (0 < d.readers.length)) then
    (selectTimeout d now).bind fun tv =>
      let asked := Did.asked now (d.maxSock + 1) (d.readers.map (·.sock)) tv
      match res with
      | .failed false => some (⟨d, .returned⟩, [asked, .left])
      | res => (checkTimeouts d later res).map fun r => (r.1, asked :: r.2)
  else some (⟨d, .returned⟩, [.left])

/-- What the program and its handlers may call. -/
inductive Call where
  | registerTimeout (now : TimeVal) (mem : Option Ptr) (secs usecs : U32)
      (handler eloopData userData : Ptr)
  | cancelTimeout (handler eloopData userData : Ptr)
  | registerReadSock (mem : Bool) (s : EloopSock)
  | terminate

def call (d : EloopData) : Call → Logged EloopData Did
  | .registerTimeout now mem secs usecs handler eloopData userData =>
    eloopRegisterTimeout d now mem secs usecs handler eloopData userData
  | .cancelTimeout handler eloopData userData => eloopCancelTimeout d handler eloopData userData
  | .registerReadSock mem s => some (eloopRegisterReadSock d mem s, [])
  | .terminate => some (eloopTerminate d, [])

/-- A call, the start of `eloop_run`, a turn of its loop with what `select` returns and the times
before and behind it, the end of a handler, or `eloop_destroy`. -/
inductive Event where
  | call (c : Call)
  | run
  | turn (now : TimeVal) (res : Selected) (later : TimeVal)
  | handled
  | destroy

def step (l : Loop) : Event → Logged Loop Did
  | .call c => (call l.data c).map fun (d, log) => (⟨d, l.phase⟩, log)
  | .run => some (⟨l.data, .test⟩, [])
  | .turn now res later => turn l.data now res later
  | .handled =>
    match l.phase with
    | .inTimer tmp res => (l.data.free tmp).map fun d => afterTimeouts d res
    | .inReader i rfds => some (readFrom l.data rfds i)
    | _ => none
  | .destroy => (freeAll (fuel l.data) l.data l.data.timeout).map fun d => (⟨d, .destroyed⟩, [])

/-- `malloc` returns what is not allocated. -/
def Call.Fresh (d : EloopData) : Call → Prop
  | .registerTimeout _ (some p) _ _ _ _ _ => p ∉ d.live
  | _ => True

instance (d : EloopData) : (c : Call) → Decidable (c.Fresh d)
  | .registerTimeout _ (some p) _ _ _ _ _ => inferInstanceAs (Decidable (p ∉ d.live))
  | .registerTimeout _ none _ _ _ _ _ => .isTrue trivial
  | .cancelTimeout _ _ _ | .registerReadSock _ _ | .terminate => .isTrue trivial

def Allowed (l : Loop) : Event → Prop
  | .call c => l.phase ≠ .destroyed ∧ c.Fresh l.data
  | .run => l.phase = .setup
  | .turn _ _ _ => l.phase = .test
  | .handled => l.phase.inHandler = true
  | .destroy => l.phase = .returned

instance (l : Loop) : (e : Event) → Decidable (Allowed l e)
  | .call c => inferInstanceAs (Decidable (l.phase ≠ .destroyed ∧ c.Fresh l.data))
  | .run => inferInstanceAs (Decidable (l.phase = .setup))
  | .turn _ _ _ => inferInstanceAs (Decidable (l.phase = .test))
  | .handled => inferInstanceAs (Decidable (l.phase.inHandler = true))
  | .destroy => inferInstanceAs (Decidable (l.phase = .returned))

/-- After `eloop_init`. -/
def init : Loop where
  data :=
    { maxSock := 0
      readers := []
      timeout := none
      terminate := false
      live := []
      node := fun _ => ⟨⟨⟨0, 0⟩, 0, 0, 0⟩, none⟩ }
  phase := .setup

end OpenwrtMtk.Dot1x.Eloop
