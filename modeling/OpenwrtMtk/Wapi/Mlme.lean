import OpenwrtMtk.Lib.Ring
import OpenwrtMtk.Lib.Run
import OpenwrtMtk.Wapi.Fragment

/-!
# The message queue of wapid

`mlme.c`: messages wait in a ring of 20 elements for `MlmeHandler`, which hands them to the action
functions one after another. An element stays occupied while its action runs, and an action may
enqueue further messages; each of these calls enters `MlmeHandler` again, which `bRunning` sends
back. The state is the queue with the activations of the handler; an action is whatever happens
between its dispatch and its return.
-/

namespace OpenwrtMtk.Wapi

open Toolkit

set_option autoImplicit false

def maxLenOfMlmeQueue : Nat := 20
def maxBufferSize : Nat := 3000
def waiProtocolType : U8 := 1
def waiAuthStateMachine : U32 := 1
def waiKeyStateMachine : U32 := 2

abbrev QueueSlot := Fin maxLenOfMlmeQueue

/-- `MLME_QUEUE_ELEM`. -/
structure QueueElem where
  machine : U32
  msgType : U32
  msgLen : Nat
  msg : List U8
  wcid : U8
  occupied : Bool

/-- `MLME_QUEUE`; `head` and `tail` wrap around at the end. -/
structure MlmeQueue where
  num : Nat
  head : QueueSlot
  tail : QueueSlot
  entry : QueueSlot → QueueElem

/-- The memory behind a pointer that may be read for `n` bytes. -/
abbrev Memory (n : Nat) := {mem : List U8 // n ≤ mem.length}

/-- The arguments of `MlmeEnqueue`; without a message the element keeps its old bytes. -/
structure Request where
  machine : U32
  msgType : U32
  wcid : U32
  msgLen : Nat
  msg : Option (Memory msgLen)

/-- `MsgTypeSubst`: the machine and the message type of a WAI header. -/
def msgTypeSubst (frame : List U8) : Option (U32 × U32) :=
  if byteAt frame 2 ≠ waiProtocolType then none
  else
    match (byteAt frame 3).toNat with
    | 3 => some (waiAuthStateMachine, 1)
    | 4 => some (waiAuthStateMachine, 3)
    | 5 => some (waiAuthStateMachine, 9)
    | 6 => some (waiAuthStateMachine, 5)
    | 7 => some (waiAuthStateMachine, 7)
    | 8 => some (waiKeyStateMachine, 1)
    | 9 => some (waiKeyStateMachine, 3)
    | 10 => some (waiKeyStateMachine, 4)
    | 11 => some (waiKeyStateMachine, 6)
    | 12 => some (waiKeyStateMachine, 7)
    | _ => none

namespace MlmeQueue

variable (q : MlmeQueue)

/-- `MlmeQueueInit`. -/
def init : MlmeQueue where
  num := 0
  head := ⟨0, by decide⟩
  tail := ⟨0, by decide⟩
  entry i :=
    { q.entry i with occupied := false, msgLen := 0, msg := List.replicate maxBufferSize 0 }

/-- `MlmeQueueFull`. -/
def full : Bool := q.num == maxLenOfMlmeQueue || (q.entry q.tail).occupied

/-- `MlmeQueueEmpty`. -/
def empty : Bool := q.num == 0

/-- What both enqueue functions do with an accepted message. -/
def put (r : Request) : MlmeQueue where
  num := q.num + 1
  head := q.head
  tail := advance q.tail
  entry := Function.update q.entry q.tail
    { machine := r.machine
      msgType := r.msgType
      msgLen := r.msgLen
      wcid := r.wcid.setWidth 8
      occupied := true
      msg := match r.msg with
        | none => (q.entry q.tail).msg
        | some mem => overwrite (q.entry q.tail).msg 0 (mem.val.take r.msgLen) }

/-- `MlmeDequeue`; the element is the one at the old head. -/
def dequeue : MlmeQueue := { q with num := q.num - 1, head := advance q.head }

def free (i : QueueSlot) : MlmeQueue :=
  { q with entry := Function.update q.entry i { q.entry i with occupied := false, msgLen := 0 } }

end MlmeQueue

/-- `VALID_WCID` and the `Valid` field of the station. -/
def stationValid (stations : Fin maxStaNum → Bool) (wcid : U8) : Bool :=
  if h : 0 < wcid.toNat ∧ wcid.toNat < maxStaNum then stations ⟨wcid.toNat, h.2⟩ else false

/-- An activation of `MlmeHandler`: before its loop test, or in the action of an element. -/
inductive Activation where
  | loop
  | action (i : QueueSlot)

/-- The task: `MLME_STRUCT`, which stations are valid, and the activations of the handler, the
innermost first. `accepted` and `turns` record the requests that got `TRUE` and the elements whose
turn has come, with whether their station was valid and they were dispatched. -/
structure Task where
  bRunning : Bool
  queue : MlmeQueue
  stations : Fin maxStaNum → Bool
  stack : List Activation
  accepted : List Request
  turns : List (QueueElem × Bool)

/-- `MlmeInit`. -/
def Task.start (q : MlmeQueue) (stations : Fin maxStaNum → Bool) : Task :=
  ⟨false, q.init, stations, [], [], []⟩

/-- The call of `MlmeHandler`. -/
def Task.mlmeHandler (s : Task) : Task :=
  if s.bRunning then s else { s with bRunning := true, stack := .loop :: s.stack }

/-- The message is stored and the handler called. -/
def Task.accept (s : Task) (r : Request) : Task :=
  { s with queue := s.queue.put r, accepted := s.accepted ++ [r] }.mlmeHandler

def mlmeEnqueue (s : Task) (r : Request) : Task × Bool :=
  if maxBufferSize < r.msgLen then (s, false)
  else if s.queue.full then (s, false)
  else (s.accept r, true)

/-- A received frame: its first four bytes are read also when it is shorter. -/
structure RecvMsg where
  wcid : U32
  msgLen : Nat
  msg : Memory (max msgLen 4)

def RecvMsg.request (m : RecvMsg) (machine msgType : U32) : Request :=
  ⟨machine, msgType, m.wcid, m.msgLen, some ⟨m.msg.val, le_trans (le_max_left _ 4) m.msg.property⟩⟩

def mlmeEnqueueForRecv (s : Task) (m : RecvMsg) : Task × Bool :=
  if maxBufferSize < m.msgLen then (s, false)
  else if s.queue.full then (s, false)
  else
    match msgTypeSubst m.msg.val with
    | none => (s, false)
    | some (machine, msgType) => (s.accept (m.request machine msgType), true)

/-- One turn of the loop of `MlmeHandler`, below it the activations it was called from. A machine
that does not exist has an empty action. -/
def Task.turn (s : Task) (below : List Activation) : Task :=
  if s.queue.empty then { s with bRunning := false, stack := below }
  else
    let e := s.queue.entry s.queue.head
    if stationValid s.stations e.wcid then
      { s with
        queue := s.queue.dequeue
        stack := .action s.queue.head :: below
        turns := s.turns ++ [(e, true)] }
    else
      { s with
        queue := s.queue.dequeue.free s.queue.head
        stack := .loop :: below
        turns := s.turns ++ [(e, false)] }

/-- Calls come from outside and from running actions. -/
def Task.mayCall (s : Task) : Bool :=
  match s.stack with
  | [] => true
  | .action _ :: _ => true
  | .loop :: _ => false

inductive MlmeEvent where
  | enqueue (r : Request)
  | enqueueForRecv (m : RecvMsg)
  | periodicExec
  /-- The handler tests its loop condition and takes the next message. -/
  | turn
  | actionReturns
  /-- Stations come and go. -/
  | stations (valid : Fin maxStaNum → Bool)

/-- The next state; `none` when the event cannot happen there. -/
def Task.step (s : Task) : MlmeEvent → Option Task
  | .enqueue r => if s.mayCall then some (mlmeEnqueue s r).1 else none
  | .enqueueForRecv m => if s.mayCall then some (mlmeEnqueueForRecv s m).1 else none
  | .periodicExec => if s.mayCall then some s.mlmeHandler else none
  | .turn =>
    match s.stack with
    | .loop :: below => some (s.turn below)
    | _ => none
  | .actionReturns =>
    match s.stack with
    | .action i :: below => some { s with queue := s.queue.free i, stack := .loop :: below }
    | _ => none
  | .stations valid => some { s with stations := valid }

end OpenwrtMtk.Wapi

/-!
## The message queue is first in, first out

The occupied elements are a piece of the ring: the one whose action runs, then the pending ones.
An accepted message goes to the free place behind them, and a turn of the handler takes the first
one; what is accepted is therefore what had its turn, then what is pending.
-/

namespace OpenwrtMtk.Wapi

open Toolkit

set_option autoImplicit false

variable {q : MlmeQueue} {r : Request} {i start : QueueSlot} {count : Nat} {s s' : Task}

/-- The element holds what was asked for; of the station number the last byte is kept. -/
structure Carries (r : Request) (e : QueueElem) : Prop where
  machine : e.machine = r.machine
  msgType : e.msgType = r.msgType
  wcid : e.wcid = r.wcid.setWidth 8
  msgLen : e.msgLen = r.msgLen
  msg : ∀ mem, r.msg = some mem → e.msg.take r.msgLen = mem.val.take r.msgLen

namespace MlmeQueue

def pending (q : MlmeQueue) : List QueueElem := (ring q.head q.num).map q.entry

/-- The occupied elements are the `count` ones from `start` on, and the tail is behind them. -/
structure Layout (q : MlmeQueue) (start : QueueSlot) (count : Nat) : Prop where
  count_le : count ≤ maxLenOfMlmeQueue
  tail : q.tail = advance^[count] start
  occupied : ∀ i, (q.entry i).occupied = true ↔ i ∈ ring start count

theorem init_layout (q : MlmeQueue) : q.init.Layout q.init.head 0 :=
  ⟨Nat.zero_le _, rfl, fun i => by simp [init, ring]⟩

@[simp] theorem put_head (r : Request) : (q.put r).head = q.head := rfl

@[simp] theorem put_num (r : Request) : (q.put r).num = q.num + 1 := rfl

theorem put_carries (q : MlmeQueue) (r : Request) : Carries r ((q.put r).entry q.tail) := by
  rw [put]
  dsimp only
  rw [Function.update_self]
  refine ⟨rfl, rfl, rfl, rfl, fun mem hmem => ?_⟩
  have hlen : (mem.val.take r.msgLen).length = r.msgLen := by
    rw [List.length_take]
    exact Nat.min_eq_left mem.property
  rw [hmem]
  simp only [overwrite, List.take_zero, List.nil_append]
  rw [List.take_append_of_le_length (by omega), List.take_of_length_le (by omega)]

theorem Layout.room (hq : q.Layout start count) (hfull : q.full = false) :
    count < maxLenOfMlmeQueue := by
  by_contra hge
  have hcount : count = maxLenOfMlmeQueue := le_antisymm hq.count_le (Nat.le_of_not_lt hge)
  have hocc : (q.entry q.tail).occupied = true := by
    rw [hq.occupied, hcount]
    exact mem_ring_round start q.tail
  rw [full, hocc, Bool.or_true] at hfull
  simp at hfull

theorem Layout.put (hq : q.Layout start count) (r : Request) (hfull : q.full = false) :
    (q.put r).Layout start (count + 1) := by
  refine ⟨hq.room hfull, ?_, fun i => ?_⟩
  · rw [Function.iterate_succ_apply', ← hq.tail]
    rfl
  · rw [ring_snoc, ← hq.tail, List.mem_append, List.mem_singleton, ← hq.occupied]
    dsimp only [MlmeQueue.put]
    by_cases hi : i = q.tail
    · simp [hi]
    · simp [hi]

theorem Layout.put_entry (hq : q.Layout start count) (r : Request) (hfull : q.full = false)
    (hi : i ∈ ring start count) : (q.put r).entry i = q.entry i := by
  apply Function.update_of_ne
  rintro rfl
  rw [hq.tail] at hi
  exact end_not_mem start (hq.room hfull) hi

theorem Layout.free (hq : q.Layout start (count + 1)) :
    (q.free start).Layout (advance start) count := by
  have hnodup := nodup_ring start hq.count_le
  rw [ring, List.nodup_cons] at hnodup
  refine ⟨Nat.le_of_succ_le hq.count_le, ?_, fun i => ?_⟩
  · rw [← Function.iterate_succ_apply]
    exact hq.tail
  · dsimp only [MlmeQueue.free]
    by_cases hi : i = start
    · subst hi
      simp [hnodup.1]
    · rw [Function.update_of_ne hi, hq.occupied, ring, List.mem_cons]
      simp [hi]

theorem Layout.free_entry (hq : q.Layout start (count + 1)) (hi : i ∈ ring (advance start) count) :
    (q.free start).entry i = q.entry i := by
  have hnodup := nodup_ring start hq.count_le
  rw [ring, List.nodup_cons] at hnodup
  apply Function.update_of_ne
  rintro rfl
  exact hnodup.1 hi

theorem put_pending (hq : q.Layout start count) (r : Request) (hfull : q.full = false)
    (hsub : ∀ i ∈ ring q.head q.num, i ∈ ring start count) (htail : q.tail = advance^[q.num] q.head) :
    (q.put r).pending = q.pending ++ [(q.put r).entry q.tail] := by
  have hring : ring (q.put r).head (q.put r).num = ring q.head q.num ++ [q.tail] := by
    rw [htail]
    exact ring_snoc q.head q.num
  rw [pending, hring, List.map_append, List.map_singleton, pending]
  congr 1
  apply List.map_congr_left
  intro i hi
  exact hq.put_entry r hfull (hsub i hi)

theorem pending_uncons (hempty : q.empty = false) :
    q.pending = q.entry q.head :: (ring (advance q.head) (q.num - 1)).map q.entry := by
  obtain ⟨n, hn⟩ : ∃ n, q.num = n + 1 := by
    apply Nat.exists_eq_succ_of_ne_zero
    simpa [empty] using hempty
  rw [pending, hn]
  rfl

end MlmeQueue

open MlmeQueue

/-- Where the handler is, and which elements are occupied there. -/
inductive Control (s : Task) : Prop where
  | idle (hstack : s.stack = []) (hrun : s.bRunning = false) (hnum : s.queue.num = 0)
      (hq : s.queue.Layout s.queue.head 0)
  | loop (hstack : s.stack = [.loop]) (hrun : s.bRunning = true)
      (hq : s.queue.Layout s.queue.head s.queue.num)
  | action (i : QueueSlot) (hstack : s.stack = [.action i]) (hrun : s.bRunning = true)
      (hhead : s.queue.head = advance i) (hq : s.queue.Layout i (s.queue.num + 1))
      (hlast : ∃ earlier, s.turns = earlier ++ [(s.queue.entry i, true)])

structure TaskInv (s : Task) : Prop where
  control : Control s
  order : List.Forall₂ Carries s.accepted (s.turns.map Prod.fst ++ s.queue.pending)

theorem task_start_inv (q : MlmeQueue) (stations : Fin maxStaNum → Bool) :
    TaskInv (.start q stations) :=
  ⟨.idle rfl rfl rfl q.init_layout, .nil⟩

theorem accept_inv (hs : TaskInv s) (r : Request) (hcall : s.mayCall = true)
    (hfull : s.queue.full = false) : TaskInv (s.accept r) := by
  have horder : ∀ {start count}, s.queue.Layout start count →
      (∀ i ∈ ring s.queue.head s.queue.num, i ∈ ring start count) →
      s.queue.tail = advance^[s.queue.num] s.queue.head →
      List.Forall₂ Carries (s.accepted ++ [r])
        (s.turns.map Prod.fst ++ (s.queue.put r).pending) := by
    intro start count hq hsub htail
    rw [put_pending hq r hfull hsub htail, ← List.append_assoc]
    apply List.rel_append hs.order
    exact .cons (put_carries s.queue r) .nil
  cases hs.control with
  | idle hstack hrun hnum hq =>
    have hlayout := hq.put r hfull
    rw [← hnum] at hlayout
    refine ⟨.loop ?_ ?_ ?_, ?_⟩
    · simp [Task.accept, Task.mlmeHandler, hrun, hstack]
    · simp [Task.accept, Task.mlmeHandler, hrun]
    · simpa [Task.accept, Task.mlmeHandler, hrun] using hlayout
    · have hord := horder hq (by rw [hnum]; exact fun i hi => hi) (by rw [hnum]; exact hq.tail)
      simpa [Task.accept, Task.mlmeHandler, hrun] using hord
  | loop hstack _ _ =>
    rw [Task.mayCall, hstack] at hcall
    simp at hcall
  | action i hstack hrun hhead hq hlast =>
    have hlayout := hq.put r hfull
    have hentry : (s.queue.put r).entry i = s.queue.entry i :=
      hq.put_entry r hfull List.mem_cons_self
    refine ⟨.action i ?_ ?_ ?_ ?_ ?_, ?_⟩
    · simp [Task.accept, Task.mlmeHandler, hrun, hstack]
    · simp [Task.accept, Task.mlmeHandler, hrun]
    · simpa [Task.accept, Task.mlmeHandler, hrun] using hhead
    · simpa [Task.accept, Task.mlmeHandler, hrun] using hlayout
    · simpa [Task.accept, Task.mlmeHandler, hrun, hentry] using hlast
    · have hord := horder hq (by rw [hhead]; exact fun j hj => List.mem_cons_of_mem i hj)
        (by rw [hq.tail, hhead, Function.iterate_succ_apply])
      simpa [Task.accept, Task.mlmeHandler, hrun] using hord

theorem mlmeEnqueue_cases (s : Task) (r : Request) :
    mlmeEnqueue s r = (s, false) ∨
    s.queue.full = false ∧ mlmeEnqueue s r = (s.accept r, true) := by
  unfold mlmeEnqueue
  split
  · exact .inl rfl
  · split
    · exact .inl rfl
    · rename_i hfull
      exact .inr ⟨Bool.eq_false_iff.mpr hfull, rfl⟩

theorem mlmeEnqueueForRecv_cases (s : Task) (m : RecvMsg) :
    mlmeEnqueueForRecv s m = (s, false) ∨
    ∃ machine msgType, s.queue.full = false ∧
      mlmeEnqueueForRecv s m = (s.accept (m.request machine msgType), true) := by
  unfold mlmeEnqueueForRecv
  split
  · exact .inl rfl
  · split
    · exact .inl rfl
    · rename_i hfull
      split
      · exact .inl rfl
      · exact .inr ⟨_, _, Bool.eq_false_iff.mpr hfull, rfl⟩

theorem handler_inv (hs : TaskInv s) : TaskInv s.mlmeHandler := by
  unfold Task.mlmeHandler
  split
  · exact hs
  · rename_i hidle
    refine ⟨?_, hs.order⟩
    cases hs.control with
    | idle hstack _ hnum hq =>
      refine .loop (by rw [hstack]) rfl ?_
      rw [hnum]
      exact hq
    | loop _ hrun _ => exact absurd hrun hidle
    | action i _ hrun _ _ _ => exact absurd hrun hidle

theorem turn_inv (hs : TaskInv s) {below : List Activation} (hstack : s.stack = .loop :: below) :
    TaskInv (s.turn below) := by
  have hbelow : below = [] ∧ s.bRunning = true ∧ s.queue.Layout s.queue.head s.queue.num := by
    cases hs.control with
    | idle hnil => rw [hstack] at hnil; simp at hnil
    | loop hone hrun hq => rw [hstack] at hone; exact ⟨(List.cons.inj hone).2, hrun, hq⟩
    | action i hone => rw [hstack] at hone; simp at hone
  obtain ⟨rfl, hrun, hq⟩ := hbelow
  have horder := hs.order
  unfold Task.turn
  split
  · rename_i hempty
    have hnum : s.queue.num = 0 := by simpa [MlmeQueue.empty] using hempty
    rw [hnum] at hq
    exact ⟨.idle rfl rfl hnum hq, horder⟩
  · rename_i hempty
    obtain ⟨n, hn⟩ : ∃ n, s.queue.num = n + 1 := by
      apply Nat.exists_eq_succ_of_ne_zero
      simpa [MlmeQueue.empty] using hempty
    have hpred : s.queue.num - 1 = n := by omega
    rw [pending_uncons (Bool.eq_false_iff.mpr hempty), hpred] at horder
    rw [hn] at hq
    dsimp only
    split
    · refine ⟨.action s.queue.head rfl hrun rfl ?_ ⟨s.turns, rfl⟩, ?_⟩
      · rw [show s.queue.dequeue.num = n from hpred]
        exact ⟨hq.count_le, hq.tail, hq.occupied⟩
      · rw [MlmeQueue.pending, show s.queue.dequeue.num = n from hpred]
        simpa [MlmeQueue.dequeue] using horder
    · have hlayout : (s.queue.dequeue.free s.queue.head).Layout (advance s.queue.head) n :=
        ⟨hq.free.count_le, hq.free.tail, hq.free.occupied⟩
      refine ⟨.loop rfl hrun ?_, ?_⟩
      · rw [show (s.queue.dequeue.free s.queue.head).num = n from hpred]
        exact hlayout
      · have hpending : (s.queue.dequeue.free s.queue.head).pending =
            (ring (advance s.queue.head) n).map s.queue.entry := by
          rw [MlmeQueue.pending, show (s.queue.dequeue.free s.queue.head).num = n from hpred]
          apply List.map_congr_left
          intro i hi
          exact hq.free_entry hi
        rw [hpending]
        simpa using horder

theorem actionReturns_inv (hs : TaskInv s) {i : QueueSlot} {below : List Activation}
    (hstack : s.stack = .action i :: below) :
    TaskInv { s with queue := s.queue.free i, stack := .loop :: below } := by
  cases hs.control with
  | idle hnil => rw [hstack] at hnil; simp at hnil
  | loop hone => rw [hstack] at hone; simp at hone
  | action k hone hrun hhead hq hlast =>
    rw [hstack, List.cons.injEq, Activation.action.injEq] at hone
    obtain ⟨rfl, rfl⟩ := hone
    refine ⟨.loop rfl hrun ?_, ?_⟩
    · have hlayout := hq.free
      rw [← hhead] at hlayout
      exact hlayout
    · have hpending : (s.queue.free i).pending = s.queue.pending := by
        apply List.map_congr_left
        intro j hj
        apply hq.free_entry
        rw [← hhead]
        exact hj
      rw [hpending]
      exact hs.order

theorem task_step_inv (hs : TaskInv s) (e : MlmeEvent) (hstep : s.step e = some s') :
    TaskInv s' := by
  cases e with
  | enqueue r =>
    obtain ⟨hcall, heq⟩ := Option.ite_none_right_eq_some.mp hstep
    obtain rfl := Option.some.inj heq
    rcases mlmeEnqueue_cases s r with hno | ⟨hfull, hyes⟩
    · rw [hno]; exact hs
    · rw [hyes]; exact accept_inv hs r hcall hfull
  | enqueueForRecv m =>
    obtain ⟨hcall, heq⟩ := Option.ite_none_right_eq_some.mp hstep
    obtain rfl := Option.some.inj heq
    rcases mlmeEnqueueForRecv_cases s m with hno | ⟨machine, msgType, hfull, hyes⟩
    · rw [hno]; exact hs
    · rw [hyes]; exact accept_inv hs _ hcall hfull
  | periodicExec =>
    obtain ⟨_, heq⟩ := Option.ite_none_right_eq_some.mp hstep
    obtain rfl := Option.some.inj heq
    exact handler_inv hs
  | turn =>
    rw [Task.step] at hstep
    split at hstep
    · rename_i below hstack
      obtain rfl := Option.some.inj hstep
      exact turn_inv hs hstack
    · simp at hstep
  | actionReturns =>
    rw [Task.step] at hstep
    split at hstep
    · rename_i i below hstack
      obtain rfl := Option.some.inj hstep
      exact actionReturns_inv hs hstack
    · simp at hstep
  | stations valid =>
    obtain rfl := Option.some.inj hstep
    refine ⟨?_, hs.order⟩
    cases hs.control with
    | idle hstack hrun hnum hq => exact .idle hstack hrun hnum hq
    | loop hstack hrun hq => exact .loop hstack hrun hq
    | action i hstack hrun hhead hq hlast => exact .action i hstack hrun hhead hq hlast

theorem task_run_inv {q : MlmeQueue} {stations : Fin maxStaNum → Bool} {es : List MlmeEvent}
    (hrun : Run (Graph Task.step) (.start q stations) es s) : TaskInv s :=
  hrun.invariant TaskInv (fun _ e _ hs hstep => task_step_inv hs e hstep)
    (task_start_inv q stations)

section Progress

def turnsIn (es : List MlmeEvent) : Nat := es.countP fun e => match e with
  | .turn => true
  | _ => false

theorem accept_turns (s : Task) (r : Request) : (s.accept r).turns = s.turns := by
  unfold Task.accept Task.mlmeHandler
  split <;> rfl

theorem accept_accepted (s : Task) (r : Request) :
    (s.accept r).accepted = s.accepted ++ [r] := by
  unfold Task.accept Task.mlmeHandler
  split <;> rfl

theorem step_records {e : MlmeEvent} (hstep : s.step e = some s') :
    s.accepted.length ≤ s'.accepted.length ∧ s.turns.length ≤ s'.turns.length ∧
      (e = .turn → s.queue.num = 0 ∨ s'.turns.length = s.turns.length + 1) := by
  cases e with
  | enqueue r =>
    obtain ⟨_, heq⟩ := Option.ite_none_right_eq_some.mp hstep
    obtain rfl := Option.some.inj heq
    rcases mlmeEnqueue_cases s r with hno | ⟨_, hyes⟩
    · simp [hno]
    · simp [hyes, accept_turns, accept_accepted]
  | enqueueForRecv m =>
    obtain ⟨_, heq⟩ := Option.ite_none_right_eq_some.mp hstep
    obtain rfl := Option.some.inj heq
    rcases mlmeEnqueueForRecv_cases s m with hno | ⟨_, _, _, hyes⟩
    · simp [hno]
    · simp [hyes, accept_turns, accept_accepted]
  | periodicExec =>
    obtain ⟨_, heq⟩ := Option.ite_none_right_eq_some.mp hstep
    obtain rfl := Option.some.inj heq
    unfold Task.mlmeHandler
    split <;> simp
  | turn =>
    rw [Task.step] at hstep
    split at hstep
    · obtain rfl := Option.some.inj hstep
      unfold Task.turn
      split
      · rename_i hempty
        simp only [MlmeQueue.empty, beq_iff_eq] at hempty
        simp [hempty]
      · dsimp only
        split <;> simp
    · simp at hstep
  | actionReturns =>
    rw [Task.step] at hstep
    split at hstep
    · obtain rfl := Option.some.inj hstep
      simp
    · simp at hstep
  | stations valid =>
    obtain rfl := Option.some.inj hstep
    simp

theorem TaskInv.accounted (hs : TaskInv s) :
    s.accepted.length = s.turns.length + s.queue.num := by
  rw [hs.order.length_eq]
  simp [MlmeQueue.pending]

/-- Every turn of the loop brings the messages that are pending now one nearer to theirs. -/
theorem turns_progress (hs : TaskInv s) {es : List MlmeEvent}
    (hrun : Run (Graph Task.step) s es s') :
    s.accepted.length ≤ s'.accepted.length ∧
      s.accepted.length ≤ s'.turns.length + (s.queue.num - turnsIn es) := by
  have hstart := hs.accounted
  induction hrun with
  | nil => exact ⟨Nat.le_refl _, by simp [turnsIn, hstart]⟩
  | @snoc es mid s' e hrun hstep ih =>
    obtain ⟨hacc, hturns, hturn⟩ := step_records hstep
    have hmid : TaskInv mid :=
      hrun.invariant TaskInv (fun _ e _ hs hstep => task_step_inv hs e hstep) hs
    have hmidLength := hmid.accounted
    refine ⟨ih.1.trans hacc, ?_⟩
    cases e with
    | turn =>
      have hcount : turnsIn (es ++ [MlmeEvent.turn]) = turnsIn es + 1 := by simp [turnsIn]
      rw [hcount]
      rcases hturn rfl with hnone | hone <;> omega
    | _ =>
      rw [turnsIn, List.countP_append]
      simp only [List.countP_cons, List.countP_nil]
      have hih := ih.2
      rw [turnsIn] at hih
      simp
      omega

end Progress

/-- What the queue promises in a state of the task. -/
structure Fifo (s : Task) : Prop where
  /-- The accepted requests are, in their order, the elements that had their turn and then the
  pending ones; the dispatched ones are those whose station was valid at their turn. -/
  order : List.Forall₂ Carries s.accepted (s.turns.map Prod.fst ++ s.queue.pending)
  /-- When no call is active every accepted message has had its turn. -/
  finished : s.stack = [] → s.accepted.length = s.turns.length
  num : s.accepted.length = s.turns.length + s.queue.num
  bound : s.queue.num ≤ maxLenOfMlmeQueue
  /-- The element of the action that runs is still the one that was dispatched. -/
  untouched : ∀ i below, s.stack = .action i :: below →
    ∃ earlier, s.turns = earlier ++ [(s.queue.entry i, true)]
  refused : ∀ r, (mlmeEnqueue s r).2 = false → (mlmeEnqueue s r).1 = s
  refusedForRecv : ∀ m, (mlmeEnqueueForRecv s m).2 = false → (mlmeEnqueueForRecv s m).1 = s

theorem TaskInv.fifo (hs : TaskInv s) : Fifo s := by
  have hnum := hs.accounted
  refine ⟨hs.order, fun hidle => ?_, hnum, ?_, fun i below hstack => ?_, fun r hr => ?_,
    fun m hm => ?_⟩
  · cases hs.control with
    | idle _ _ hzero _ => omega
    | loop hone => rw [hidle] at hone; simp at hone
    | action i hone => rw [hidle] at hone; simp at hone
  · cases hs.control with
    | idle _ _ hzero _ => omega
    | loop _ _ hq => exact hq.count_le
    | action _ _ _ _ hq _ => exact Nat.le_of_succ_le hq.count_le
  · cases hs.control with
    | idle hnil => rw [hstack] at hnil; simp at hnil
    | loop hone => rw [hstack] at hone; simp at hone
    | action k hone _ _ _ hlast =>
      rw [hstack, List.cons.injEq, Activation.action.injEq] at hone
      rw [hone.1]
      exact hlast
  · rcases mlmeEnqueue_cases s r with hno | ⟨_, hyes⟩
    · rw [hno]
    · rw [hyes] at hr
      simp at hr
  · rcases mlmeEnqueueForRecv_cases s m with hno | ⟨_, _, _, hyes⟩
    · rw [hno]
    · rw [hyes] at hm
      simp at hm

/-- The queue is first in, first out in every run, and every message has its turn: as many turns
of the loop as there are pending messages reach all of them. -/
theorem mlme_queue_fifo {q : MlmeQueue} {stations : Fin maxStaNum → Bool} {es es' : List MlmeEvent}
    (hrun : Run (Graph Task.step) (.start q stations) es s)
    (hrest : Run (Graph Task.step) s es' s') :
    Fifo s ∧ (s.queue.num ≤ turnsIn es' → s.accepted.length ≤ s'.turns.length) := by
  have hs := task_run_inv hrun
  refine ⟨hs.fifo, fun henough => ?_⟩
  have hprogress := (turns_progress hs hrest).2
  omega

theorem maxLenOfMlmeQueue_pos : 0 < maxLenOfMlmeQueue := Nat.succ_pos 19

def sampleTask : Task :=
  .start ⟨0, ⟨0, maxLenOfMlmeQueue_pos⟩, ⟨0, maxLenOfMlmeQueue_pos⟩,
    fun _ => ⟨0, 0, 0, [], 0, false⟩⟩ fun _ => true

def sampleRequest : Request := ⟨waiKeyStateMachine, 0, 1, 6, some ⟨List.replicate 6 0, by decide⟩⟩

theorem mlme_queue_fifo_single :
    ∃ s s', Run (Graph Task.step) sampleTask [.enqueue sampleRequest] s ∧
      Run (Graph Task.step) s [.turn] s' ∧ s.accepted.length = 1 ∧ Fifo s ∧
      s.accepted.length ≤ s'.turns.length := by
  obtain ⟨s, s', hrun, hrest, hone, hnum⟩ :
      ∃ s s', Run (Graph Task.step) sampleTask [.enqueue sampleRequest] s ∧
        Run (Graph Task.step) s [.turn] s' ∧ s.accepted.length = 1 ∧ s.queue.num = 1 :=
    ⟨_, _, .single rfl, .single rfl, rfl, rfl⟩
  have hfifo := mlme_queue_fifo hrun hrest
  exact ⟨s, s', hrun, hrest, hone, hfifo.1, hfifo.2 (by rw [hnum]; exact Nat.le_refl 1)⟩

end OpenwrtMtk.Wapi
