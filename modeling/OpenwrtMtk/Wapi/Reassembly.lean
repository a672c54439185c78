import Mathlib.Data.Finset.Card
import OpenwrtMtk.Wapi.Fragment

/-!
# Messages put together from fragments

`Ear` is a receiver that hears the frames of any number of stations. Its ghost `origin` names the
message of which the buffer holds the front. As long as no continuation is taken for that of another
message, everything that is delivered is a message that was sent; whole messages that arrive one
after another are all delivered, each once.
-/

namespace OpenwrtMtk.Wapi

open Toolkit

set_option autoImplicit false

section Buffer

variable {s : Sending} {frameSeq : U16} {x : MacAddr} {rx rx' : Rx} {d : Option Delivery} {k : Nat}

/-- The header of fragment `k`. -/
def Sending.header (s : Sending) (frameSeq : U16) (k : Nat) : List U8 :=
  makeWaiHeader s.msgType (slice s.msg (k * s.fragThreshold) s.fragThreshold).length frameSeq
    (BitVec.ofNat 8 k) (s.hasMore k)

theorem payload_eq :
    s.payload frameSeq k =
      s.header frameSeq k ++ slice s.msg (k * s.fragThreshold) s.fragThreshold := rfl

@[simp] theorem length_header : (s.header frameSeq k).length = lengthHeaderWai := rfl

section Header

variable (data : List U8)

theorem waiSubType_header : waiSubType (s.header frameSeq k ++ data) = s.msgType := rfl

theorem waiPktSeq_header : waiPktSeq (s.header frameSeq k ++ data) = frameSeq :=
  wordOf_wordBytes frameSeq

theorem waiFragSeq_header : waiFragSeq (s.header frameSeq k ++ data) = BitVec.ofNat 8 k := rfl

theorem waiFlag_header :
    waiFlag (s.header frameSeq k ++ data) = if s.hasMore k then 1 else 0 := rfl

end Header

/-- The front of the message up to fragment `k`, behind the header of that fragment. -/
def Sending.front (s : Sending) (frameSeq : U16) (k : Nat) : List U8 :=
  s.header frameSeq k ++ s.msg.take ((k + 1) * s.fragThreshold)

theorem front_of_last (hlast : s.hasMore k = false) :
    s.front frameSeq k = s.header frameSeq k ++ s.msg := by
  have hlen : s.msg.length ≤ (k + 1) * s.fragThreshold := by
    rw [Sending.hasMore, decide_eq_false_iff_not] at hlast
    omega
  rw [Sending.front, List.take_of_length_le hlen]

theorem length_front_le : (s.front frameSeq k).length ≤ lengthHeaderWai + s.msg.length := by
  rw [Sending.front, List.length_append, List.length_take, length_header]
  omega

/-- The buffer holds the front of the message up to fragment `k`. -/
structure Rx.Holds (rx : Rx) (s : Sending) (frameSeq : U16) (k : Nat) : Prop where
  total : rx.totalFragLen = (s.front frameSeq k).length
  front : rx.fragFrame.take rx.totalFragLen = s.front frameSeq k

theorem byteAt_take {xs : List U8} {off n : Nat} (h : off < n) :
    byteAt (xs.take n) off = byteAt xs off := by
  simp only [byteAt, List.getD_eq_getElem?_getD]
  rw [List.getElem?_take_of_lt h]

theorem Rx.Holds.byteAt_eq (h : rx.Holds s frameSeq k) {off : Nat} (hoff : off < lengthHeaderWai) :
    byteAt rx.fragFrame off = byteAt (s.front frameSeq k) off := by
  have hin : off < rx.totalFragLen := by
    rw [h.total, Sending.front, List.length_append, length_header]
    omega
  rw [← byteAt_take hin, h.front]

theorem Rx.Holds.pktSeq (h : rx.Holds s frameSeq k) : waiPktSeq rx.fragFrame = frameSeq := by
  have hfront : waiPktSeq rx.fragFrame = waiPktSeq (s.front frameSeq k) := by
    rw [waiPktSeq, h.byteAt_eq (by decide), h.byteAt_eq (by decide), waiPktSeq]
  rw [hfront]
  exact waiPktSeq_header _

theorem Rx.Holds.fragSeq (h : rx.Holds s frameSeq k) :
    waiFragSeq rx.fragFrame = BitVec.ofNat 8 k := by
  rw [waiFragSeq, h.byteAt_eq (by decide)]
  rfl

theorem take_overwrite_end {xs bs : List U8} {off : Nat} (h : off + bs.length ≤ xs.length) :
    (overwrite xs off bs).take (off + bs.length) = xs.take off ++ bs := by
  have hlen : (xs.take off ++ bs).length = off + bs.length := by
    rw [List.length_append, List.length_take]
    omega
  rw [overwrite, ← hlen, List.take_left]

theorem take_overwrite_start {xs bs : List U8} {n : Nat} (hbs : bs.length ≤ n)
    (h : n ≤ xs.length) :
    (overwrite xs 0 bs).take n = bs ++ (xs.take n).drop bs.length := by
  have hroom : 0 + bs.length ≤ xs.length := by omega
  have hfront := slice_overwrite_front hroom n
  rw [slice, slice, List.drop_zero, List.drop_zero] at hfront
  rw [hfront, List.take_of_length_le]
  rw [List.length_append, List.length_drop, List.length_take]
  omega

theorem reassemble_only (hlast : s.hasMore 0 = false) :
    rx.reassemble x (s.payload frameSeq 0) = some (rx, some ⟨x, s.front frameSeq 0⟩) := by
  have hflag : waiFlag (s.payload frameSeq 0) = 0 := by
    rw [payload_eq, waiFlag_header, hlast]
    rfl
  have hfront : s.payload frameSeq 0 = s.front frameSeq 0 := by
    rw [payload_eq, Sending.front, slice, Nat.zero_mul, List.drop_zero, Nat.zero_add, Nat.one_mul]
  rw [Rx.reassemble, if_pos (by rfl), if_pos hflag, hfront]

theorem reassemble_first (hmore : s.hasMore 0 = true)
    (hroom : lengthHeaderWai + s.msg.length ≤ rx.fragFrame.length) :
    ∃ rx', rx.reassemble x (s.payload frameSeq 0) = some (rx', none) ∧
      rx'.Holds s frameSeq 0 ∧ rx'.fragFrame.length = rx.fragFrame.length ∧
      rx'.stations = rx.stations := by
  have hflag : waiFlag (s.payload frameSeq 0) ≠ 0 := by
    rw [payload_eq, waiFlag_header, hmore]
    decide
  have hfront : s.payload frameSeq 0 = s.front frameSeq 0 := by
    rw [payload_eq, Sending.front, slice, Nat.zero_mul, List.drop_zero, Nat.zero_add, Nat.one_mul]
  have hfits : 0 + (s.payload frameSeq 0).length ≤ rx.fragFrame.length := by
    have hle : (s.front frameSeq 0).length ≤ lengthHeaderWai + s.msg.length := length_front_le
    rw [hfront]
    omega
  refine ⟨{ rx with
    fragFrame := overwrite rx.fragFrame 0 (s.payload frameSeq 0)
    totalFragLen := (s.payload frameSeq 0).length }, ?_, ?_, length_overwrite hfits, rfl⟩
  · rw [Rx.reassemble, if_pos (by rfl), if_neg hflag]
  · constructor
    · exact congrArg List.length hfront
    · have htake := take_overwrite_end hfits
      rw [Nat.zero_add, List.take_zero, List.nil_append] at htake
      rw [← hfront]
      exact htake

theorem reassemble_stray (hk : k ≠ 0) (hbyte : k < 256)
    (hstray : ¬(waiPktSeq rx.fragFrame = frameSeq ∧ (waiFragSeq rx.fragFrame).toNat + 1 = k)) :
    rx.reassemble x (s.payload frameSeq k) = some (rx, none) := by
  have hseq : waiFragSeq (s.payload frameSeq k) = BitVec.ofNat 8 k := rfl
  have hnat : (BitVec.ofNat 8 k).toNat = k := by
    rw [BitVec.toNat_ofNat, Nat.mod_eq_of_lt hbyte]
  have hnext : waiFragSeq (s.payload frameSeq k) ≠ 0 := by
    rw [hseq, ne_eq, ← BitVec.toNat_inj, hnat]
    exact hk
  rw [Rx.reassemble, if_neg hnext, Rx.append, payload_eq, waiPktSeq_header, waiFragSeq_header, hnat]
  by_cases hpkt : waiPktSeq rx.fragFrame = frameSeq
  · rw [if_neg (by rw [hpkt]; exact fun h => h rfl), if_pos (fun h => hstray ⟨hpkt, h⟩)]
  · rw [if_pos hpkt]

def Rx.extended (rx : Rx) (header data : List U8) : Rx :=
  { rx with
    fragFrame := overwrite (overwrite rx.fragFrame 0 header) rx.totalFragLen data
    totalFragLen := rx.totalFragLen + data.length }

/-- The data of fragment `k`. -/
def Sending.piece (s : Sending) (k : Nat) : List U8 :=
  slice s.msg (k * s.fragThreshold) s.fragThreshold

theorem front_succ :
    s.front frameSeq (k + 1) =
      s.header frameSeq (k + 1) ++ s.msg.take ((k + 1) * s.fragThreshold) ++ s.piece (k + 1) := by
  rw [Sending.front, List.append_assoc, Sending.piece, take_succ_fragment]

theorem Rx.Holds.total_succ (h : rx.Holds s frameSeq k) :
    rx.totalFragLen + (s.piece (k + 1)).length = (s.front frameSeq (k + 1)).length := by
  rw [h.total, front_succ, Sending.front]
  simp only [List.length_append, length_header]

theorem Rx.Holds.fits (h : rx.Holds s frameSeq k)
    (hroom : lengthHeaderWai + s.msg.length ≤ rx.fragFrame.length) :
    rx.totalFragLen + (s.piece (k + 1)).length ≤ rx.fragFrame.length := by
  have hle : (s.front frameSeq (k + 1)).length ≤ lengthHeaderWai + s.msg.length := length_front_le
  rw [h.total_succ]
  omega

theorem Rx.Holds.length_extended (h : rx.Holds s frameSeq k)
    (hroom : lengthHeaderWai + s.msg.length ≤ rx.fragFrame.length) :
    (rx.extended (s.header frameSeq (k + 1)) (s.piece (k + 1))).fragFrame.length =
      rx.fragFrame.length := by
  have hkept : (overwrite rx.fragFrame 0 (s.header frameSeq (k + 1))).length =
      rx.fragFrame.length := length_overwrite (by rw [length_header]; omega)
  rw [Rx.extended, length_overwrite (by rw [hkept]; exact h.fits hroom), hkept]

theorem Rx.Holds.extended (h : rx.Holds s frameSeq k)
    (hroom : lengthHeaderWai + s.msg.length ≤ rx.fragFrame.length) :
    (rx.extended (s.header frameSeq (k + 1)) (s.piece (k + 1))).Holds s frameSeq (k + 1) := by
  have hlarge : lengthHeaderWai ≤ rx.totalFragLen := by
    rw [h.total, Sending.front, List.length_append, length_header]
    omega
  have hkept : (overwrite rx.fragFrame 0 (s.header frameSeq (k + 1))).length =
      rx.fragFrame.length := length_overwrite (by rw [length_header]; omega)
  have hfits := h.fits hroom
  have hbehind : (s.front frameSeq k).drop (s.header frameSeq (k + 1)).length =
      s.msg.take ((k + 1) * s.fragThreshold) := List.drop_left' length_header
  have hbefore : (overwrite rx.fragFrame 0 (s.header frameSeq (k + 1))).take rx.totalFragLen =
      s.header frameSeq (k + 1) ++ s.msg.take ((k + 1) * s.fragThreshold) := by
    rw [take_overwrite_start (by rw [length_header]; exact hlarge) (by omega), h.front, hbehind]
  constructor
  · exact h.total_succ
  · rw [Rx.extended]
    simp only
    rw [take_overwrite_end (by rw [hkept]; exact hfits), hbefore, front_succ]

theorem reassemble_next (h : rx.Holds s frameSeq k) (hbyte : k + 1 < 256)
    (hroom : lengthHeaderWai + s.msg.length ≤ rx.fragFrame.length)
    (hsize : rx.fragFrame.length = fragFrameSize) :
    rx.reassemble x (s.payload frameSeq (k + 1)) =
      some (rx.extended (s.header frameSeq (k + 1)) (s.piece (k + 1)),
        if s.hasMore (k + 1) then none else some ⟨x, s.front frameSeq (k + 1)⟩) := by
  have hnat : (BitVec.ofNat 8 (k + 1)).toNat = k + 1 := by
    rw [BitVec.toNat_ofNat, Nat.mod_eq_of_lt hbyte]
  have hlast : (BitVec.ofNat 8 k).toNat + 1 = k + 1 := by
    rw [BitVec.toNat_ofNat, Nat.mod_eq_of_lt (by omega)]
  have hnext : waiFragSeq (s.payload frameSeq (k + 1)) ≠ 0 := by
    change BitVec.ofNat 8 (k + 1) ≠ 0
    rw [ne_eq, ← BitVec.toNat_inj, hnat]
    exact Nat.succ_ne_zero k
  have hheader : (s.payload frameSeq (k + 1)).take lengthHeaderWai = s.header frameSeq (k + 1) :=
    List.take_left' length_header
  have hdata : (s.payload frameSeq (k + 1)).drop lengthHeaderWai = s.piece (k + 1) :=
    List.drop_left' length_header
  have hlong : ¬(s.payload frameSeq (k + 1)).length < lengthHeaderWai := by
    rw [payload_eq, List.length_append, length_header]
    omega
  have hpkt : ¬waiPktSeq rx.fragFrame ≠ waiPktSeq (s.payload frameSeq (k + 1)) := by
    rw [h.pktSeq, payload_eq, waiPktSeq_header, not_not]
  have hfrag : ¬(waiFragSeq rx.fragFrame).toNat + 1 ≠
      (waiFragSeq (s.payload frameSeq (k + 1))).toNat := by
    rw [h.fragSeq, payload_eq, waiFragSeq_header, hlast, hnat, not_not]
  have hflag : waiFlag (s.payload frameSeq (k + 1)) = if s.hasMore (k + 1) then 1 else 0 :=
    waiFlag_header _
  have hfits := h.fits hroom
  have hwhole := (h.extended hroom).front
  rw [Rx.extended] at hwhole
  simp only at hwhole
  rw [Rx.reassemble, if_neg hnext, Rx.append, if_neg hpkt, if_neg hfrag, if_neg hlong, hheader,
    hdata]
  simp only
  rw [if_neg (by omega), hwhole, hflag, Rx.extended]
  cases s.hasMore (k + 1) <;> rfl

end Buffer

section Receive

variable {s : Sending} {frameSeq : U16} {x daddr : MacAddr} {wlanAddrs : List MacAddr}
  {rx rx' : Rx} {k : Nat}

theorem receive_payload (hdaddr : daddr ∈ wlanAddrs) :
    wapiHandleL2Receive wlanAddrs rx ⟨daddr, x, ethPWapi, s.payload frameSeq k⟩ =
      match rx.entryFor x with
      | none => some (rx, none)
      | some rx => rx.reassemble x (s.payload frameSeq k) := by
  have hlong : ¬(s.payload frameSeq k).length < lengthHeaderWai := by
    rw [payload_eq, List.length_append, length_header]
    omega
  have htype : ¬ethPWapi = ethPVlan := by decide
  have hproprietary : ¬(s.payload frameSeq k).take 3 = ralinkSpecificIe := by
    change ¬([0, 1, 1] : List U8) = ralinkSpecificIe
    decide
  rw [wapiHandleL2Receive, if_neg hlong, L2Frame.untagged, if_neg htype]
  simp only
  rw [if_neg (fun h => h rfl), if_neg (fun h => h hdaddr)]
  cases rx.entryFor x with
  | none => rfl
  | some rx =>
    simp only
    rw [if_neg hproprietary]

theorem entryFor_some (h : rx.entryFor x = some rx') :
    x ∈ rx'.stations ∧ rx'.fragFrame = rx.fragFrame ∧ rx'.totalFragLen = rx.totalFragLen := by
  unfold Rx.entryFor at h
  split at h
  · cases h
    exact ⟨‹_›, rfl, rfl⟩
  · split at h
    · cases h
      exact ⟨List.mem_append_right _ (List.mem_singleton_self x), rfl, rfl⟩
    · cases h

theorem entryFor_none (h : rx.entryFor x = none) : x ∉ rx.stations := by
  unfold Rx.entryFor at h
  split at h
  · cases h
  · assumption

theorem Rx.Holds.of_buffer (h : rx.Holds s frameSeq k) (hframe : rx'.fragFrame = rx.fragFrame)
    (htotal : rx'.totalFragLen = rx.totalFragLen) : rx'.Holds s frameSeq k := by
  constructor
  · rw [htotal, h.total]
  · rw [hframe, htotal, h.front]

end Receive

/-- A message of a length that is sent, in frames of a size and a number that are sent. -/
structure Sending.Sendable (s : Sending) : Prop where
  nonempty : 1 ≤ s.msg.length
  length_le : s.msg.length ≤ 2988
  l2Mtu_ge : 27 ≤ s.l2Mtu
  l2Mtu_le : s.l2Mtu ≤ 1500
  fragments : s.msg.length ≤ 256 * s.fragThreshold

structure Traffic where
  wlanAddrs : List MacAddr
  bss : MacAddr → MacAddr
  bss_mem : ∀ x, bss x ∈ wlanAddrs
  sent : MacAddr → List Sending
  sendable : ∀ x, ∀ s ∈ sent x, s.Sendable

/-- A frame of message `msg` of a station comes in, lost frames do not. -/
structure Arrival where
  station : MacAddr
  msg : Nat
  frag : Nat
  deriving DecidableEq

structure Ear where
  rx : Rx
  origin : Option (MacAddr × Nat)
  delivered : List Delivery
  deriving DecidableEq

def Ear.start (rx : Rx) : Ear := ⟨rx, none, []⟩

/-- `frame_seq` when message `i` is sent: it starts at 1 and every message adds one. -/
def frameSeqOf (i : Nat) : U16 := BitVec.ofNat 16 (1 + i)

namespace Traffic

variable (t : Traffic)

def frame (a : Arrival) : Option (Sending × L2Frame) := do
  let s ← (t.sent a.station)[a.msg]?
  let f ← (wapiHandleL2Send a.station (t.bss a.station) (frameSeqOf a.msg) s)[a.frag]?
  pure (s, f)

def frames (m : MacAddr × Nat) : List Arrival :=
  match (t.sent m.1)[m.2]? with
  | none => []
  | some s =>
    (List.range (s.payloads (frameSeqOf m.2)).length).map fun frag => ⟨m.1, m.2, frag⟩

end Traffic

def hear (t : Traffic) (e : Ear) (a : Arrival) : Option Ear := do
  let (s, f) ← t.frame a
  let (rx, delivery) ← wapiHandleL2Receive t.wlanAddrs e.rx f
  pure {
    rx
    origin := if a.frag = 0 ∧ s.hasMore 0 ∧ a.station ∈ rx.stations then some (a.station, a.msg)
      else e.origin
    delivered := e.delivered ++ delivery.toList }

def Genuine (e : Ear) (a : Arrival) : Prop :=
  a.frag ≠ 0 → waiPktSeq e.rx.fragFrame = frameSeqOf a.msg →
    (waiFragSeq e.rx.fragFrame).toNat + 1 = a.frag → e.origin = some (a.station, a.msg)

instance (e : Ear) (a : Arrival) : Decidable (Genuine e a) := by
  unfold Genuine
  infer_instance

structure Delivery.Carries (d : Delivery) (s : Sending) : Prop where
  subType : waiSubType d.msg = s.msgType
  msg : d.msg.drop lengthHeaderWai = s.msg

instance (d : Delivery) (s : Sending) : Decidable (d.Carries s) :=
  decidable_of_iff (waiSubType d.msg = s.msgType ∧ d.msg.drop lengthHeaderWai = s.msg)
    ⟨fun h => ⟨h.1, h.2⟩, fun h => ⟨h.1, h.2⟩⟩

def InOrder (arrivals : List Arrival) : Prop :=
  arrivals.Pairwise fun a b =>
    a.station = b.station → a.msg < b.msg ∨ a.msg = b.msg ∧ a.frag ≤ b.frag

instance (arrivals : List Arrival) : Decidable (InOrder arrivals) := by
  unfold InOrder
  infer_instance

section Hear

variable {t : Traffic} {s : Sending} {e e' : Ear} {a : Arrival} {f : L2Frame}

theorem frame_some (h : t.frame a = some (s, f)) :
    (t.sent a.station)[a.msg]? = some s ∧ s.Sendable ∧
      f = ⟨t.bss a.station, a.station, ethPWapi, s.payload (frameSeqOf a.msg) a.frag⟩ ∧
      a.frag < 256 ∧ (a.frag = 0 ∨ a.frag * s.fragThreshold < s.msg.length) := by
  obtain ⟨s', hs, hrest⟩ := Option.bind_eq_some_iff.mp h
  obtain ⟨f', hf, hboth⟩ := Option.bind_eq_some_iff.mp hrest
  cases hboth
  have hsendable : s.Sendable := t.sendable _ s (List.mem_of_getElem? hs)
  rw [wapiHandleL2Send, List.getElem?_map, Option.map_eq_some_iff] at hf
  obtain ⟨payload, hpayload, rfl⟩ := hf
  obtain ⟨rfl, hin⟩ := payloads_getElem? hpayload
  refine ⟨hs, hsendable, rfl, ?_, hin⟩
  rcases hin with hzero | hin
  · omega
  · apply Nat.lt_of_mul_lt_mul_right
    exact Nat.lt_of_lt_of_le hin hsendable.fragments

theorem hear_eq (h : t.frame a = some (s, f)) :
    hear t e a =
      (match e.rx.entryFor a.station with
        | none => some (e.rx, none)
        | some rx => rx.reassemble a.station (s.payload (frameSeqOf a.msg) a.frag)).bind
      fun r => some {
        rx := r.1
        origin := if a.frag = 0 ∧ s.hasMore 0 ∧ a.station ∈ r.1.stations
          then some (a.station, a.msg) else e.origin
        delivered := e.delivered ++ r.2.toList } := by
  obtain ⟨-, -, rfl, -⟩ := frame_some h
  rw [← receive_payload (t.bss_mem a.station), hear, h]
  rfl

section Entry

variable {rx : Rx} (h : t.frame a = some (s, f)) (hentry : e.rx.entryFor a.station = some rx)
  (hsize : e.rx.fragFrame.length = fragFrameSize)

include h

theorem hear_unlisted (hnone : e.rx.entryFor a.station = none) : hear t e a = some e := by
  have hnot : ¬(a.frag = 0 ∧ s.hasMore 0 ∧ a.station ∈ e.rx.stations) :=
    fun hall => entryFor_none hnone hall.2.2
  rw [hear_eq h, hnone]
  simp only [Option.bind_some, Option.toList_none, List.append_nil]
  rw [if_neg hnot]

include hentry

theorem hear_only (hfrag : a.frag = 0) (hlast : s.hasMore 0 = false) :
    hear t e a = some { e with
      rx
      delivered := e.delivered ++ [⟨a.station, s.front (frameSeqOf a.msg) 0⟩] } := by
  rw [hear_eq h, hentry, hfrag]
  simp only
  rw [reassemble_only hlast, hlast]
  simp

theorem hear_stray (hfrag : a.frag ≠ 0)
    (hstray : ¬(waiPktSeq e.rx.fragFrame = frameSeqOf a.msg ∧
      (waiFragSeq e.rx.fragFrame).toNat + 1 = a.frag)) :
    hear t e a = some { e with rx } := by
  obtain ⟨-, -, -, hbyte, -⟩ := frame_some h
  rw [← (entryFor_some hentry).2.1] at hstray
  rw [hear_eq h, hentry]
  simp only
  rw [reassemble_stray hfrag hbyte hstray]
  simp only [Option.bind_some, Option.toList_none, List.append_nil]
  rw [if_neg (fun hall => hfrag hall.1)]

include hsize

theorem hear_first (hfrag : a.frag = 0) (hmore : s.hasMore 0 = true) :
    ∃ rx', hear t e a = some ⟨rx', some (a.station, a.msg), e.delivered⟩ ∧
      rx'.Holds s (frameSeqOf a.msg) 0 ∧ rx'.fragFrame.length = fragFrameSize ∧
      rx'.stations = rx.stations := by
  obtain ⟨-, hsendable, -⟩ := frame_some h
  obtain ⟨hlisted, hframe, -⟩ := entryFor_some hentry
  have hle := hsendable.length_le
  have hroom : lengthHeaderWai + s.msg.length ≤ rx.fragFrame.length := by
    rw [hframe, hsize, fragFrameSize, lengthHeaderWai]
    omega
  have hfirst : ∃ rx', rx.reassemble a.station (s.payload (frameSeqOf a.msg) 0) =
      some (rx', none) ∧ rx'.Holds s (frameSeqOf a.msg) 0 ∧
        rx'.fragFrame.length = rx.fragFrame.length ∧ rx'.stations = rx.stations :=
    reassemble_first hmore hroom
  obtain ⟨rx', hrun, hholds, hlen, hstations⟩ := hfirst
  refine ⟨rx', ?_, hholds, by rw [hlen, hframe, hsize], hstations⟩
  rw [hear_eq h, hentry, hfrag]
  simp only
  rw [hrun]
  simp only [Option.bind_some, Option.toList_none, List.append_nil]
  rw [if_pos ⟨trivial, hmore, by rw [hstations]; exact hlisted⟩]

theorem hear_next {k : Nat} (hfrag : a.frag = k + 1)
    (hholds : e.rx.Holds s (frameSeqOf a.msg) k) :
    ∃ rx', hear t e a = some { e with
        rx := rx'
        delivered := e.delivered ++ if s.hasMore (k + 1) then []
          else [⟨a.station, s.front (frameSeqOf a.msg) (k + 1)⟩] } ∧
      rx'.Holds s (frameSeqOf a.msg) (k + 1) ∧ rx'.fragFrame.length = fragFrameSize ∧
      rx'.stations = rx.stations := by
  obtain ⟨-, hsendable, -, hbyte, -⟩ := frame_some h
  obtain ⟨-, hframe, htotal⟩ := entryFor_some hentry
  have hle := hsendable.length_le
  have hroom : lengthHeaderWai + s.msg.length ≤ rx.fragFrame.length := by
    rw [hframe, hsize, fragFrameSize, lengthHeaderWai]
    omega
  have hthere := hholds.of_buffer hframe htotal
  refine ⟨_, ?_, hthere.extended hroom, ?_, rfl⟩
  · rw [hear_eq h, hentry, hfrag]
    simp only
    rw [reassemble_next hthere (by omega) hroom (by rw [hframe, hsize])]
    simp only [Option.bind_some]
    rw [if_neg (fun hall => Nat.succ_ne_zero k hall.1)]
    cases s.hasMore (k + 1) <;> rfl
  · rw [hthere.length_extended hroom, hframe, hsize]

end Entry

end Hear

structure Ear.Sound (t : Traffic) (e : Ear) : Prop where
  size : e.rx.fragFrame.length = fragFrameSize
  front : ∀ x i, e.origin = some (x, i) →
    ∃ s k, (t.sent x)[i]? = some s ∧ k < 256 ∧ e.rx.Holds s (frameSeqOf i) k
  delivered : ∀ d ∈ e.delivered, ∃ s ∈ t.sent d.station, d.Carries s

section Sound

variable {t : Traffic} {s : Sending} {e e' : Ear} {a : Arrival} {f : L2Frame} {rx : Rx} {k : Nat}

theorem carries_front {x : MacAddr} {frameSeq : U16} (hlast : s.hasMore k = false) :
    Delivery.Carries ⟨x, s.front frameSeq k⟩ s := by
  constructor
  · exact waiSubType_header _
  · rw [front_of_last hlast]
    exact List.drop_left' length_header

theorem Ear.Sound.with_rx (h : e.Sound t) (hframe : rx.fragFrame = e.rx.fragFrame)
    (htotal : rx.totalFragLen = e.rx.totalFragLen) : Ear.Sound t { e with rx } := by
  constructor
  · exact hframe ▸ h.size
  · intro x i horigin
    obtain ⟨s, k, hs, hbyte, hholds⟩ := h.front x i horigin
    exact ⟨s, k, hs, hbyte, hholds.of_buffer hframe htotal⟩
  · exact h.delivered

theorem delivered_append {x : MacAddr} {frameSeq : U16}
    (h : ∀ d ∈ e.delivered, ∃ s ∈ t.sent d.station, d.Carries s) (hs : s ∈ t.sent x)
    (hlast : s.hasMore k = false) :
    ∀ d ∈ e.delivered ++ [⟨x, s.front frameSeq k⟩], ∃ s ∈ t.sent d.station, d.Carries s := by
  intro d hd
  rcases List.mem_append.mp hd with hd | hd
  · exact h d hd
  · obtain rfl := List.mem_singleton.mp hd
    exact ⟨s, hs, carries_front hlast⟩

theorem Ear.Sound.step (h : e.Sound t) (hframe : t.frame a = some (s, f)) (hgenuine : Genuine e a) :
    ∃ e', hear t e a = some e' ∧ e'.Sound t := by
  obtain ⟨hs, -⟩ := frame_some hframe
  have hmem : s ∈ t.sent a.station := List.mem_of_getElem? hs
  cases hentry : e.rx.entryFor a.station with
  | none => exact ⟨e, hear_unlisted hframe hentry, h⟩
  | some rx =>
    obtain ⟨-, hbuffer, htotal⟩ := entryFor_some hentry
    by_cases hfrag : a.frag = 0
    · cases hmore : s.hasMore 0 with
      | false =>
        have hsame := h.with_rx hbuffer htotal
        exact ⟨_, hear_only hframe hentry hfrag hmore, hsame.size, hsame.front,
          delivered_append h.delivered hmem hmore⟩
      | true =>
        obtain ⟨rx', hrun, hholds, hsize, -⟩ := hear_first hframe hentry h.size hfrag hmore
        refine ⟨_, hrun, hsize, ?_, h.delivered⟩
        intro x i horigin
        cases horigin
        exact ⟨s, 0, hs, by omega, hholds⟩
    · by_cases hwaits : waiPktSeq e.rx.fragFrame = frameSeqOf a.msg ∧
          (waiFragSeq e.rx.fragFrame).toNat + 1 = a.frag
      · -- the guard: the buffer holds the front of this very message
        have horigin := hgenuine hfrag hwaits.1 hwaits.2
        obtain ⟨s', k, hs', hbyte, hholds⟩ := h.front _ _ horigin
        obtain rfl : s = s' := by
          rw [hs] at hs'
          exact Option.some_inj.mp hs'
        have hnumber : a.frag = k + 1 := by
          rw [← hwaits.2, hholds.fragSeq, BitVec.toNat_ofNat, Nat.mod_eq_of_lt hbyte]
        obtain ⟨rx', hrun, hholds', hsize, -⟩ := hear_next hframe hentry h.size hnumber hholds
        obtain ⟨-, -, -, hfragByte, -⟩ := frame_some hframe
        refine ⟨_, hrun, hsize, ?_, ?_⟩
        · intro x i horigin'
          have hsame : some (a.station, a.msg) = some (x, i) := horigin.symm.trans horigin'
          cases hsame
          exact ⟨s, k + 1, hs, by omega, hholds'⟩
        · cases hmore : s.hasMore (k + 1) with
          | true =>
            rw [if_pos rfl, List.append_nil]
            exact h.delivered
          | false =>
            rw [if_neg Bool.false_ne_true]
            exact delivered_append h.delivered hmem hmore
      · exact ⟨_, hear_stray hframe hentry hfrag hwaits, h.with_rx hbuffer htotal⟩

theorem sound_start (hsize : rx.fragFrame.length = fragFrameSize) : (Ear.start rx).Sound t := by
  constructor
  · exact hsize
  · intro x i horigin
    cases horigin
  · intro d hd
    cases hd

/-- The run: as long as every frame is genuine the receiver is sound. -/
theorem Ear.Sound.run {arrivals : List Arrival} (h : e.Sound t)
    (hrun : Run (Guarded Genuine (Graph (hear t))) e arrivals e') : e'.Sound t := by
  apply hrun.invariant (Ear.Sound t) _ h
  rintro e a e' h ⟨hgenuine, hstep⟩
  obtain ⟨⟨s, f⟩, hframe, -⟩ := Option.bind_eq_some_iff.mp hstep
  obtain ⟨next, hnext, hsound⟩ := h.step hframe hgenuine
  obtain rfl : next = e' := Option.some_inj.mp (hnext.symm.trans hstep)
  exact hsound

end Sound

/-- The stations of the receiver are among `T`, each with one entry. -/
structure Rx.Within (rx : Rx) (T : Finset MacAddr) : Prop where
  nodup : rx.stations.Nodup
  subset : ∀ x ∈ rx.stations, x ∈ T

section Whole

variable {t : Traffic} {s : Sending} {e e' : Ear} {T : Finset MacAddr} {rx rx' : Rx} {x : MacAddr}
  {i n : Nat}

theorem Rx.Within.of_stations (h : rx.Within T) (hstations : rx'.stations = rx.stations) :
    rx'.Within T := by
  constructor
  · rw [hstations]
    exact h.nodup
  · rw [hstations]
    exact h.subset

theorem Rx.Within.entryFor (h : rx.Within T) (hcard : T.card < maxStaNum) (hx : x ∈ T) :
    ∃ rx', rx.entryFor x = some rx' ∧ rx'.Within T := by
  unfold Rx.entryFor
  by_cases hold : x ∈ rx.stations
  · rw [if_pos hold]
    exact ⟨rx, rfl, h⟩
  · have hroom : rx.stations.length < T.card := by
      have hnew : (x :: rx.stations).Nodup := List.nodup_cons.mpr ⟨hold, h.nodup⟩
      have hle : (x :: rx.stations).toFinset.card ≤ T.card := by
        apply Finset.card_le_card
        intro y hy
        rcases List.mem_cons.mp (List.mem_toFinset.mp hy) with rfl | hy
        · exact hx
        · exact h.subset y hy
      rw [List.toFinset_card_of_nodup hnew, List.length_cons] at hle
      omega
    rw [if_neg hold, if_pos (by omega)]
    refine ⟨_, rfl, ?_, ?_⟩
    · rw [List.nodup_append]
      refine ⟨h.nodup, List.nodup_singleton x, ?_⟩
      intro y hy z hz hyz
      obtain rfl := List.mem_singleton.mp hz
      exact hold (hyz ▸ hy)
    · intro y hy
      rcases List.mem_append.mp hy with hy | hy
      · exact h.subset y hy
      · obtain rfl := List.mem_singleton.mp hy
        exact hx

theorem frame_exists (hs : (t.sent x)[i]? = some s)
    (hn : n < (s.payloads (frameSeqOf i)).length) :
    ∃ f, t.frame ⟨x, i, n⟩ = some (s, f) := by
  obtain ⟨payload, hpayload⟩ : ∃ payload, (s.payloads (frameSeqOf i))[n]? = some payload :=
    ⟨_, List.getElem?_eq_getElem hn⟩
  refine ⟨⟨t.bss x, x, ethPWapi, payload⟩, ?_⟩
  rw [Traffic.frame, hs]
  simp only [wapiHandleL2Send, List.getElem?_map, hpayload, Option.map_some, Option.bind_eq_bind,
    Option.bind_some]
  rfl

theorem message_heard (hs : (t.sent x)[i]? = some s) (hcard : T.card < maxStaNum) (hx : x ∈ T)
    (hsize : e.rx.fragFrame.length = fragFrameSize) (hwithin : e.rx.Within T)
    (hn : n < (s.payloads (frameSeqOf i)).length) :
    ∃ e', Run (Graph (hear t)) e ((List.range (n + 1)).map fun frag => ⟨x, i, frag⟩) e' ∧
      e'.rx.fragFrame.length = fragFrameSize ∧ e'.rx.Within T ∧
      (s.hasMore n = true → e'.rx.Holds s (frameSeqOf i) n) ∧
      e'.delivered = e.delivered ++
        if s.hasMore n then [] else [⟨x, s.front (frameSeqOf i) n⟩] := by
  induction n with
  | zero =>
    obtain ⟨f, hframe⟩ := frame_exists hs hn
    obtain ⟨rx, hentry, hwithin'⟩ := hwithin.entryFor hcard hx
    cases hmore : s.hasMore 0 with
    | false =>
      refine ⟨_, .single (hear_only hframe hentry rfl hmore), ?_, hwithin', by simp, rfl⟩
      rw [← hsize]
      exact congrArg List.length (entryFor_some hentry).2.1
    | true =>
      obtain ⟨rx', hrun, hholds, hsize', hstations⟩ := hear_first hframe hentry hsize rfl hmore
      refine ⟨_, .single hrun, hsize', hwithin'.of_stations hstations, fun _ => hholds, ?_⟩
      exact (List.append_nil _).symm
  | succ n ih =>
    obtain ⟨mid, hrun, hsizeMid, hwithinMid, hholds, hdelivered⟩ := ih (by omega)
    obtain ⟨f, hframe⟩ := frame_exists hs hn
    obtain ⟨rx, hentry, hwithin'⟩ := hwithinMid.entryFor hcard hx
    have hmore : s.hasMore n = true := by
      have hdata := (frame_some hframe).2.2.2.2
      rw [Sending.hasMore, decide_eq_true_iff]
      exact hdata.resolve_left (Nat.succ_ne_zero n)
    rw [hmore, if_pos rfl, List.append_nil] at hdelivered
    obtain ⟨rx', hstep, hholds', hsize', hstations⟩ :=
      hear_next hframe hentry hsizeMid rfl (hholds hmore)
    rw [hdelivered] at hstep
    rw [List.range_succ, List.map_append]
    exact ⟨_, .snoc hrun hstep, hsize', hwithin'.of_stations hstations, fun _ => hholds', rfl⟩

theorem whole_message_heard (hs : (t.sent x)[i]? = some s) (hcard : T.card < maxStaNum)
    (hx : x ∈ T) (hsize : e.rx.fragFrame.length = fragFrameSize) (hwithin : e.rx.Within T) :
    ∃ e' d, Run (Graph (hear t)) e (t.frames (x, i)) e' ∧
      e'.rx.fragFrame.length = fragFrameSize ∧ e'.rx.Within T ∧
      e'.delivered = e.delivered ++ [d] ∧ d.station = x ∧ d.Carries s := by
  have hsendable : s.Sendable := t.sendable x s (List.mem_of_getElem? hs)
  have hroom : 0 < s.fragThreshold := by
    have hge := hsendable.l2Mtu_ge
    rw [Sending.fragThreshold, lenHeader8023, lengthHeaderWai]
    omega
  have hfirst : 0 < (s.payloads (frameSeqOf i)).length := by
    rw [Sending.payloads, Sending.loop]
    split <;> exact Nat.succ_pos _
  obtain ⟨n, hn⟩ : ∃ n, (s.payloads (frameSeqOf i)).length = n + 1 :=
    Nat.exists_eq_succ_of_ne_zero (by omega)
  have hlast : s.hasMore n = false := by
    rw [Bool.eq_false_iff]
    intro hmore
    rw [Sending.hasMore, decide_eq_true_iff] at hmore
    have hnext : ((s.payloads (frameSeqOf i))[n + 1]?).isSome = true :=
      payloads_isSome hroom (Or.inr hmore)
    obtain ⟨payload, hpayload⟩ := Option.isSome_iff_exists.mp hnext
    obtain ⟨hlt, -⟩ := List.getElem?_eq_some_iff.mp hpayload
    omega
  obtain ⟨e', hrun, hsize', hwithin', -, hdelivered⟩ :=
    message_heard hs hcard hx hsize hwithin (by omega : n < (s.payloads (frameSeqOf i)).length)
  rw [hlast, if_neg Bool.false_ne_true] at hdelivered
  refine ⟨e', _, ?_, hsize', hwithin', hdelivered, rfl, carries_front hlast⟩
  rw [Traffic.frames, hs]
  simp only
  rw [hn]
  exact hrun

end Whole

section Messages

variable {t : Traffic} {e : Ear} {T : Finset MacAddr} {start : Rx}

/-- What is delivered for message `m` of a station. -/
def Traffic.DeliversFor (t : Traffic) (m : MacAddr × Nat) (d : Delivery) : Prop :=
  d.station = m.1 ∧ ∃ s, (t.sent m.1)[m.2]? = some s ∧ d.Carries s

theorem whole_messages_heard {ms : List (MacAddr × Nat)} (hcard : T.card < maxStaNum)
    (hsize : e.rx.fragFrame.length = fragFrameSize) (hwithin : e.rx.Within T)
    (hms : ∀ m ∈ ms, m.1 ∈ T ∧ m.2 < (t.sent m.1).length) :
    ∃ e' ds, Run (Graph (hear t)) e (ms.flatMap t.frames) e' ∧
      e'.delivered = e.delivered ++ ds ∧ List.Forall₂ t.DeliversFor ms ds := by
  induction ms generalizing e with
  | nil => exact ⟨e, [], .nil, (List.append_nil _).symm, .nil⟩
  | cons m ms ih =>
    obtain ⟨x, i⟩ := m
    obtain ⟨hx, hi⟩ := hms (x, i) List.mem_cons_self
    obtain ⟨s, hs⟩ : ∃ s, (t.sent x)[i]? = some s := ⟨_, List.getElem?_eq_getElem hi⟩
    obtain ⟨mid, d, hfirst, hsizeMid, hwithinMid, hd, hstation, hcarries⟩ :=
      whole_message_heard hs hcard hx hsize hwithin
    obtain ⟨e', ds, hrest, hds, hall⟩ :=
      ih hsizeMid hwithinMid fun m hm => hms m (List.mem_cons_of_mem _ hm)
    refine ⟨e', d :: ds, ?_, ?_, .cons ⟨hstation, s, hs, hcarries⟩ hall⟩
    · rw [List.flatMap_cons]
      exact hfirst.trans hrest
    · rw [hds, hd, List.append_assoc, List.singleton_append]

/-- As long as every continuation that is taken is of the message in the buffer, what is delivered
has been sent and no frame goes beyond the buffer. Whole messages of no more stations than there are
entries are delivered, each once. -/
theorem reassembly_exact (t : Traffic) (start : Rx)
    (hsize : start.fragFrame.length = fragFrameSize) :
    (∀ arrivals e, Run (Guarded Genuine (Graph (hear t))) (Ear.start start) arrivals e →
      (∀ d ∈ e.delivered, ∃ s ∈ t.sent d.station, d.Carries s) ∧
        ∀ a, t.frame a ≠ none → Genuine e a → hear t e a ≠ none) ∧
    ∀ (T : Finset MacAddr) (ms : List (MacAddr × Nat)), T.card < maxStaNum → start.Within T →
      (∀ m ∈ ms, m.1 ∈ T ∧ m.2 < (t.sent m.1).length) →
        ∃ e, Run (Graph (hear t)) (Ear.start start) (ms.flatMap t.frames) e ∧
          List.Forall₂ t.DeliversFor ms e.delivered := by
  constructor
  · intro arrivals e hrun
    have hsound : e.Sound t := (sound_start hsize).run hrun
    refine ⟨hsound.delivered, ?_⟩
    intro a hframe hgenuine
    obtain ⟨⟨s, f⟩, hf⟩ := Option.ne_none_iff_exists'.mp hframe
    obtain ⟨next, hnext, -⟩ := hsound.step hf hgenuine
    rw [hnext]
    exact Option.some_ne_none next
  · intro T ms hcard hwithin hms
    have hstart : (Ear.start start).rx.fragFrame.length = fragFrameSize := hsize
    obtain ⟨e, ds, hrun, hds, hall⟩ := whole_messages_heard hcard hstart hwithin hms
    refine ⟨e, hrun, ?_⟩
    rw [hds]
    exact hall

def stationA : MacAddr := padded 6 [0x02, 0xaa]
def stationB : MacAddr := padded 6 [0x02, 0xbb]

def exampleTraffic : Traffic where
  wlanAddrs := [padded 6 [0x02]]
  bss _ := padded 6 [0x02]
  bss_mem _ := List.mem_singleton_self _
  sent x :=
    if x = stationA then [⟨27, 0x04, [1, 2]⟩]
    else if x = stationB then [⟨27, 0x05, [3, 4]⟩]
    else []
  sendable x s hs := by
    split at hs
    · obtain rfl := List.mem_singleton.mp hs
      exact ⟨by decide, by decide, by decide, by decide, by decide⟩
    · split at hs
      · obtain rfl := List.mem_singleton.mp hs
        exact ⟨by decide, by decide, by decide, by decide, by decide⟩
      · cases hs

def exampleRx : Rx := ⟨[], List.replicate fragFrameSize 0, 0⟩

theorem reassembly_exact_example :
    (∃ e, Run (Guarded Genuine (Graph (hear exampleTraffic))) (Ear.start exampleRx)
        [⟨stationA, 0, 0⟩, ⟨stationA, 0, 1⟩, ⟨stationB, 0, 0⟩, ⟨stationB, 0, 1⟩] e ∧
      e.delivered.length = 2 ∧
      ∀ d ∈ e.delivered, ∃ s ∈ exampleTraffic.sent d.station, d.Carries s) ∧
    ∃ e, Run (Graph (hear exampleTraffic)) (Ear.start exampleRx)
        ([(stationA, 0), (stationB, 0)].flatMap exampleTraffic.frames) e ∧
      List.Forall₂ exampleTraffic.DeliversFor [(stationA, 0), (stationB, 0)] e.delivered := by
  have hboth := reassembly_exact exampleTraffic exampleRx List.length_replicate
  constructor
  · obtain ⟨e, he, h⟩ := (Option.any_eq_true _ _).mp
      (by decide +kernel : (exec (guardStep Genuine (hear exampleTraffic)) (Ear.start exampleRx)
        [⟨stationA, 0, 0⟩, ⟨stationA, 0, 1⟩, ⟨stationB, 0, 0⟩, ⟨stationB, 0, 1⟩]).any
          (fun e => decide (e.delivered.length = 2)) = true)
    have hrun := exec_guarded_run he
    exact ⟨e, hrun, of_decide_eq_true h, (hboth.1 _ e hrun).1⟩
  · apply hboth.2 {stationA, stationB}
    · decide
    · constructor
      · exact List.nodup_nil
      · intro x hx
        cases hx
    · decide

/-- The second fragment of another station completes a message: what is delivered for `stationB`
begins with the data of `stationA`. -/
theorem spliced_message_delivered :
    InOrder [⟨stationA, 0, 0⟩, ⟨stationB, 0, 1⟩] ∧
      ∃ e, Run (Graph (hear exampleTraffic)) (Ear.start exampleRx)
          [⟨stationA, 0, 0⟩, ⟨stationB, 0, 1⟩] e ∧
        ∃ d ∈ e.delivered, d.station = stationB ∧
          ∀ s ∈ exampleTraffic.sent d.station, ¬d.Carries s := by
  constructor
  · decide
  · obtain ⟨e, he, h⟩ := (Option.any_eq_true _ _).mp
      (by decide +kernel : (exec (hear exampleTraffic) (Ear.start exampleRx)
        [⟨stationA, 0, 0⟩, ⟨stationB, 0, 1⟩]).any (fun e => decide (∃ d ∈ e.delivered,
          d.station = stationB ∧ ∀ s ∈ exampleTraffic.sent d.station, ¬d.Carries s)) = true)
    exact ⟨e, exec_run he, of_decide_eq_true h⟩

end Messages

end OpenwrtMtk.Wapi
