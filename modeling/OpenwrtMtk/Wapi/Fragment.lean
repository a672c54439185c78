import OpenwrtMtk.Lib.Field
import OpenwrtMtk.Lib.Run
import OpenwrtMtk.Lib.Reader
import OpenwrtMtk.Wapi.Entry

/-!
# Fragmentation of WAI frames

`wapi_handle_l2_send` cuts a message into frames, `wapi_handle_l2_receive` puts the frames of all
stations together again in one buffer. A continuation is appended when its packet sequence number
is the one in the buffer and its fragment number is the next one; whose frames the buffer holds is
not looked at.
-/

namespace OpenwrtMtk.Wapi

open Toolkit

set_option autoImplicit false

def ethPWapi : U16 := 0x88b4
def ethPVlan : U16 := 0x8100
def lenHeader8023 : Nat := 14
def maxStaNum : Nat := 32
def fragFrameSize : Nat := 4096

/-- A frame of the link layer. -/
structure L2Frame where
  daddr : MacAddr
  saddr : MacAddr
  etherType : U16
  data : List U8
  deriving DecidableEq

section Send

/-- `MakeWaiHeader`. -/
def makeWaiHeader (subType : U8) (frameLen : Nat) (frameSeq : U16) (fragSeq : U8)
    (bMoreFrag : Bool) : List U8 :=
  [0, 1, 1, subType, 0, 0] ++ wordBytes (BitVec.ofNat 16 (frameLen + lengthHeaderWai)) ++
    wordBytes frameSeq ++ [fragSeq, if bMoreFrag then 1 else 0]

/-- A message of a station: the unit it goes out with, its type and its bytes. -/
structure Sending where
  l2Mtu : Nat
  msgType : U8
  msg : List U8
  deriving DecidableEq

def Sending.fragThreshold (s : Sending) : Nat := s.l2Mtu - lenHeader8023 - lengthHeaderWai

def Sending.fragment (s : Sending) (frameSeq : U16) (fragNumber : U8) (more : Bool)
    (data : List U8) : List U8 :=
  makeWaiHeader s.msgType data.length frameSeq fragNumber more ++ data

/-- The loop of `wapi_handle_l2_send`; every turn but the last sends `fragThreshold` bytes. -/
def Sending.loop (s : Sending) (frameSeq : U16) : Nat → U8 → List U8 → List (List U8)
  | 0, _, _ => []
  | fuel + 1, fragNumber, remaining =>
    if remaining.length ≤ s.fragThreshold then [s.fragment frameSeq fragNumber false remaining]
    else
      s.fragment frameSeq fragNumber true (remaining.take s.fragThreshold) ::
        s.loop frameSeq fuel (fragNumber + 1) (remaining.drop s.fragThreshold)

def Sending.payloads (s : Sending) (frameSeq : U16) : List (List U8) :=
  s.loop frameSeq (s.msg.length + 1) 0 s.msg

def wapiHandleL2Send (wlanAddr addr : MacAddr) (frameSeq : U16) (s : Sending) : List L2Frame :=
  (s.payloads frameSeq).map fun payload => ⟨addr, wlanAddr, ethPWapi, payload⟩

end Send

section Receive

/-- The stations that have an entry, and the buffer that frames are put together in. -/
structure Rx where
  stations : List MacAddr
  fragFrame : List U8
  totalFragLen : Nat
  deriving DecidableEq

/-- A call of `MlmeEnqueueForRecv`. -/
structure Delivery where
  station : MacAddr
  msg : List U8
  deriving DecidableEq

def waiSubType (hdr : List U8) : U8 := byteAt hdr 3
def waiPktSeq (hdr : List U8) : U16 := wordOf (byteAt hdr 8) (byteAt hdr 9)
def waiFragSeq (hdr : List U8) : U8 := byteAt hdr 10
def waiFlag (hdr : List U8) : U8 := byteAt hdr 11

/-- `StaTableLookup`, and `StaTableInsertEntry` for a new station. The first slot is never used. -/
def Rx.entryFor (rx : Rx) (saddr : MacAddr) : Option Rx :=
  if saddr ∈ rx.stations then some rx
  else if rx.stations.length + 1 < maxStaNum then
    some { rx with stations := rx.stations ++ [saddr] }
  else none

def L2Frame.untagged (f : L2Frame) : U16 × List U8 :=
  if f.etherType = ethPVlan then
    let inner := wordOf (byteAt f.data 2) (byteAt f.data 3)
    (inner, if inner = ethPWapi then f.data.drop 4 else f.data)
  else (f.etherType, f.data)

def ralinkSpecificIe : List U8 := [0x00, 0x0c, 0x43]

/-- A fragment that is neither the only one nor the first. A copy beyond the buffer has no
result. -/
def Rx.append (rx : Rx) (saddr : MacAddr) (pos : List U8) : Option (Rx × Option Delivery) :=
  if waiPktSeq rx.fragFrame ≠ waiPktSeq pos then some (rx, none)
  else if (waiFragSeq rx.fragFrame).toNat + 1 ≠ (waiFragSeq pos).toNat then some (rx, none)
  else if pos.length < lengthHeaderWai then none
  else
    let data := pos.drop lengthHeaderWai
    if rx.totalFragLen + data.length > fragFrameSize then none
    else
      let rx := { rx with
        fragFrame := overwrite (overwrite rx.fragFrame 0 (pos.take lengthHeaderWai))
          rx.totalFragLen data
        totalFragLen := rx.totalFragLen + data.length }
      if waiFlag pos = 0 then some (rx, some ⟨saddr, rx.fragFrame.take rx.totalFragLen⟩)
      else some (rx, none)

def Rx.reassemble (rx : Rx) (saddr : MacAddr) (pos : List U8) : Option (Rx × Option Delivery) :=
  if waiFragSeq pos = 0 then
    if waiFlag pos = 0 then some (rx, some ⟨saddr, pos⟩)
    else some ({ rx with fragFrame := overwrite rx.fragFrame 0 pos, totalFragLen := pos.length },
      none)
  else rx.append saddr pos

/-- The commands of the driver do not reach the buffer; one lets a station go. -/
def wapiHandleL2Receive (wlanAddrs : List MacAddr) (rx : Rx) (f : L2Frame) :
    Option (Rx × Option Delivery) :=
  if f.data.length < lengthHeaderWai then some (rx, none)
  else
    let (etherType, pos) := f.untagged
    if etherType ≠ ethPWapi then some (rx, none)
    else if f.daddr ∉ wlanAddrs then some (rx, none)
    else
      match rx.entryFor f.saddr with
      | none => some (rx, none)
      | some rx =>
        if pos.take 3 = ralinkSpecificIe then
          if byteAt pos 3 = 0xff then some ({ rx with stations := rx.stations.erase f.saddr }, none)
          else some (rx, none)
        else rx.reassemble f.saddr pos

end Receive

section Fragments

variable {s : Sending} {frameSeq : U16}

/-- More fragments follow the one with number `k`. -/
def Sending.hasMore (s : Sending) (k : Nat) : Bool := (k + 1) * s.fragThreshold < s.msg.length

/-- The payload with number `k`. -/
def Sending.payload (s : Sending) (frameSeq : U16) (k : Nat) : List U8 :=
  s.fragment frameSeq (BitVec.ofNat 8 k) (s.hasMore k)
    (slice s.msg (k * s.fragThreshold) s.fragThreshold)

theorem hasMore_iff {k : Nat} :
    s.hasMore k = true ↔ k * s.fragThreshold + s.fragThreshold < s.msg.length := by
  rw [Sending.hasMore, decide_eq_true_iff, Nat.succ_mul]

theorem nextNumber (k : Nat) : BitVec.ofNat 8 k + 1 = BitVec.ofNat 8 (k + 1) :=
  (BitVec.ofNat_add k 1).symm

theorem loop_getElem? {fuel k n : Nat} {payload : List U8}
    (h : (s.loop frameSeq fuel (BitVec.ofNat 8 k) (s.msg.drop (k * s.fragThreshold)))[n]? =
      some payload) :
    payload = s.payload frameSeq (k + n) ∧ (n = 0 ∨ (k + n) * s.fragThreshold < s.msg.length) := by
  induction fuel generalizing k n with
  | zero =>
    rw [Sending.loop] at h
    cases h
  | succ fuel ih =>
    rw [Sending.loop, List.length_drop] at h
    split at h
    · rename_i hlast
      cases n with
      | zero =>
        cases h
        have hmore : s.hasMore k = false := by
          rw [Bool.eq_false_iff, ne_eq, hasMore_iff]
          omega
        have hdata : s.msg.drop (k * s.fragThreshold) =
            slice s.msg (k * s.fragThreshold) s.fragThreshold := by
          rw [slice, List.take_of_length_le]
          rw [List.length_drop]
          exact hlast
        rw [Nat.add_zero, Sending.payload, hmore, ← hdata]
        exact ⟨rfl, Or.inl rfl⟩
      | succ n => cases h
    · rename_i hlast
      have hmore : s.hasMore k = true := by
        rw [hasMore_iff]
        omega
      cases n with
      | zero =>
        cases h
        rw [Nat.add_zero, Sending.payload, hmore]
        exact ⟨rfl, Or.inl rfl⟩
      | succ n =>
        have hnext : s.msg.drop (k * s.fragThreshold + s.fragThreshold) =
            s.msg.drop ((k + 1) * s.fragThreshold) := by rw [Nat.succ_mul]
        rw [List.getElem?_cons_succ, List.drop_drop, hnext, nextNumber] at h
        obtain ⟨hpayload, hin⟩ := ih h
        have hplace : k + 1 + n = k + (n + 1) := by omega
        rw [hplace] at hpayload hin
        refine ⟨hpayload, Or.inr ?_⟩
        rcases hin with rfl | hin
        · rw [hasMore_iff] at hmore
          rw [Nat.succ_mul]
          omega
        · exact hin

theorem payloads_getElem? {k : Nat} {payload : List U8}
    (h : (s.payloads frameSeq)[k]? = some payload) :
    payload = s.payload frameSeq k ∧ (k = 0 ∨ k * s.fragThreshold < s.msg.length) := by
  have hloop : (s.loop frameSeq (s.msg.length + 1) (BitVec.ofNat 8 0)
      (s.msg.drop (0 * s.fragThreshold)))[k]? = some payload := by
    rw [Nat.zero_mul]
    exact h
  have hboth := loop_getElem? hloop
  rw [Nat.zero_add] at hboth
  exact hboth

theorem loop_goes_on {fuel k n : Nat} (hroom : 0 < s.fragThreshold)
    (hfuel : s.msg.length - k * s.fragThreshold < fuel)
    (h : n = 0 ∨ (k + n) * s.fragThreshold < s.msg.length) :
    ((s.loop frameSeq fuel (BitVec.ofNat 8 k) (s.msg.drop (k * s.fragThreshold)))[n]?).isSome =
      true := by
  induction fuel generalizing k n with
  | zero => omega
  | succ fuel ih =>
    rw [Sending.loop, List.length_drop]
    split
    · rename_i hlast
      rcases h with rfl | h
      · rfl
      · cases n with
        | zero => rfl
        | succ n =>
          exfalso
          have hle : (k + 1) * s.fragThreshold ≤ (k + (n + 1)) * s.fragThreshold :=
            Nat.mul_le_mul_right _ (by omega)
          rw [Nat.succ_mul] at hle
          omega
    · rename_i hlast
      cases n with
      | zero => rfl
      | succ n =>
        have hnext : s.msg.drop (k * s.fragThreshold + s.fragThreshold) =
            s.msg.drop ((k + 1) * s.fragThreshold) := by rw [Nat.succ_mul]
        rw [List.getElem?_cons_succ, List.drop_drop, hnext, nextNumber]
        apply ih
        · rw [Nat.succ_mul]
          omega
        · right
          have hplace : k + 1 + n = k + (n + 1) := by omega
          rw [hplace]
          exact h.resolve_left (by omega)

theorem payloads_isSome {k : Nat} (hroom : 0 < s.fragThreshold)
    (h : k = 0 ∨ k * s.fragThreshold < s.msg.length) :
    ((s.payloads frameSeq)[k]?).isSome = true := by
  have hloop : ((s.loop frameSeq (s.msg.length + 1) (BitVec.ofNat 8 0)
      (s.msg.drop (0 * s.fragThreshold)))[k]?).isSome = true := by
    apply loop_goes_on hroom
    · omega
    · rw [Nat.zero_add]
      exact h
  rw [Nat.zero_mul] at hloop
  exact hloop

theorem take_succ_fragment {k : Nat} :
    s.msg.take (k * s.fragThreshold) ++ slice s.msg (k * s.fragThreshold) s.fragThreshold =
      s.msg.take ((k + 1) * s.fragThreshold) := by
  rw [slice, ← List.take_add, Nat.succ_mul]

end Fragments

end OpenwrtMtk.Wapi
