import OpenwrtMtk.Ead.Server
import OpenwrtMtk.Lib.Checked

/-!
# What ead touches of a captured frame

`handle_packet` and the handlers with their reads of the frame, the copy into `abuf`, the decryption
in place and the zero behind a command. The frame is the beginning of a packet buffer of `size`
bytes; only that zero may lie behind the frame.
-/

namespace OpenwrtMtk.Ead

open Toolkit

set_option autoImplicit false

/-- `PCAP_MRU`. -/
def pcapMru : Nat := 1600

/-- `sizeof(abuf)`. -/
def sizeofAbuf : Nat := maxParamLen + 1

def ntohs : List U8 → U16
  | [a, b] => a ++ b
  | _ => 0

def frameFields (frame : List U8) : Packet where
  hlen := frame.length
  etherType := ntohs (slice frame 12 2)
  dhost := slice frame 0 6
  proto := frame.getD 23 0
  destport := ntohs (slice frame 36 2)
  magic := ntohl (slice frame 42 4)
  len := ntohl (slice frame 46 4)
  type := ntohl (slice frame 50 4)
  nid := ntohs (slice frame 54 2)
  sid := ntohs (slice frame 56 2)
  data := frame.drop sizeofPacket

section Accesses

def readHeader (frame : List U8) : Checked Packet := do
  let etherType ← load frame 12 2
  let dhost ← load frame 0 6
  let proto ← loadByte frame 23
  let destport ← load frame 36 2
  let magic ← load frame 42 4
  let len ← load frame 46 4
  let type ← load frame 50 4
  let nid ← load frame 54 2
  let sid ← load frame 56 2
  return {
    hlen := frame.length
    etherType := ntohs etherType
    dhost := dhost
    proto := proto
    destport := ntohs destport
    magic := ntohl magic
    len := ntohl len
    type := ntohl type
    nid := ntohs nid
    sid := ntohs sid
    data := frame.drop sizeofPacket }

/-- The loop of `ead_decrypt_message` over its blocks, which are decrypted where they are. -/
def decryptBlocks (f : List U8 → List U8) : Nat → Nat → List U8 → Checked (List U8)
  | 0, _, frame => return frame
  | n + 1, off, frame => do
    let block ← load frame off 16
    let frame ← store frame off (f block)
    decryptBlocks f n (off + 16) frame

/-- The loop of `ead_hash_message`, and the bytes that it hashes. -/
def hashBlocks (frame : List U8) : Nat → Nat → Checked (List U8)
  | 0, _ => return []
  | n + 1, off => do
    let block ← load frame off 64
    let bytes ← hashBlocks frame n (off + 64)
    return block ++ bytes

/-- `ead_decrypt_message`. -/
def decryptIn (K : Cipher) (c : Crypt) (frame : List U8) (len : U32) :
    Checked (U32 × List U8) :=
  if len = 0 ∨ 0 < len.toInt.tmod eadEncPad then return (0, frame)
  else do
    let frame ← decryptBlocks (K.decrypt c.key) (len.toInt.toNat / 16) sizeofPacket frame
    let pad ← loadByte frame (sizeofPacket + 24)
    if eadEncPad ≤ pad.toNat then return (0, frame)
    else do
      let iv ← load frame (sizeofPacket + 20) 4
      match eadCheckRxIv c.rxIv (ntohl iv) with
      | none => return (0, frame)
      | some _ => do
        let hashOld ← load frame sizeofPacket 20
        let frame ← store frame sizeofPacket zeroHash
        let bytes ← hashBlocks frame (len.toInt.toNat / 64) sizeofPacket
        if K.sha bytes = hashOld then
          return (len - BitVec.ofNat 32 (pad.toNat + sizeofEncrypted), frame)
        else return (0, frame)

/-- `memcpy(A.data, number->data, len)`: a negative length is a large one. -/
def sendAIn (frame : List U8) (len : U32) : Checked Unit :=
  if (maxParamLen + 1 : Nat) < (len - 1).toInt then return ()
  else do
    let bytes ← load frame (sizeofPacket + 1) (len - 1).toNat
    let _ ← store (List.replicate sizeofAbuf 0) 0 bytes
    return ()

def sendCmdIn (K : Cipher) (c : Crypt) (frame : List U8) (len : U32) (size : Nat) :
    Checked Unit := do
  let (enclen, frame) ← decryptIn K c frame len
  let datalen := (enclen - 3).toInt
  if datalen ≤ 0 then return ()
  else do
    let _ ← loadByte frame (sizeofPacket + sizeofEncrypted)
    let _ ← load frame (sizeofPacket + sizeofEncrypted + 1) 2
    -- the bytes of a command, and `cmd->data[datalen] = 0`
    let _ ← load frame (sizeofPacket + sizeofEncrypted + 3) datalen.toNat
    let _ ← storeIn frame 0 size (sizeofPacket + sizeofEncrypted + 3 + datalen.toNat) [0]
    return ()

def handlerIn (K : Cipher) (s : State) (frame : List U8) (len : U32) (size : Nat) :
    EadType → Checked Unit
  | .setUsername => do
    let _ ← load frame sizeofPacket 32
    return ()
  | .sendA => sendAIn frame len
  | .sendAuth => do
    let _ ← load frame sizeofPacket 20
    return ()
  | .sendCmd => sendCmdIn K s.crypt frame len size
  | _ => return ()

def needOf : EadType → Option Nat
  | .ping => some 0
  | .setUsername => some 32
  | .getPrime => some 0
  | .sendA => some 1
  | .sendAuth => some 20
  | .sendCmd => some (3 + sizeofEncrypted)
  | _ => none

/-- `parse_message` gets to the handler of this type. -/
def Dispatched (cfg : Config) (s : State) (pkt : Packet) (t : EadType) : Prop :=
  wellFramed cfg pkt ∧ eadType pkt.type = some t ∧ dispatches cfg s pkt t ∧
    ∃ need, needOf t = some need ∧ sizeofPacket + need ≤ pkt.hlen

def handlePacketIn (cfg : Config) (K : Cipher) (s : State) (frame : List U8) (size : Nat) :
    Checked Unit :=
  if frame.length < sizeofPacket then return ()
  else do
    let pkt ← readHeader frame
    if wellFramed cfg pkt then
      match eadType pkt.type with
      | none => return ()
      | some t =>
        if dispatches cfg s pkt t then
          match needOf t with
          | none => return ()
          | some need =>
            if pkt.hlen < sizeofPacket + need then return ()
            else handlerIn K s frame pkt.len size t
        else return ()
    else return ()

end Accesses

theorem handlerOf_need (cfg : Config) (K : Cipher) (o : Oracle) (s : State) (pkt : Packet)
    (t : EadType) : (handlerOf cfg K o s pkt t).map Prod.fst = needOf t := by
  cases t with
  | ping => rfl
  | pong => rfl
  | setUsername => rfl
  | ackUsername => rfl
  | getPrime => rfl
  | prime => rfl
  | sendA => rfl
  | sendB => rfl
  | sendAuth => rfl
  | doneAuth => rfl
  | sendCmd => rfl
  | resultCmd => rfl

section Header

variable {frame : List U8}

theorem readHeader_eq (h : sizeofPacket ≤ frame.length) :
    readHeader frame = .ok (frameFields frame) := by
  rw [sizeofPacket] at h
  unfold readHeader
  rw [bind_ok (load_ok (by omega)), bind_ok (load_ok (by omega)), bind_ok (loadByte_ok (by omega)),
    bind_ok (load_ok (by omega)), bind_ok (load_ok (by omega)), bind_ok (load_ok (by omega)),
    bind_ok (load_ok (by omega)), bind_ok (load_ok (by omega)), bind_ok (load_ok (by omega))]
  rfl

variable {cfg : Config} {K : Cipher} {s : State} {size : Nat}

theorem handlePacketIn_ends : Ends (handlePacketIn cfg K s frame size) ↔
    ∀ t, Dispatched cfg s (frameFields frame) t →
      Ends (handlerIn K s frame (frameFields frame).len size t) := by
  unfold handlePacketIn
  by_cases hshort : frame.length < sizeofPacket
  · rw [if_pos hshort]
    refine iff_of_true (ends_pure ()) ?_
    rintro t ⟨hframed, -⟩
    exact absurd hframed.1 (Nat.not_le.mpr hshort)
  · rw [if_neg hshort, bind_ok (readHeader_eq (Nat.not_lt.mp hshort))]
    by_cases hframed : wellFramed cfg (frameFields frame)
    · rw [if_pos hframed]
      cases htype : eadType (frameFields frame).type with
      | none =>
        refine iff_of_true (ends_pure ()) ?_
        rintro t ⟨-, ht, -⟩
        rw [htype] at ht
        cases ht
      | some k =>
        dsimp only
        by_cases hdispatch : dispatches cfg s (frameFields frame) k
        · rw [if_pos hdispatch]
          cases hneed : needOf k with
          | none =>
            refine iff_of_true (ends_pure ()) ?_
            rintro t ⟨-, ht, -, need, hn, -⟩
            rw [htype] at ht
            cases ht
            rw [hneed] at hn
            cases hn
          | some need =>
            dsimp only
            by_cases hlen : (frameFields frame).hlen < sizeofPacket + need
            · rw [if_pos hlen]
              refine iff_of_true (ends_pure ()) ?_
              rintro t ⟨-, ht, -, need', hn, hle⟩
              rw [htype] at ht
              cases ht
              rw [hneed] at hn
              cases hn
              exact absurd hlen (Nat.not_lt.mpr hle)
            · rw [if_neg hlen]
              constructor
              · rintro h t ⟨-, ht, -⟩
                rw [htype] at ht
                cases ht
                exact h
              · intro h
                exact h k ⟨hframed, htype, hdispatch, need, hneed, Nat.not_lt.mp hlen⟩
        · rw [if_neg hdispatch]
          refine iff_of_true (ends_pure ()) ?_
          rintro t ⟨-, ht, hd, -⟩
          rw [htype] at ht
          cases ht
          exact absurd hd hdispatch
    · rw [if_neg hframed]
      refine iff_of_true (ends_pure ()) ?_
      rintro t ⟨h, -⟩
      exact absurd h hframed

end Header

end OpenwrtMtk.Ead
