import OpenwrtMtk.Dot1x.Radius

/-!
# RADIUS messages at addresses

`radius.c` with the pointers it keeps: the header and the attributes of a message are known by
their addresses in a buffer, and the buffer moves when it grows. `Lays` compares such a message
with one whose attributes are known by their offsets, and every function keeps it.
-/

namespace OpenwrtMtk.Dot1x.Raw

open Toolkit

set_option autoImplicit false

/-- What the allocator answers; `attrs` is asked for a number of attribute pointers. A buffer lies
in the lower half of the address space, which is the user's. -/
structure Heap where
  msg : Bool
  malloc : Nat → Option U32
  realloc : U32 → Nat → Option U32
  attrs : Nat → Bool
  malloc_user : ∀ {n p}, malloc n = some p → p.toNat + n ≤ 2 ^ 31
  realloc_user : ∀ {p n q}, realloc p n = some q → q.toNat + n ≤ 2 ^ 31

/-- Allocations succeed, up to the size that a message of 65535 bytes grows to. -/
structure Heap.Ample (heap : Heap) : Prop where
  msg : heap.msg = true
  malloc : ∀ n, n ≤ 2 ^ 17 → (heap.malloc n).isSome
  realloc : ∀ p n, n ≤ 2 ^ 17 → (heap.realloc p n).isSome
  attrs : ∀ n, heap.attrs n = true

/-- `struct radius_msg`; `mem` is what `buf` points to. -/
structure RadiusMsg where
  buf : U32
  mem : List U8
  bufSize : Nat
  hdr : U32
  bufUsed : Nat
  attrs : List U32
  attrSize : Nat
  deriving DecidableEq

namespace RadiusMsg

variable (msg : RadiusMsg)

def byte (p : U32) : U8 := msg.mem.getD (p - msg.buf).toNat 0

def read (p : U32) (n : Nat) : List U8 := slice msg.mem (p - msg.buf).toNat n

def write (p : U32) (bytes : List U8) : RadiusMsg :=
  { msg with mem := overwrite msg.mem (p - msg.buf).toNat bytes }

def bytes : List U8 := msg.mem.take msg.bufUsed

def attrLength (attr : U32) : Nat := (msg.byte (attr + 1)).toNat

def attrValue (attr : U32) : List U8 :=
  msg.read (attr + BitVec.ofNat 32 sizeofRadiusAttrHdr)
    (msg.attrLength attr - sizeofRadiusAttrHdr)

def contents : List (U8 × List U8) :=
  msg.attrs.map fun attr => (msg.byte attr, msg.attrValue attr)

end RadiusMsg

section Building

variable (heap : Heap)

def radiusMsgInitialize (initLen : Nat) : Option RadiusMsg :=
  if initLen < sizeofRadiusHdr then none
  else
    (heap.malloc initLen).bind fun buf =>
      if heap.attrs radiusDefaultAttrCount then
        some ⟨buf, List.replicate initLen 0, initLen, buf, sizeofRadiusHdr, [],
          radiusDefaultAttrCount⟩
      else none

def radiusMsgSetHdr (msg : RadiusMsg) (code identifier : U8) : RadiusMsg :=
  msg.write msg.hdr [code, identifier]

def radiusMsgNew (code identifier : U8) : Option RadiusMsg :=
  if heap.msg then
    (radiusMsgInitialize heap radiusDefaultMsgSize).map fun msg =>
      radiusMsgSetHdr msg code identifier
  else none

/-- A caller fills `hdr->authenticator`. -/
def setAuthenticator (msg : RadiusMsg) (auth : List U8) : RadiusMsg := msg.write (msg.hdr + 4) auth

def radiusMsgAddAttrToArray (msg : RadiusMsg) (attr : U32) : Option RadiusMsg :=
  if msg.attrSize ≤ msg.attrs.length then
    if heap.attrs (msg.attrSize * 2) then
      some { msg with attrs := msg.attrs ++ [attr], attrSize := msg.attrSize * 2 }
    else none
  else some { msg with attrs := msg.attrs ++ [attr] }

def growBuf (msg : RadiusMsg) (needed : Nat) : Option RadiusMsg :=
  if msg.bufSize < needed then
    let nlen := doubleUpTo needed needed msg.bufSize
    (heap.realloc msg.buf nlen).map fun nbuf =>
      let diff := nbuf - msg.buf
      { msg with
        buf := nbuf
        mem := msg.mem ++ List.replicate (nlen - msg.bufSize) 0
        bufSize := nlen
        hdr := nbuf
        attrs := msg.attrs.map (· + diff) }
  else some msg

def radiusMsgAddAttr (msg : RadiusMsg) (type : U8) (data : List U8) : Option (U32 × RadiusMsg) :=
  if radiusMaxAttrLen < data.length then none
  else
    (growBuf heap msg (msg.bufUsed + sizeofRadiusAttrHdr + data.length)).bind fun msg =>
      let attr := msg.buf + BitVec.ofNat 32 msg.bufUsed
      let filled := (msg.write attr
        [type, BitVec.ofNat 8 (sizeofRadiusAttrHdr + data.length)]).write
          (attr + BitVec.ofNat 32 sizeofRadiusAttrHdr) data
      (radiusMsgAddAttrToArray heap
        { filled with bufUsed := msg.bufUsed + sizeofRadiusAttrHdr + data.length } attr).map
          fun msg => (attr, msg)

def addEapFrom : Nat → RadiusMsg → List U8 → Option RadiusMsg
  | 0, msg, _ => some msg
  | n + 1, msg, data =>
    if data = [] then some msg
    else
      (radiusMsgAddAttr heap msg radiusAttrEapMessage (data.take radiusMaxAttrLen)).bind
        fun added => addEapFrom n added.2 (data.drop radiusMaxAttrLen)

def radiusMsgAddEap (msg : RadiusMsg) (data : List U8) : Option RadiusMsg :=
  addEapFrom heap data.length msg data

/-- Without a secret only the length is filled in; `none` where it writes through the null pointer
of a failed `Radius_msg_add_attr`. -/
def radiusMsgFinish (H : Digest) (msg : RadiusMsg) : Option (List U8) → Option RadiusMsg
  | some secret =>
    (radiusMsgAddAttr heap msg radiusAttrMessageAuthenticator (List.replicate md5MacLen 0)).map
      fun added =>
        let msg := added.2.write (added.2.hdr + 2) (htons added.2.bufUsed)
        msg.write (added.1 + BitVec.ofNat 32 sizeofRadiusAttrHdr)
          (H.hmacMd5 secret (msg.read msg.buf msg.bufUsed))
  | none => some (msg.write (msg.hdr + 2) (htons msg.bufUsed))

/-- The loop of `Radius_msg_parse`, from the address `pos` on. -/
def parseAttrs (stop : U32) : Nat → RadiusMsg → U32 → Option RadiusMsg
  | 0, msg, _ => some msg
  | n + 1, msg, pos =>
    if pos < stop then
      if (stop - pos).toNat < sizeofRadiusAttrHdr then none
      else if stop < pos + BitVec.ofNat 32 (msg.attrLength pos) ∨
          msg.attrLength pos < sizeofRadiusAttrHdr then none
      else
        (radiusMsgAddAttrToArray heap msg pos).bind fun msg =>
          parseAttrs stop n msg (pos + BitVec.ofNat 32 (msg.attrLength pos))
    else some msg

def radiusMsgParse (data : List U8) : Option RadiusMsg :=
  if data.length < sizeofRadiusHdr then none
  else
    let msgLen := ntohs data 2
    if msgLen < sizeofRadiusHdr ∨ data.length < msgLen then none
    else if heap.msg then
      (radiusMsgInitialize heap msgLen).bind fun msg =>
        let msg := { msg.write msg.buf (data.take msgLen) with
          bufSize := msgLen, bufUsed := msgLen }
        parseAttrs heap (msg.buf + BitVec.ofNat 32 msg.bufUsed) msgLen msg
          (msg.hdr + BitVec.ofNat 32 sizeofRadiusHdr)
    else none

def radiusMsgGetEap (msg : RadiusMsg) : Option (List U8) :=
  let eap := (msg.attrs.filter fun attr => msg.byte attr = radiusAttrEapMessage).flatMap
    msg.attrValue
  if eap = [] then none
  else (heap.malloc eap.length).map fun _ => eap

end Building

/-! ## Addresses and offsets -/

/-- The addresses of `p` are the offsets of `m`, and all of them are in the buffer. -/
structure Lays (p : RadiusMsg) (m : Dot1x.RadiusMsg) : Prop where
  buf : m.buf = p.bytes
  size : p.mem.length = p.bufSize
  bufSize : m.bufSize = p.bufSize
  used : p.bufUsed ≤ p.bufSize
  hdr : p.hdr = p.buf
  attrs : p.attrs = m.attrs.map fun off => p.buf + BitVec.ofNat 32 off
  attrSize : m.attrSize = p.attrSize
  inside : ∀ off ∈ m.attrs, off + sizeofRadiusAttrHdr ≤ p.bufUsed
  user : p.buf.toNat + p.bufSize ≤ 2 ^ 31

variable {heap : Heap} {p : RadiusMsg} {m : Dot1x.RadiusMsg} {off n : Nat} {bytes : List U8}

theorem ample_msg : Memory.ample.msg = true := rfl

theorem ample_buf (n : Nat) : Memory.ample.buf n = true := rfl

theorem ample_attrs (n : Nat) : Memory.ample.attrs n = true := rfl

theorem ample_addAttrToArray (m : Dot1x.RadiusMsg) (attr : Nat) :
    ∃ m', Dot1x.radiusMsgAddAttrToArray .ample m attr = some m' := by
  unfold Dot1x.radiusMsgAddAttrToArray
  split
  · exact ⟨_, if_pos (ample_attrs _)⟩
  · exact ⟨_, rfl⟩

theorem Lays.length (h : Lays p m) : m.buf.length = p.bufUsed := by
  rw [h.buf, RadiusMsg.bytes, List.length_take, h.size]
  exact Nat.min_eq_left h.used

theorem Lays.offset (h : Lays p m) (hoff : off ≤ p.bufUsed) :
    (p.buf + BitVec.ofNat 32 off - p.buf).toNat = off := by
  have := h.used
  have := h.user
  bv_omega

theorem getD_take {xs : List U8} (h : off < n) : (xs.take n).getD off 0 = xs.getD off 0 := by
  rw [List.getD_eq_getElem?_getD, List.getElem?_take_of_lt h, List.getD_eq_getElem?_getD]

theorem slice_take {xs : List U8} {k : Nat} (h : off + k ≤ n) :
    slice (xs.take n) off k = slice xs off k := by
  apply slice_eq_of_getElem?
  intro j hj
  exact List.getElem?_take_of_lt (by omega)

theorem Lays.byte (h : Lays p m) (hoff : off < p.bufUsed) :
    p.byte (p.buf + BitVec.ofNat 32 off) = m.buf.getD off 0 := by
  rw [RadiusMsg.byte, h.offset (Nat.le_of_lt hoff), h.buf, RadiusMsg.bytes, getD_take hoff]

theorem Lays.read (h : Lays p m) (hoff : off + n ≤ p.bufUsed) :
    p.read (p.buf + BitVec.ofNat 32 off) n = slice m.buf off n := by
  rw [RadiusMsg.read, h.offset (by omega), h.buf, RadiusMsg.bytes, slice_take hoff]

theorem add_ofNat (b : U32) (i j : Nat) :
    b + BitVec.ofNat 32 i + BitVec.ofNat 32 j = b + BitVec.ofNat 32 (i + j) := by
  bv_omega

theorem Lays.attrLength (h : Lays p m) (hoff : off + 1 < p.bufUsed) :
    p.attrLength (p.buf + BitVec.ofNat 32 off) = m.attrLength off := by
  rw [RadiusMsg.attrLength, Dot1x.RadiusMsg.attrLength, ← h.byte hoff]
  exact congrArg (fun a => (p.byte a).toNat) (add_ofNat p.buf off 1)

theorem Lays.attrValue (h : Lays p m) (hoff : off + 1 < p.bufUsed)
    (hlen : off + m.attrLength off ≤ p.bufUsed) :
    p.attrValue (p.buf + BitVec.ofNat 32 off) = m.attrValue off := by
  unfold RadiusMsg.attrValue Dot1x.RadiusMsg.attrValue sizeofRadiusAttrHdr
  rw [h.attrLength hoff, add_ofNat]
  by_cases hshort : 2 ≤ m.attrLength off
  · exact h.read (by omega)
  · rw [show m.attrLength off - 2 = 0 by omega]
    simp [RadiusMsg.read, slice]

theorem take_overwrite {xs : List U8} (h : off + bytes.length ≤ n) (hn : n ≤ xs.length) :
    (overwrite xs off bytes).take n = overwrite (xs.take n) off bytes := by
  apply List.ext_getElem?
  intro k
  have hin : off + bytes.length ≤ (xs.take n).length := by
    rw [List.length_take]
    omega
  rw [List.getElem?_take, getElem?_overwrite (by omega), getElem?_overwrite hin,
    List.getElem?_take]
  split <;> split <;> first | rfl | omega

theorem take_overwrite_last {xs : List U8} (h : off ≤ xs.length) :
    (overwrite xs off bytes).take (off + bytes.length) = xs.take off ++ bytes := by
  have hlen : (xs.take off ++ bytes).length = off + bytes.length := by
    rw [List.length_append, List.length_take, Nat.min_eq_left h]
  rw [overwrite, ← hlen, List.take_left]

theorem Lays.write (h : Lays p m) (hin : off + bytes.length ≤ p.bufUsed) :
    Lays (p.write (p.buf + BitVec.ofNat 32 off) bytes)
      { m with buf := overwrite m.buf off bytes } where
  buf := by
    have hsize := h.size
    have hused := h.used
    rw [RadiusMsg.bytes, RadiusMsg.write, h.offset (by omega)]
    dsimp only
    rw [take_overwrite hin (by omega), h.buf, RadiusMsg.bytes]
  size := by
    have hsize := h.size
    have hused := h.used
    rw [RadiusMsg.write, h.offset (by omega)]
    dsimp only
    rw [length_overwrite (by omega), h.size]
  bufSize := h.bufSize
  used := h.used
  hdr := h.hdr
  attrs := h.attrs
  attrSize := h.attrSize
  inside := h.inside
  user := h.user

/-! ## Building -/

theorem initialize_some (ha : heap.Ample) (hn : n ≤ 2 ^ 17) (hmin : sizeofRadiusHdr ≤ n) :
    ∃ buf : U32, buf.toNat + n ≤ 2 ^ 31 ∧ radiusMsgInitialize heap n =
      some ⟨buf, List.replicate n 0, n, buf, sizeofRadiusHdr, [], radiusDefaultAttrCount⟩ := by
  obtain ⟨buf, hbuf⟩ := Option.isSome_iff_exists.mp (ha.malloc n hn)
  refine ⟨buf, heap.malloc_user hbuf, ?_⟩
  rw [radiusMsgInitialize, if_neg (by omega), hbuf, Option.bind_some, if_pos (ha.attrs _)]

theorem ample_initialize (hmin : sizeofRadiusHdr ≤ n) : Dot1x.radiusMsgInitialize .ample n =
    some ⟨List.replicate sizeofRadiusHdr 0, n, [], radiusDefaultAttrCount⟩ := by
  rw [Dot1x.radiusMsgInitialize, if_neg (by omega)]
  rfl

theorem new_lays (ha : heap.Ample) (code id : U8) :
    ∃ p m, radiusMsgNew heap code id = some p ∧ Dot1x.radiusMsgNew .ample code id = some m ∧
      Lays p m ∧ p.bufUsed = sizeofRadiusHdr ∧ p.bufSize = radiusDefaultMsgSize := by
  have hmin : sizeofRadiusHdr ≤ radiusDefaultMsgSize := by decide
  obtain ⟨buf, huser, hp⟩ := initialize_some ha (by decide) hmin
  have hlays : Lays ⟨buf, List.replicate radiusDefaultMsgSize 0, radiusDefaultMsgSize, buf,
      sizeofRadiusHdr, [], radiusDefaultAttrCount⟩
      ⟨List.replicate sizeofRadiusHdr 0, radiusDefaultMsgSize, [], radiusDefaultAttrCount⟩ := by
    refine ⟨?_, List.length_replicate, rfl, hmin, rfl, rfl, rfl, ?_, huser⟩
    · rw [RadiusMsg.bytes, List.take_replicate, Nat.min_eq_left hmin]
    · intro off hoff
      cases hoff
  have hin : 0 + [code, id].length ≤ sizeofRadiusHdr := by
    unfold sizeofRadiusHdr
    exact Nat.le_add_left 2 18
  have hw := hlays.write hin
  rw [BitVec.add_zero] at hw
  refine ⟨_, _, ?_, ?_, hw, rfl, rfl⟩
  · rw [radiusMsgNew, if_pos ha.msg, hp, Option.map_some, radiusMsgSetHdr]
  · rw [Dot1x.radiusMsgNew, if_pos ample_msg, ample_initialize hmin, Option.map_some,
      Dot1x.radiusMsgSetHdr]

theorem setAuthenticator_lays {auth : List U8} (h : Lays p m) (hlen : 4 + auth.length ≤ p.bufUsed) :
    Lays (setAuthenticator p auth) { m with buf := overwrite m.buf 4 auth } := by
  unfold setAuthenticator
  rw [h.hdr]
  exact h.write hlen

theorem addAttrToArray_lays (ha : heap.Ample) (h : Lays p m)
    (hin : off + sizeofRadiusAttrHdr ≤ p.bufUsed) :
    ∃ p' m', radiusMsgAddAttrToArray heap p (p.buf + BitVec.ofNat 32 off) = some p' ∧
      Dot1x.radiusMsgAddAttrToArray .ample m off = some m' ∧ Lays p' m' ∧
      p'.buf = p.buf ∧ p'.bufSize = p.bufSize ∧ p'.hdr = p.hdr ∧ p'.mem = p.mem ∧
      p'.bufUsed = p.bufUsed := by
  have hcount : m.attrs.length = p.attrs.length := by
    rw [h.attrs, List.length_map]
  have hattrs : p.attrs ++ [p.buf + BitVec.ofNat 32 off] =
      (m.attrs ++ [off]).map fun off => p.buf + BitVec.ofNat 32 off := by
    rw [h.attrs, List.map_append, List.map_singleton]
  have hinside : ∀ i ∈ m.attrs ++ [off], i + sizeofRadiusAttrHdr ≤ p.bufUsed := by
    intro i hi
    rcases List.mem_append.mp hi with hi | hi
    · exact h.inside i hi
    · rw [List.mem_singleton.mp hi]
      exact hin
  have hfull' : m.attrSize ≤ m.attrs.length ↔ p.attrSize ≤ p.attrs.length := by
    rw [hcount, h.attrSize]
  by_cases hfull : p.attrSize ≤ p.attrs.length
  · refine ⟨{ p with
        attrs := p.attrs ++ [p.buf + BitVec.ofNat 32 off]
        attrSize := p.attrSize * 2 },
      { m with attrs := m.attrs ++ [off], attrSize := m.attrSize * 2 }, ?_, ?_, ?_,
      rfl, rfl, rfl, rfl, rfl⟩
    · rw [radiusMsgAddAttrToArray, if_pos hfull, if_pos (ha.attrs _)]
    · rw [Dot1x.radiusMsgAddAttrToArray, if_pos (hfull'.mpr hfull), if_pos (ample_attrs _)]
    · exact ⟨h.buf, h.size, h.bufSize, h.used, h.hdr, hattrs, by rw [h.attrSize], hinside, h.user⟩
  · refine ⟨{ p with attrs := p.attrs ++ [p.buf + BitVec.ofNat 32 off] },
      { m with attrs := m.attrs ++ [off] }, ?_, ?_, ?_, rfl, rfl, rfl, rfl, rfl⟩
    · rw [radiusMsgAddAttrToArray, if_neg hfull]
    · rw [Dot1x.radiusMsgAddAttrToArray, if_neg (fun hc => hfull (hfull'.mp hc))]
    · exact ⟨h.buf, h.size, h.bufSize, h.used, h.hdr, hattrs, h.attrSize, hinside, h.user⟩

theorem doubleUpTo_spec {needed nlen : Nat} (hpow : needed ≤ nlen * 2 ^ n)
    (hmax : nlen ≤ 2 * needed) :
    needed ≤ doubleUpTo needed n nlen ∧ nlen ≤ doubleUpTo needed n nlen ∧
      doubleUpTo needed n nlen ≤ 2 * needed := by
  induction n generalizing nlen with
  | zero =>
    rw [pow_zero, Nat.mul_one] at hpow
    exact ⟨hpow, Nat.le_refl _, hmax⟩
  | succ n ih =>
    rw [doubleUpTo]
    split
    · have hpow' : needed ≤ nlen * 2 * 2 ^ n := by
        rw [Nat.mul_assoc, ← Nat.pow_succ']
        exact hpow
      have := ih hpow' (by omega)
      omega
    · exact ⟨by omega, Nat.le_refl _, hmax⟩

theorem growBuf_lays {needed : Nat} (ha : heap.Ample) (h : Lays p m) (hpos : 0 < p.bufSize)
    (hmax : needed ≤ 65535) :
    ∃ p' m', growBuf heap p needed = some p' ∧ Dot1x.growBuf .ample m needed = some m' ∧
      Lays p' m' ∧ p'.bufUsed = p.bufUsed ∧ needed ≤ p'.bufSize := by
  by_cases hgrow : p.bufSize < needed
  · have hpow : needed ≤ p.bufSize * 2 ^ needed :=
      Nat.le_trans (Nat.le_of_lt Nat.lt_two_pow_self) (Nat.le_mul_of_pos_left _ hpos)
    obtain ⟨hneeded, hmore, hlarge⟩ := doubleUpTo_spec hpow (by omega)
    obtain ⟨nbuf, hnbuf⟩ := Option.isSome_iff_exists.mp
      (ha.realloc p.buf (doubleUpTo needed needed p.bufSize) (by omega))
    have hused := h.used
    have hsize := h.bufSize
    refine ⟨{ p with
        buf := nbuf
        mem := p.mem ++ List.replicate (doubleUpTo needed needed p.bufSize - p.bufSize) 0
        bufSize := doubleUpTo needed needed p.bufSize
        hdr := nbuf
        attrs := p.attrs.map (· + (nbuf - p.buf)) },
      { m with bufSize := doubleUpTo needed needed m.bufSize }, ?_, ?_, ?_, rfl, hneeded⟩
    · rw [growBuf, if_pos hgrow]
      dsimp only
      rw [hnbuf, Option.map_some]
    · rw [Dot1x.growBuf, if_pos (by omega)]
      dsimp only
      rw [if_pos (ample_buf _)]
    refine ⟨?_, ?_, ?_, Nat.le_trans h.used hmore, rfl, ?_, h.attrSize, h.inside,
      heap.realloc_user hnbuf⟩
    · rw [h.buf, RadiusMsg.bytes, RadiusMsg.bytes,
        List.take_append_of_le_length (by rw [h.size]; exact h.used)]
    · dsimp only
      rw [List.length_append, List.length_replicate, h.size]
      omega
    · dsimp only
      rw [h.bufSize]
    · dsimp only
      rw [h.attrs, List.map_map]
      apply List.map_congr_left
      intro off _
      dsimp only [Function.comp_apply]
      bv_omega
  · exact ⟨p, m, by rw [growBuf, if_neg hgrow],
      by rw [Dot1x.growBuf, if_neg (by rw [h.bufSize]; exact hgrow)], h, rfl, by omega⟩

theorem Lays.append (h : Lays p m) (first second : List U8)
    (hroom : p.bufUsed + first.length + second.length ≤ p.bufSize) :
    Lays { (p.write (p.buf + BitVec.ofNat 32 p.bufUsed) first).write
          (p.buf + BitVec.ofNat 32 p.bufUsed + BitVec.ofNat 32 first.length) second with
        bufUsed := p.bufUsed + first.length + second.length }
      { m with buf := m.buf ++ (first ++ second) } := by
  have hsize := h.size
  have huser := h.user
  have hfirst : (p.buf + BitVec.ofNat 32 p.bufUsed - p.buf).toNat = p.bufUsed :=
    h.offset (Nat.le_refl _)
  have hsecond : (p.buf + BitVec.ofNat 32 p.bufUsed + BitVec.ofNat 32 first.length - p.buf).toNat =
      p.bufUsed + first.length := by
    bv_omega
  have hmem : overwrite (overwrite p.mem p.bufUsed first) (p.bufUsed + first.length) second =
      overwrite p.mem p.bufUsed (first ++ second) :=
    overwrite_append first second (by omega)
  unfold RadiusMsg.write
  dsimp only
  rw [hfirst, hsecond, hmem]
  refine ⟨?_, ?_, h.bufSize, hroom, h.hdr, h.attrs, h.attrSize, ?_, h.user⟩
  · dsimp only
    rw [RadiusMsg.bytes]
    dsimp only
    rw [Nat.add_assoc, ← List.length_append, take_overwrite_last (by omega), h.buf,
      RadiusMsg.bytes]
  · dsimp only
    rw [length_overwrite (by rw [List.length_append]; omega), h.size]
  · intro off hoff
    have := h.inside off hoff
    dsimp only
    omega

theorem addAttr_lays {type : U8} {data : List U8} (ha : heap.Ample) (h : Lays p m)
    (hpos : 0 < p.bufSize) (hdata : data.length ≤ radiusMaxAttrLen)
    (hmax : p.bufUsed + sizeofRadiusAttrHdr + data.length ≤ 65535) :
    ∃ attr p' m', radiusMsgAddAttr heap p type data = some (attr, p') ∧
      Dot1x.radiusMsgAddAttr .ample m type data = some m' ∧ Lays p' m' ∧ 0 < p'.bufSize ∧
      attr = p'.buf + BitVec.ofNat 32 p.bufUsed := by
  obtain ⟨grown, grown', hgrow, hgrow', hlays, hsame, hroom⟩ := growBuf_lays ha h hpos hmax
  rw [← hsame] at hroom
  have hfilled := hlays.append [type, BitVec.ofNat 8 (sizeofRadiusAttrHdr + data.length)] data hroom
  obtain ⟨p', m', hp', hm', hlays', hbuf, hsize, _, _, _⟩ :=
    addAttrToArray_lays ha hfilled (Nat.le_add_right (grown.bufUsed + sizeofRadiusAttrHdr) _)
  refine ⟨grown.buf + BitVec.ofNat 32 grown.bufUsed, p', m', ?_, ?_, hlays', ?_, ?_⟩
  · rw [radiusMsgAddAttr, if_neg (by omega), hgrow, Option.bind_some]
    exact Option.map_eq_some_iff.mpr ⟨p', hp', rfl⟩
  · rw [Dot1x.radiusMsgAddAttr, if_neg (by omega), h.length, hgrow', Option.bind_some,
      hlays.length]
    exact hm'
  · have hgrown : 0 < grown.bufSize := by
      unfold sizeofRadiusAttrHdr at hroom
      omega
    rw [hsize]
    exact hgrown
  · rw [hbuf, hsame]
    rfl

/-! ## Parsing -/

theorem parseAttrs_lays (ha : heap.Ample) (h : Lays p m) (hoff : off ≤ p.bufUsed) :
    Option.Rel Lays
      (parseAttrs heap (p.buf + BitVec.ofNat 32 p.bufUsed) n p (p.buf + BitVec.ofNat 32 off))
      (Dot1x.parseAttrs .ample n m off) := by
  induction n generalizing p m off with
  | zero => exact .some h
  | succ n ih =>
    have hused := h.used
    have huser := h.user
    rw [parseAttrs, Dot1x.parseAttrs, h.length]
    have hbefore : p.buf + BitVec.ofNat 32 off < p.buf + BitVec.ofNat 32 p.bufUsed ↔
        off < p.bufUsed := by
      bv_omega
    have hleft : (p.buf + BitVec.ofNat 32 p.bufUsed - (p.buf + BitVec.ofNat 32 off)).toNat =
        p.bufUsed - off := by
      bv_omega
    rw [hleft]
    by_cases hend : off < p.bufUsed
    · rw [if_pos (hbefore.mpr hend), if_pos hend]
      by_cases hhdr : p.bufUsed - off < sizeofRadiusAttrHdr
      · rw [if_pos hhdr, if_pos hhdr]
        exact .none
      · rw [if_neg hhdr, if_neg hhdr]
        unfold sizeofRadiusAttrHdr at hhdr
        have hlen : p.attrLength (p.buf + BitVec.ofNat 32 off) = m.attrLength off :=
          h.attrLength (by omega)
        have hbyte : m.attrLength off < 256 := (m.buf.getD (off + 1) 0).isLt
        have hover : p.buf + BitVec.ofNat 32 p.bufUsed <
            p.buf + BitVec.ofNat 32 off + BitVec.ofNat 32 (m.attrLength off) ↔
              p.bufUsed < off + m.attrLength off := by
          bv_omega
        simp only [hlen, hover]
        by_cases hbad : p.bufUsed < off + m.attrLength off ∨ m.attrLength off < sizeofRadiusAttrHdr
        · rw [if_pos hbad, if_pos hbad]
          exact .none
        · rw [if_neg hbad, if_neg hbad]
          have hin : off + sizeofRadiusAttrHdr ≤ p.bufUsed := by
            unfold sizeofRadiusAttrHdr
            omega
          obtain ⟨p', m', hp', hm', hlays', hbuf, _, _, _, hused'⟩ := addAttrToArray_lays ha h hin
          rw [hp', hm', Option.bind_some, Option.bind_some, ← hbuf, ← hused',
            hlays'.attrLength (by omega), add_ofNat]
          have hsame : m'.attrLength off = m.attrLength off :=
            congrArg (fun buf : List U8 => (buf.getD (off + 1) 0).toNat) (addAttrToArray_buf hm')
          exact ih hlays' (by omega)
    · rw [if_neg (fun hc => hend (hbefore.mp hc)), if_neg hend]
      exact .some h

theorem parse_lays (ha : heap.Ample) (data : List U8) :
    Option.Rel Lays (radiusMsgParse heap data) (Dot1x.radiusMsgParse .ample data) := by
  unfold radiusMsgParse Dot1x.radiusMsgParse
  split
  · exact .none
  · dsimp only
    split
    · exact .none
    · rename_i hlen
      have hmin : sizeofRadiusHdr ≤ ntohs data 2 := by omega
      have hmax : ntohs data 2 ≤ 2 ^ 17 := by
        have hhigh := (data.getD 2 0).isLt
        have hlow := (data.getD (2 + 1) 0).isLt
        unfold ntohs
        omega
      obtain ⟨buf, huser, hp⟩ := initialize_some ha hmax hmin
      rw [if_pos ha.msg, if_pos ample_msg, hp, ample_initialize hmin, Option.bind_some,
        Option.bind_some]
      have htake : (data.take (ntohs data 2)).length = ntohs data 2 := by
        rw [List.length_take]
        omega
      have hmem : overwrite (List.replicate (ntohs data 2) 0) (buf - buf).toNat
          (data.take (ntohs data 2)) = data.take (ntohs data 2) := by
        rw [BitVec.sub_self, overwrite]
        simp [htake]
      have hfilled : Lays
          ⟨buf, data.take (ntohs data 2), ntohs data 2, buf, ntohs data 2, [],
            radiusDefaultAttrCount⟩
          ⟨data.take (ntohs data 2), ntohs data 2, [], radiusDefaultAttrCount⟩ := by
        refine ⟨?_, htake, rfl, Nat.le_refl _, rfl, rfl, rfl, ?_, huser⟩
        · rw [RadiusMsg.bytes, List.take_take, Nat.min_self]
        · intro off hoff
          cases hoff
      dsimp only [RadiusMsg.write]
      rw [hmem]
      exact parseAttrs_lays ha hfilled hmin

end OpenwrtMtk.Dot1x.Raw
