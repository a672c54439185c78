import Mathlib.Logic.Function.Iterate
import OpenwrtMtk.Lib.Bytes
import OpenwrtMtk.Lib.Memory

/-!
# Buffalo's firmware encryption

`encrypt_buf` and `decrypt_buf` of `buffalo-lib.c` with `unsigned long` of 64 bits. A pointer to
an array or a string is the memory from there on, a pointer into the firmware an address. `malloc`
succeeds. What is in the arrays and the buffer after a failure is left out.
-/

namespace OpenwrtMtk.FirmwareUtils

open Toolkit

set_option autoImplicit false

def encProductLen : Nat := 32

def encVersionLen : Nat := 8

def encMagicLen : Nat := 6

def bcryptDefaultStateLen : Nat := 256

def bcryptMaxKeylen : Nat := 254

/-- A function returns -1, or it accesses an array outside of its bounds. -/
inductive Stop where
  | failed | outside
  deriving DecidableEq

def inside {α : Type} : Option α → Except Stop α
  | some a => .ok a
  | none => .error .outside

/-- The length of the string in an array of `size` bytes. -/
def strlen (array : Memory) (size : Nat) : Option Nat :=
  (List.range size).find? fun k => array k = 0

/-- `i` and `j` are those of `bcrypt_process`; `state_len` is the length of `state`. -/
structure BcryptCtx where
  i : U8
  j : U8
  state : List U8

/-- The second loop of `bcrypt_init`, with `n` turns to go. -/
def mixState (key : List U8) : Nat → Nat → Nat → Nat → List U8 → Option (List U8)
  | 0, _, _, _, state => some state
  | n + 1, i, j, k, state => do
    let t ← state[i]?
    let p ← key[j]?
    let k := (k + p.toNat + t.toNat) % state.length
    let other ← state[k]?
    mixState key n (i + 1) ((j + 1) % key.length) k ((state.set i other).set k t)

def bcryptInit (key : List U8) (stateLen : Nat) : Option BcryptCtx := do
  let state ← mixState key stateLen 0 0 0 ((List.range stateLen).map (BitVec.ofNat 8))
  return ⟨0, 0, state⟩

/-- A turn of `bcrypt_process`: the byte the source is xored with. -/
def BcryptCtx.turn (ctx : BcryptCtx) : Option (U8 × BcryptCtx) := do
  let len := ctx.state.length
  let i := BitVec.ofNat 8 ((ctx.i.toNat + 1) % len)
  let si ← ctx.state[i.toNat]?
  let j := BitVec.ofNat 8 ((ctx.j.toNat + si.toNat) % len)
  let t ← ctx.state[j.toNat]?
  let state := (ctx.state.set j.toNat si).set i.toNat t
  let a ← state[i.toNat]?
  let b ← state[j.toNat]?
  let byte ← state[(a.toNat + b.toNat) % len]?
  return (byte, ⟨i, j, state⟩)

def bcryptProcess (ctx : BcryptCtx) (mem : Memory) (src dst len : Nat) : Option Memory :=
  xorStream BcryptCtx.turn len ctx src dst mem

def bcryptBuf (seed : U8) (key mem : Memory) (src dst len : Nat) (longstate : Bool) :
    Except Stop Memory := inside do
  let keylen ← strlen key (bcryptMaxKeylen + 1)
  let ctx ← bcryptInit (seed :: key.read 0 keylen)
    (if longstate then len else bcryptDefaultStateLen)
  bcryptProcess ctx mem src dst len

/-- A byte of `buffalo_csum`; `char` is signed. -/
def csumByte (csum : U32) (byte : U8) : U32 :=
  (fun c : U32 => (c >>> 1) ^^^ (if c &&& 1 = 1 then 0xedb88320 else 0))^[8]
    (csum ^^^ byte.signExtend 32)

def buffaloCsum (csum : U32) (buf : List U8) : U32 := buf.foldl csumByte csum

structure EncParam where
  key : Memory
  magic : Memory
  product : Memory
  version : Memory
  seed : U8
  longstate : Bool
  datalen : U32
  csum : U32

/-- `enc_compute_header_len` of strings of these lengths. -/
def encComputeHeaderLen (product version : Nat) : Nat :=
  encMagicLen + 1 + product + 1 + version + 1 + 3 * 4

def getBe32 (mem : Memory) (p : Nat) : U32 := mem p ++ mem (p + 1) ++ mem (p + 2) ++ mem (p + 3)

/-- `"start"` and `"asar1"`. -/
def checkMagic (mem : Memory) (p : Nat) : Bool :=
  mem.read p encMagicLen = [0x73, 0x74, 0x61, 0x72, 0x74, 0] ||
    mem.read p encMagicLen = [0x61, 0x73, 0x61, 0x72, 0x31, 0]

/-- A string goes to `p` behind its length and is encrypted there. Its first byte is the next
seed. -/
def EncParam.putField (ep : EncParam) (mem : Memory) (p : Nat) (s : U8) (field : List U8) :
    Except Stop (Memory × Nat × U8) := do
  let mem := mem.store p (be32 (BitVec.ofNat 32 field.length))
  let p := p + 4
  let mem := mem.store p field
  let mem ← bcryptBuf s ep.key mem p p field.length ep.longstate
  return (mem, p + field.length, mem p)

def encryptBuf (ep : EncParam) (mem : Memory) (hdr data : Nat) : Except Stop Memory := do
  let p := hdr
  let len ← inside (strlen ep.magic encMagicLen)
  let mem := mem.store p (ep.magic.read 0 (len + 1))
  let p := p + (len + 1)
  let mem := mem.store p [ep.seed]
  let p := p + 1
  let len ← inside (strlen ep.product encProductLen)
  let (mem, p, s) ← ep.putField mem p ep.seed (ep.product.read 0 (len + 1))
  let len ← inside (strlen ep.version encVersionLen)
  let (mem, p, s) ← ep.putField mem p s (ep.version.read 0 (len + 1))
  let mem := mem.store p (be32 ep.datalen)
  let mem ← bcryptBuf s ep.key mem data data ep.datalen.toNat ep.longstate
  return mem.store (data + ep.datalen.toNat) (be32 ep.csum)

/-- `CHECKLEN` and what `INCP` leaves of `remain`. -/
def checkLen (remain len : Nat) : Except Stop Nat :=
  if remain < len then .error .failed else .ok (remain - len)

/-- A string of at most `limit` bytes behind its length. -/
def takeField (mem : Memory) (p remain limit : Nat) : Except Stop (List U8 × Nat × Nat) := do
  let remain ← checkLen remain 4
  let len := (getBe32 mem p).toNat
  if limit < len then .error .failed
  else do
    let p := p + 4
    let remain ← checkLen remain len
    return (mem.read p len, p + len, remain)

/-- The first half of `decrypt_buf`: the header but for the check of the data's length. Also the
lengths of the two strings, `p` and `remain`. -/
def EncParam.readHeader (ep : EncParam) (mem : Memory) (data datalen : Nat) :
    Except Stop (EncParam × Nat × Nat × Nat × Nat) := do
  let p := data
  let remain ← checkLen datalen encMagicLen
  if !checkMagic mem p then .error .failed
  else do
    let ep := { ep with magic := ep.magic.store 0 (mem.read p encMagicLen) }
    let p := p + encMagicLen
    let remain ← checkLen remain 1
    let ep := { ep with seed := mem p }
    let p := p + 1
    let (product, p, remain) ← takeField mem p remain encProductLen
    let ep := { ep with product := ep.product.store 0 product }
    let (version, p, remain) ← takeField mem p remain encVersionLen
    let ep := { ep with version := ep.version.store 0 version }
    let remain ← checkLen remain 4
    let ep := { ep with datalen := getBe32 mem p }
    return (ep, product.length, version.length, p + 4, remain)

def decryptBuf (ep : EncParam) (mem : Memory) (data datalen : Nat) :
    Except Stop (EncParam × Memory) := do
  let (ep, prodLen, verLen, p, remain) ← ep.readHeader mem data datalen
  let len := ep.datalen.toNat
  let remain ← checkLen remain len
  let mem ← bcryptBuf (ep.version 0) ep.key mem p data len ep.longstate
  let p := p + len
  let _ ← checkLen remain 4
  let ep := { ep with csum := getBe32 mem p }
  if buffaloCsum ep.datalen (mem.read data len) ≠ ep.csum then .error .failed
  else do
    let version ← bcryptBuf (ep.product 0) ep.key ep.version 0 0 verLen ep.longstate
    let product ← bcryptBuf ep.seed ep.key ep.product 0 0 prodLen ep.longstate
    return ({ ep with version := version, product := product }, mem)

end OpenwrtMtk.FirmwareUtils

/-!
## What is encrypted can be decrypted

The bytes a block is xored with depend on its seed, the key and its length. `encrypt_buf` lays
out the header field by field, and `decrypt_buf` finds each field, with its seed, where the fields
before it end.
-/

namespace OpenwrtMtk.FirmwareUtils

open Toolkit

set_option autoImplicit false

section Cipher

variable {key mem : Memory} {size n i j k src dst len keylen : Nat} {seed : U8} {longstate : Bool}
  {bckey state mask : List U8}

theorem strlen_lt (h : strlen mem size = some n) : n < size :=
  List.mem_range.mp (List.mem_of_find?_eq_some h)

theorem mixState_total (hj : j < bckey.length) (hi : i + n = state.length) :
    ∃ state', mixState bckey n i j k state = some state' ∧ state'.length = state.length := by
  induction n generalizing i j k state with
  | zero => exact ⟨state, rfl, rfl⟩
  | succ n ih =>
    have hin : i < state.length := by omega
    have hk : (k + bckey[j].toNat + state[i].toNat) % state.length < state.length :=
      Nat.mod_lt _ (by omega)
    rw [mixState, List.getElem?_eq_getElem hin, List.getElem?_eq_getElem hj]
    dsimp only [bind, Option.bind]
    rw [List.getElem?_eq_getElem hk]
    dsimp only
    obtain ⟨state', hmix, hlen⟩ := @ih (i + 1) ((j + 1) % bckey.length) _
      ((state.set i state[(k + bckey[j].toNat + state[i].toNat) % state.length]).set
        ((k + bckey[j].toNat + state[i].toNat) % state.length) state[i])
      (Nat.mod_lt _ (by omega)) (by rw [List.length_set, List.length_set]; omega)
    exact ⟨state', hmix, by rw [hlen, List.length_set, List.length_set]⟩

theorem bcryptInit_total (hkey : bckey ≠ []) (len : Nat) :
    ∃ ctx, bcryptInit bckey len = some ctx ∧ ctx.state.length = len := by
  obtain ⟨state, hmix, hlen⟩ := @mixState_total len 0 0 0 bckey
    ((List.range len).map (BitVec.ofNat 8)) (List.length_pos_iff.mpr hkey)
    (by rw [List.length_map, List.length_range, Nat.zero_add])
  refine ⟨⟨0, 0, state⟩, by rw [bcryptInit, hmix]; rfl, ?_⟩
  rw [hlen, List.length_map, List.length_range]

theorem byte_lt (hn : 0 < n) (a : Nat) : (BitVec.ofNat 8 (a % n)).toNat < n := by
  rw [BitVec.toNat_ofNat]
  exact Nat.lt_of_le_of_lt (Nat.mod_le _ _) (Nat.mod_lt _ hn)

theorem BcryptCtx.turn_total {ctx : BcryptCtx} (h : 0 < ctx.state.length) :
    ∃ byte ctx', ctx.turn = some (byte, ctx') ∧ 0 < ctx'.state.length := by
  unfold BcryptCtx.turn
  dsimp only
  rw [List.getElem?_eq_getElem (byte_lt h _)]
  dsimp only [bind, Option.bind]
  rw [List.getElem?_eq_getElem (byte_lt h _)]
  dsimp only
  rw [List.getElem?_eq_getElem (by simpa using byte_lt h _),
    List.getElem?_eq_getElem (by simpa using byte_lt h _)]
  dsimp only
  rw [List.getElem?_eq_getElem (by simpa using Nat.mod_lt _ h)]
  exact ⟨_, _, rfl, by simpa using h⟩

/-- The bytes that `bcrypt_buf` xors with. -/
def bcryptStream (seed : U8) (key : Memory) (len : Nat) (longstate : Bool) :
    Option (List U8) := do
  let keylen ← strlen key (bcryptMaxKeylen + 1)
  let ctx ← bcryptInit (seed :: key.read 0 keylen)
    (if longstate then len else bcryptDefaultStateLen)
  stream BcryptCtx.turn len ctx

theorem bcryptStream_total (hkey : strlen key (bcryptMaxKeylen + 1) = some keylen) (seed : U8)
    (len : Nat) (longstate : Bool) :
    ∃ mask, bcryptStream seed key len longstate = some mask := by
  obtain ⟨ctx, hinit, hlen⟩ := bcryptInit_total (List.cons_ne_nil seed (key.read 0 keylen))
    (if longstate then len else bcryptDefaultStateLen)
  have hstream : ∃ mask, stream BcryptCtx.turn len ctx = some mask := by
    rcases Nat.eq_zero_or_pos len with rfl | hpos
    · exact ⟨[], rfl⟩
    · apply stream_total (fun ctx => 0 < ctx.state.length) fun ctx h => BcryptCtx.turn_total h
      rw [hlen]
      split
      · exact hpos
      · decide
  obtain ⟨mask, hmask⟩ := hstream
  refine ⟨mask, ?_⟩
  rw [bcryptStream, hkey]
  dsimp only [bind, Option.bind]
  rw [hinit]
  exact hmask

theorem length_bcryptStream (h : bcryptStream seed key len longstate = some mask) :
    mask.length = len := by
  obtain ⟨keylen, hkey, hrest⟩ := Option.bind_eq_some_iff.mp h
  obtain ⟨ctx, hinit, hstream⟩ := Option.bind_eq_some_iff.mp hrest
  exact length_stream hstream

theorem bcryptBuf_eq (h : bcryptStream seed key len longstate = some mask) (hle : dst ≤ src)
    (mem : Memory) : bcryptBuf seed key mem src dst len longstate =
      .ok (mem.store dst (xorBytes (mem.read src len) mask)) := by
  obtain ⟨keylen, hkey, hrest⟩ := Option.bind_eq_some_iff.mp h
  obtain ⟨ctx, hinit, hstream⟩ := Option.bind_eq_some_iff.mp hrest
  rw [bcryptBuf, hkey]
  dsimp only [bind, Option.bind]
  rw [hinit]
  dsimp only
  rw [bcryptProcess, xorStream_eq hstream hle]
  rfl

end Cipher

section Fields

variable {ep : EncParam} {mem : Memory} {hdr p n : Nat} {s c : U8} {w : U32}
  {front field cs mask bytes : List U8} {remain limit : Nat}

theorem getBe32_eq (h : mem.Holds p (be32 w)) : getBe32 mem p = w := by
  have hread : [mem p, mem (p + 1), mem (p + 2), mem (p + 3)] = be32 w := by
    rw [← h]
    rfl
  obtain ⟨h0, hread⟩ := List.cons.inj hread
  obtain ⟨h1, hread⟩ := List.cons.inj hread
  obtain ⟨h2, hread⟩ := List.cons.inj hread
  rw [getBe32, h0, h1, h2, (List.cons.inj hread).1]
  exact append_bytes32 w

theorem checkLen_eq (h : n ≤ remain) : checkLen remain n = .ok (remain - n) :=
  if_neg (Nat.not_lt.mpr h)

theorem putField_eq (hp : p = hdr + front.length)
    (hstream : bcryptStream s ep.key field.length ep.longstate = some mask)
    (hmask : xorBytes field mask = c :: cs) :
    ep.putField (mem.store hdr front) p s field =
      .ok (mem.store hdr (front ++ (be32 (BitVec.ofNat 32 field.length) ++ c :: cs)),
        p + 4 + field.length, c) := by
  have hlen : (c :: cs).length = field.length := by
    rw [← hmask, length_xorBytes (length_bcryptStream hstream)]
  have hbuf : ∀ mem : Memory, bcryptBuf s ep.key (mem.store (p + 4) field) (p + 4) (p + 4)
      field.length ep.longstate = .ok (mem.store (p + 4) (c :: cs)) := by
    intro mem
    rw [bcryptBuf_eq hstream (Nat.le_refl _), Memory.read_store_self, hmask,
      Memory.store_store hlen]
  unfold EncParam.putField
  dsimp only
  rw [hbuf, hp]
  dsimp only [bind, Except.bind]
  have hstore : ((mem.store hdr front).store (hdr + front.length)
      (be32 (BitVec.ofNat 32 field.length))).store (hdr + front.length + 4) (c :: cs) =
        mem.store hdr (front ++ (be32 (BitVec.ofNat 32 field.length) ++ c :: cs)) := by
    rw [Memory.store_append, Memory.store_append, length_be32]
  have hfirst : mem.store hdr (front ++ (be32 (BitVec.ofNat 32 field.length) ++ c :: cs))
      (hdr + front.length + 4) = c := by
    rw [← hstore]
    exact (Memory.holds_store _ _ _).head
  rw [hstore, hfirst]
  rfl

theorem takeField_eq (hlimit : bytes.length ≤ limit) (hsmall : bytes.length < 2 ^ 32)
    (hroom : 4 + bytes.length ≤ remain)
    (h : mem.Holds p (be32 (BitVec.ofNat 32 bytes.length) ++ bytes)) :
    takeField mem p remain limit =
      .ok (bytes, p + 4 + bytes.length, remain - 4 - bytes.length) := by
  obtain ⟨hword, hbytes⟩ := Memory.holds_append.mp h
  have hlen : (BitVec.ofNat 32 bytes.length).toNat = bytes.length := by
    rw [BitVec.toNat_ofNat]
    exact Nat.mod_eq_of_lt (by omega)
  rw [takeField, checkLen_eq (by omega)]
  dsimp only [bind, Except.bind]
  rw [getBe32_eq hword, hlen, if_neg (by omega), checkLen_eq (by omega)]
  dsimp only
  rw [← length_be32 (BitVec.ofNat 32 bytes.length), hbytes]
  rfl

end Fields

def EncParam.header (ep : EncParam) (product version : List U8) : List U8 :=
  ep.magic.read 0 encMagicLen ++ [ep.seed] ++ (be32 (BitVec.ofNat 32 product.length) ++ product) ++
    (be32 (BitVec.ofNat 32 version.length) ++ version) ++ be32 ep.datalen

section RoundTrip

variable {ep ep' : EncParam} {mem : Memory} {hdr np nv total : Nat} {c d : U8}
  {cs ds product version data plain : List U8}

theorem strlen_magic (h : checkMagic mem 0 = true) : strlen mem encMagicLen = some 5 := by
  have hread : mem.read 0 encMagicLen = [mem 0, mem 1, mem 2, mem 3, mem 4, mem 5] := rfl
  rw [checkMagic, hread, Bool.or_eq_true, decide_eq_true_iff, decide_eq_true_iff] at h
  simp only [List.cons.injEq] at h
  change [0, 1, 2, 3, 4, 5].find? (fun k => decide (mem k = 0)) = some 5
  rcases h with ⟨h0, h1, h2, h3, h4, h5, -⟩ | ⟨h0, h1, h2, h3, h4, h5, -⟩
  · simp [h0, h1, h2, h3, h4, h5]
  · simp [h0, h1, h2, h3, h4, h5]

theorem encryptBuf_eq {mask mask' mask'' : List U8} (hmagic : strlen ep.magic encMagicLen = some 5)
    (hproduct : strlen ep.product encProductLen = some np)
    (hversion : strlen ep.version encVersionLen = some nv)
    (hfirst : bcryptStream ep.seed ep.key (np + 1) ep.longstate = some mask)
    (hc : xorBytes (ep.product.read 0 (np + 1)) mask = c :: cs)
    (hsecond : bcryptStream c ep.key (nv + 1) ep.longstate = some mask')
    (hd : xorBytes (ep.version.read 0 (nv + 1)) mask' = d :: ds)
    (hthird : bcryptStream d ep.key ep.datalen.toNat ep.longstate = some mask'') :
    encryptBuf ep mem hdr (hdr + encComputeHeaderLen np nv) =
      .ok (mem.store hdr (ep.header (c :: cs) (d :: ds) ++
        (xorBytes (mem.read (hdr + encComputeHeaderLen np nv) ep.datalen.toNat) mask'' ++
          be32 ep.csum))) := by
  have hcs : (c :: cs).length = np + 1 := by
    rw [← hc, length_xorBytes (by rw [length_bcryptStream hfirst, Memory.length_read]),
      Memory.length_read]
  have hds : (d :: ds).length = nv + 1 := by
    rw [← hd, length_xorBytes (by rw [length_bcryptStream hsecond, Memory.length_read]),
      Memory.length_read]
  have hstart : (mem.store hdr (ep.magic.read 0 6)).store (hdr + 6) [ep.seed] =
      mem.store hdr (ep.magic.read 0 6 ++ [ep.seed]) := by
    rw [Memory.store_append, Memory.length_read]
  have hput := @putField_eq ep mem hdr (hdr + 7) ep.seed c
    (ep.magic.read 0 6 ++ [ep.seed]) (ep.product.read 0 (np + 1)) cs mask
    (by rw [List.length_append, Memory.length_read]; rfl)
    (by rw [Memory.length_read]; exact hfirst) hc
  have hput' := @putField_eq ep mem hdr (hdr + 7 + 4 + (np + 1)) c d
    (ep.magic.read 0 6 ++ [ep.seed] ++ (be32 (BitVec.ofNat 32 (np + 1)) ++ c :: cs))
    (ep.version.read 0 (nv + 1)) ds mask'
    (by simp only [List.length_append, Memory.length_read, length_be32, hcs,
      List.length_singleton]; omega)
    (by rw [Memory.length_read]; exact hsecond) hd
  rw [Memory.length_read] at hput hput'
  rw [encryptBuf, hmagic]
  dsimp only [bind, Except.bind, inside]
  rw [hproduct]
  dsimp only
  rw [hstart, hput]
  dsimp only
  rw [hversion]
  dsimp only
  rw [hput']
  dsimp only
  have hhead : ep.header (c :: cs) (d :: ds) = ep.magic.read 0 6 ++ [ep.seed] ++
      (be32 (BitVec.ofNat 32 (np + 1)) ++ c :: cs) ++
        (be32 (BitVec.ofNat 32 (nv + 1)) ++ d :: ds) ++ be32 ep.datalen := by
    rw [EncParam.header, hcs, hds]
    rfl
  have hlen : (ep.header (c :: cs) (d :: ds)).length = encComputeHeaderLen np nv := by
    rw [hhead]
    simp only [List.length_append, Memory.length_read, length_be32, hcs, hds,
      List.length_singleton, encComputeHeaderLen, encMagicLen]
    omega
  have hlaid : (mem.store hdr (ep.magic.read 0 6 ++ [ep.seed] ++
      (be32 (BitVec.ofNat 32 (np + 1)) ++ c :: cs) ++
        (be32 (BitVec.ofNat 32 (nv + 1)) ++ d :: ds))).store
          (hdr + 7 + 4 + (np + 1) + 4 + (nv + 1)) (be32 ep.datalen) =
      mem.store hdr (ep.header (c :: cs) (d :: ds)) := by
    rw [hhead, Memory.store_append _ _ _ (be32 ep.datalen)]
    congr 1
    simp only [List.length_append, Memory.length_read, length_be32, hcs, hds,
      List.length_singleton]
    omega
  rw [hlaid, bcryptBuf_eq hthird (Nat.le_refl _)]
  dsimp only
  have hdata : (mem.store hdr (ep.header (c :: cs) (d :: ds))).read
      (hdr + encComputeHeaderLen np nv) ep.datalen.toNat =
        mem.read (hdr + encComputeHeaderLen np nv) ep.datalen.toNat :=
    Memory.read_congr fun a ha _ => Memory.store_out (Or.inr (by rw [hlen]; exact ha))
  have hcipher : (xorBytes (mem.read (hdr + encComputeHeaderLen np nv) ep.datalen.toNat)
      mask'').length = ep.datalen.toNat := by
    rw [length_xorBytes (by rw [length_bcryptStream hthird, Memory.length_read]),
      Memory.length_read]
  rw [hdata, Memory.store_append _ hdr, hlen, Memory.store_append, hcipher]
  rfl

theorem readHeader_eq (hmagic : checkMagic ep.magic 0 = true)
    (hproduct : product.length = np + 1) (hnp : np + 1 ≤ 32)
    (hversion : version.length = nv + 1) (hnv : nv + 1 ≤ 8)
    (hholds : mem.Holds hdr (ep.header product version))
    (htotal : encComputeHeaderLen np nv ≤ total) :
    ep'.readHeader mem hdr total = .ok
      ({ ep' with
          magic := ep'.magic.store 0 (ep.magic.read 0 encMagicLen)
          seed := ep.seed
          product := ep'.product.store 0 product
          version := ep'.version.store 0 version
          datalen := ep.datalen },
        np + 1, nv + 1, hdr + encComputeHeaderLen np nv, total - encComputeHeaderLen np nv) := by
  obtain ⟨hhead, hdatalen⟩ := Memory.holds_append.mp hholds
  obtain ⟨hhead, hverField⟩ := Memory.holds_append.mp hhead
  obtain ⟨hhead, hprodField⟩ := Memory.holds_append.mp hhead
  obtain ⟨hmagics, hseed⟩ := Memory.holds_append.mp hhead
  simp only [List.length_append, Memory.length_read, length_be32, hproduct, hversion,
    List.length_singleton] at hdatalen hverField hprodField hseed
  have hread : mem.read hdr encMagicLen = ep.magic.read 0 encMagicLen := hmagics
  have hchecked : checkMagic mem hdr = true := by
    rw [checkMagic, hread]
    exact hmagic
  have hprodField' : mem.Holds (hdr + encMagicLen + 1)
      (be32 (BitVec.ofNat 32 product.length) ++ product) := hproduct ▸ hprodField
  have hverField' : mem.Holds (hdr + encMagicLen + 1 + 4 + product.length)
      (be32 (BitVec.ofNat 32 version.length) ++ version) := by
    rw [hversion]
    exact hverField.moved (by omega)
  have hdatalen' := hdatalen.moved
    (by omega : hdr + encMagicLen + 1 + 4 + product.length + 4 + version.length = _)
  have hend : hdr + encMagicLen + 1 + 4 + product.length + 4 + version.length + 4 =
      hdr + encComputeHeaderLen np nv := by
    unfold encComputeHeaderLen
    omega
  have hrest : total - encMagicLen - 1 - 4 - product.length - 4 - version.length - 4 =
      total - encComputeHeaderLen np nv := by
    unfold encComputeHeaderLen
    omega
  unfold encComputeHeaderLen at htotal
  rw [EncParam.readHeader, checkLen_eq (by omega)]
  dsimp only [bind, Except.bind]
  rw [hchecked, checkLen_eq (by omega)]
  dsimp only
  rw [if_neg (by decide), takeField_eq (by unfold encProductLen; omega) (by omega) (by omega)
    hprodField']
  dsimp only
  rw [takeField_eq (by unfold encVersionLen; omega) (by omega) (by omega) hverField']
  dsimp only
  rw [checkLen_eq (by omega), getBe32_eq hdatalen', hend, hrest, hproduct, hversion, hread,
    hseed.head]
  rfl

theorem length_header (hproduct : product.length = np + 1) (hversion : version.length = nv + 1) :
    (ep.header product version).length = encComputeHeaderLen np nv := by
  simp only [EncParam.header, List.length_append, Memory.length_read, length_be32, hproduct,
    hversion, List.length_singleton, encComputeHeaderLen]
  omega

theorem decryptBuf_eq {mask mask' mask'' : List U8} (hkey : ep'.key = ep.key)
    (hlong : ep'.longstate = ep.longstate) (hmagic : checkMagic ep.magic 0 = true)
    (hcs : (c :: cs).length = np + 1) (hnp : np + 1 ≤ 32)
    (hds : (d :: ds).length = nv + 1) (hnv : nv + 1 ≤ 8)
    (hfirst : bcryptStream ep.seed ep.key (np + 1) ep.longstate = some mask)
    (hsecond : bcryptStream c ep.key (nv + 1) ep.longstate = some mask')
    (hthird : bcryptStream d ep.key ep.datalen.toNat ep.longstate = some mask'')
    (hplain : plain.length = ep.datalen.toNat) (hsum : ep.csum = buffaloCsum ep.datalen plain)
    (hholds : mem.Holds hdr (ep.header (c :: cs) (d :: ds) ++
      (xorBytes plain mask'' ++ be32 ep.csum)))
    (htotal : encComputeHeaderLen np nv + ep.datalen.toNat + 4 ≤ total) :
    decryptBuf ep' mem hdr total = .ok
      ({ ep' with
          magic := ep'.magic.store 0 (ep.magic.read 0 encMagicLen)
          seed := ep.seed
          product := (ep'.product.store 0 (c :: cs)).store 0 (xorBytes (c :: cs) mask)
          version := (ep'.version.store 0 (d :: ds)).store 0 (xorBytes (d :: ds) mask')
          datalen := ep.datalen
          csum := ep.csum },
        mem.store hdr plain) := by
  obtain ⟨hhead, htail⟩ := Memory.holds_append.mp hholds
  obtain ⟨hcipher, hcsum⟩ := Memory.holds_append.mp htail
  rw [length_header hcs hds] at hcipher hcsum
  have hmask : mask''.length = plain.length := by rw [length_bcryptStream hthird, hplain]
  have hcipherLen : (xorBytes plain mask'').length = ep.datalen.toNat := by
    rw [length_xorBytes hmask, hplain]
  rw [hcipherLen] at hcsum
  have hdata : bcryptBuf d ep.key mem (hdr + encComputeHeaderLen np nv) hdr ep.datalen.toNat
      ep.longstate = .ok (mem.store hdr plain) := by
    have hread : mem.read (hdr + encComputeHeaderLen np nv) ep.datalen.toNat =
        xorBytes plain mask'' := by
      rw [← hcipherLen]
      exact hcipher
    rw [bcryptBuf_eq hthird (Nat.le_add_right _ _), hread, xorBytes_xorBytes hmask]
  have hread : (mem.store hdr plain).read hdr ep.datalen.toNat = plain := by
    rw [← hplain]
    exact Memory.read_store_self _ _ _
  -- the data are moved to the front, below the checksum
  have hsumWord : (mem.store hdr plain).Holds
      (hdr + encComputeHeaderLen np nv + ep.datalen.toNat) (be32 ep.csum) :=
    hcsum.congr fun a ha _ => Memory.store_out (Or.inr (by rw [hplain]; omega))
  have hprodSeed : ep'.product.store 0 (c :: cs) 0 = c := (Memory.holds_store _ _ _).head
  have hverSeed : ep'.version.store 0 (d :: ds) 0 = d := (Memory.holds_store _ _ _).head
  have hverBuf := bcryptBuf_eq hsecond (Nat.le_refl 0) (ep'.version.store 0 (d :: ds))
  have hprodBuf := bcryptBuf_eq hfirst (Nat.le_refl 0) (ep'.product.store 0 (c :: cs))
  rw [← hds, Memory.read_store_self, hds] at hverBuf
  rw [← hcs, Memory.read_store_self, hcs] at hprodBuf
  rw [decryptBuf, readHeader_eq hmagic hcs hnp hds hnv hhead (by omega)]
  dsimp only [bind, Except.bind]
  rw [checkLen_eq (by omega)]
  dsimp only
  rw [hverSeed, hkey, hlong, hdata]
  dsimp only
  rw [checkLen_eq (by omega), getBe32_eq hsumWord, hread]
  dsimp only
  rw [if_neg (fun hne => hne hsum.symm), hprodSeed, hverBuf]
  dsimp only
  rw [hprodBuf]
  rfl

theorem exists_encrypted {seed : U8} {key : Memory} {longstate : Bool} {keylen n : Nat}
    (hkeylen : strlen key (bcryptMaxKeylen + 1) = some keylen) (field : Memory) :
    ∃ mask c cs, bcryptStream seed key (n + 1) longstate = some mask ∧
      xorBytes (field.read 0 (n + 1)) mask = c :: cs ∧ (c :: cs).length = n + 1 ∧
      xorBytes (c :: cs) mask = field.read 0 (n + 1) := by
  obtain ⟨mask, hstream⟩ := bcryptStream_total hkeylen seed (n + 1) longstate
  have hmask : mask.length = (field.read 0 (n + 1)).length := by
    rw [length_bcryptStream hstream, Memory.length_read]
  have hlen : (xorBytes (field.read 0 (n + 1)) mask).length = n + 1 := by
    rw [length_xorBytes hmask, Memory.length_read]
  obtain ⟨c, cs, hc⟩ := List.exists_cons_of_length_pos (by omega :
    0 < (xorBytes (field.read 0 (n + 1)) mask).length)
  exact ⟨mask, c, cs, hstream, hc, hc ▸ hlen, hc ▸ xorBytes_xorBytes hmask⟩

/-- The arrays of `ep` hold a magic and strings that fit, the key has at most 254 bytes, and
`ep'` is any other parameter block with the same key and `longstate`. -/
theorem decryptBuf_encryptBuf {keylen : Nat} (hmagic : checkMagic ep.magic 0 = true)
    (hproduct : strlen ep.product encProductLen = some np)
    (hversion : strlen ep.version encVersionLen = some nv)
    (hkeylen : strlen ep.key (bcryptMaxKeylen + 1) = some keylen)
    (hsum : ep.csum = buffaloCsum ep.datalen
      (mem.read (hdr + encComputeHeaderLen np nv) ep.datalen.toNat))
    (hkey : ep'.key = ep.key) (hlong : ep'.longstate = ep.longstate)
    (htotal : encComputeHeaderLen np nv + ep.datalen.toNat + 4 ≤ total) :
    ∃ out, encryptBuf ep mem hdr (hdr + encComputeHeaderLen np nv) = .ok out ∧
      ∃ dec buf, decryptBuf ep' out hdr total = .ok (dec, buf) ∧
        dec.magic.read 0 encMagicLen = ep.magic.read 0 encMagicLen ∧ dec.seed = ep.seed ∧
        dec.product.read 0 (np + 1) = ep.product.read 0 (np + 1) ∧
        dec.version.read 0 (nv + 1) = ep.version.read 0 (nv + 1) ∧ dec.datalen = ep.datalen ∧
        buf.read hdr ep.datalen.toNat =
          mem.read (hdr + encComputeHeaderLen np nv) ep.datalen.toNat := by
  obtain ⟨mask, c, cs, hfirst, hc, hcs, hprodBack⟩ :=
    @exists_encrypted ep.seed ep.key ep.longstate keylen np hkeylen ep.product
  obtain ⟨mask', d, ds, hsecond, hd, hds, hverBack⟩ :=
    @exists_encrypted c ep.key ep.longstate keylen nv hkeylen ep.version
  obtain ⟨mask'', hthird⟩ := bcryptStream_total hkeylen d ep.datalen.toNat ep.longstate
  have hnp : np + 1 ≤ 32 := strlen_lt hproduct
  have hnv : nv + 1 ≤ 8 := strlen_lt hversion
  refine ⟨_, encryptBuf_eq (strlen_magic hmagic) hproduct hversion hfirst hc hsecond hd hthird,
    _, _, decryptBuf_eq hkey hlong hmagic hcs hnp hds hnv hfirst hsecond hthird
      (Memory.length_read _ _ _) hsum (Memory.holds_store _ _ _) htotal, ?_⟩
  dsimp only
  rw [hprodBack, hverBack]
  refine ⟨?_, rfl, ?_, ?_, rfl, ?_⟩
  · have hback := Memory.read_store_self ep'.magic 0 (ep.magic.read 0 encMagicLen)
    rwa [Memory.length_read] at hback
  · have hback := Memory.read_store_self (ep'.product.store 0 (c :: cs)) 0
      (ep.product.read 0 (np + 1))
    rwa [Memory.length_read] at hback
  · have hback := Memory.read_store_self (ep'.version.store 0 (d :: ds)) 0
      (ep.version.read 0 (nv + 1))
    rwa [Memory.length_read] at hback
  · generalize hplain : mem.read (hdr + encComputeHeaderLen np nv) ep.datalen.toNat = plain
    have hlen : plain.length = ep.datalen.toNat := by rw [← hplain, Memory.length_read]
    rw [← hlen]
    exact Memory.read_store_self _ _ _

end RoundTrip

/-- Two bytes of data for the product `P` of version `V`, with the key `k`. -/
def startParam : EncParam where
  key a := [0x6b].getD a 0
  magic a := [0x73, 0x74, 0x61, 0x72, 0x74].getD a 0
  product a := [0x50].getD a 0
  version a := [0x56].getD a 0
  seed := 0x4f
  longstate := true
  datalen := 2
  csum := buffaloCsum 2 [7, 7]

theorem startParam_back : ∃ out dec buf,
    encryptBuf startParam (fun _ => 7) 0 (0 + encComputeHeaderLen 1 1) = .ok out ∧
      decryptBuf { startParam with magic := fun _ => 1, seed := 0 } out 0 32 = .ok (dec, buf) ∧
        dec.seed = 0x4f ∧ buf.read 0 2 = [7, 7] := by
  obtain ⟨out, henc, dec, buf, hdec, -, hseed, -, -, -, hdata⟩ :=
    @decryptBuf_encryptBuf startParam { startParam with magic := fun _ => 1, seed := 0 }
      (fun _ => 7) 0 1 1 32 1 (by decide) (by decide) (by decide) (by decide +kernel) (by decide)
      rfl rfl (by decide)
  exact ⟨out, dec, buf, henc, hdec, hseed, hdata⟩

end OpenwrtMtk.FirmwareUtils
