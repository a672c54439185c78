import OpenwrtMtk.Lib.Memory
import OpenwrtMtk.Nvram.Crc32

/-!
# The trx image builder

`trx.c` on a 64 bit host with little-endian words. An option brings what the program reads for
it: a file, a number, memory from `realloc`. Messages are left out; so are failures of `malloc`
and of writing to the output file.
-/

namespace OpenwrtMtk.FirmwareUtils

open Toolkit
open Nvram (le32 crcByte)

set_option autoImplicit false

/-- `TRX_MAX_LEN`. -/
def trxMaxLen : Nat := 0x720000

/-- `TRX_MAGIC`. -/
def trxMagic : U32 := 0x30524448

def store32 (mem : Memory) (off : Nat) (w : U32) : Memory := mem.store off (le32 w)

def load32 (mem : Memory) (off : Nat) : U32 :=
  mem (off + 3) ++ mem (off + 2) ++ mem (off + 1) ++ mem off

/-- The local variables of `main`. -/
structure Builder where
  buf : Memory
  maxlen : Nat
  curLen : U32
  fsmark : U32
  /-- `i`, the next of `offsets`. -/
  index : Nat
  version2 : Bool
  /-- `in` is not NULL. -/
  opened : Bool

/-- The program fails, or it accesses memory outside of `buf`. -/
inductive End where
  | failed | outside
  deriving DecidableEq

/-- `-f`, `-A` and `-F`. -/
inductive FileKind where
  | partition | append | mark
  deriving DecidableEq

/-- An option. A number is `none` when it is illegal, a file when it cannot be opened. -/
inductive Opt where
  | v2
  | file (kind : FileKind) (contents : Option (List U8))
  | output (opens : Bool)
  | maxlen (arg : Option (BitVec 64)) (memory : Option Memory)
  | align (arg : Option (BitVec 64))
  | absolute (arg : Option (BitVec 64))
  | relative (arg : Option (BitVec 64))
  | unknown

namespace Builder

variable (b : Builder)

/-- A store of `n` bytes at `off`. -/
def put (off n : Nat) (f : Nat → U8) : Except End Builder :=
  if n = 0 ∨ off + n ≤ b.maxlen then .ok { b with buf := b.buf.put off n f } else .error .outside

def store (off : Nat) (bytes : List U8) : Except End Builder :=
  b.put off bytes.length fun k => bytes.getD k 0

/-- `memset`. -/
def memset (off : Nat) (c : U8) (n : Nat) : Except End Builder := b.put off n fun _ => c

/-- `cur_len += n`. -/
def advance (n : BitVec 64) : Builder :=
  { b with curLen := (b.curLen.setWidth 64 + n).setWidth 32 }

/-- Zeros from `cur_len` on. -/
def padTo (n : BitVec 64) : Except End Builder := do
  let b ← b.memset b.curLen.toNat 0 n.toNat
  return b.advance n

/-- `fread` up to the end of the file, and zeros up to a multiple of 4. -/
def readFile (bytes : List U8) : Except End Builder :=
  let count := (BitVec.ofNat 64 b.maxlen - b.curLen.setWidth 64).toNat
  -- `!feof(in)`
  if count ≤ bytes.length then .error .failed
  else do
    let n := bytes.length
    let b' ← b.store b.curLen.toNat bytes
    let round := if n &&& 3 = 0 then 0 else 4 - (n &&& 3)
    let b' ← b'.memset (b.curLen.toNat + n) 0 round
    return { b'.advance (BitVec.ofNat 64 (n + round)) with opened := true }

def addFile (kind : FileKind) (contents : Option (List U8)) : Except End Builder := do
  let b := if kind = .mark then { b with fsmark := b.curLen } else b
  let b ← (if kind = .partition then do
      let b ← b.store (16 + 4 * b.index) (le32 b.curLen)
      return { b with index := b.index + 1 }
    else return b)
  match contents with
  | none => .error .failed
  | some bytes => b.readFile bytes

/-- The new `maxlen`, a multiple of 0x1000. -/
def roundedLen (n : BitVec 64) : BitVec 64 :=
  if n &&& 0xfff = 0 then n else n + (0x1000 - (n &&& 0xfff))

/-- What `realloc` brings is only seen behind the old end. -/
def setMaxlen (n : BitVec 64) (memory : Option Memory) : Except End Builder :=
  if (roundedLen n).toNat < 0x1000 then .error .failed
  else
    match memory with
    | none => .error .failed
    | some memory => .ok { b with
        maxlen := (roundedLen n).toNat
        buf := fun a => if a < b.maxlen then b.buf a else memory a }

def step : Opt → Except End Builder
  | .v2 => .ok (if b.curLen = 28 then { b with version2 := true, curLen := b.curLen + 4 } else b)
  | .file kind contents => b.addFile kind contents
  | .output opens => if opens then .ok b else .error .failed
  | .maxlen none _ => .error .failed
  | .maxlen (some n) memory => b.setMaxlen n memory
  | .align none => .error .failed
  | .align (some n) =>
    if b.curLen.setWidth 64 &&& (n - 1) = 0 then .ok b
    else b.padTo (n - (b.curLen.setWidth 64 &&& (n - 1)))
  | .absolute none => .error .failed
  | .absolute (some n) =>
    if n < b.curLen.setWidth 64 then .ok b else b.padTo (n - b.curLen.setWidth 64)
  | .relative none => .error .failed
  | .relative (some n) =>
    if n.slt 0 then
      .ok (if (b.curLen.setWidth 64).slt (-n) then { b with curLen := 0 } else b.advance n)
    else b.padTo n
  | .unknown => .error .failed

def padPage : Except End Builder :=
  let n := b.curLen &&& 0xfff
  if n = 0 then .ok b else b.padTo ((0x1000 - n).setWidth 64)

def covered : U32 := if b.fsmark = 0 then b.curLen else b.fsmark

/-- `crc32buf` from `flag_version` on. -/
def checksum : Except End U32 :=
  if b.covered.toNat < 12 ∨ b.maxlen < b.covered.toNat then .error .outside
  else .ok ((b.buf.read 12 (b.covered.toNat - 12)).foldl crcByte 0xffffffff)

def stamp : Except End Builder := do
  let crc ← b.checksum
  let b' ← b.store 8 (le32 crc)
  b'.store 4 (le32 b.covered)

/-- With the flags of the bin-header set while the checksum is taken. -/
def stampV2 : Except End Builder := do
  let off := (load32 b.buf 28)
  if b.curLen - off < 32 then .error .failed
  else if b.maxlen < off.toNat + 32 then .error .outside
  else do
    let binheader := b.buf.read off.toNat 32
    let b' ← b.memset (off.toNat + 22) 0xff 8
    let b' ← b'.stamp
    b'.store off.toNat binheader

def write : Except End (List U8) :=
  if b.curLen = 0 then .error .failed
  else if b.maxlen < b.curLen.toNat then .error .outside
  else .ok (b.buf.read 0 b.curLen.toNat)

def finish : Except End (List U8) := do
  let b ← b.store 12 (le32 (if b.version2 then 0x20000 else 0x10000))
  if !b.opened then .error .failed
  else do
    let b ← b.padPage
    let b ← (if b.version2 then b.stampV2 else b.stamp)
    b.write

/-- What the option loop starts with; `memory` is what `malloc` returns. -/
def init (memory : Memory) : Builder where
  buf := store32 memory 0 trxMagic
  maxlen := trxMaxLen
  curLen := 28
  fsmark := 0
  index := 0
  version2 := false
  opened := false

end Builder

end OpenwrtMtk.FirmwareUtils
