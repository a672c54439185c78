import OpenwrtMtk.Mtd.Write
import OpenwrtMtk.Nvram.Crc32

/-!
# Generating JFFS2 data

`jffs2.c` on a little-endian machine. Nodes are put into a buffer of one erase block, which is
written when it is full. What writes outside of the buffer, overflows an inode or version number, or
does not end has no result, and neither has a run that exits.
-/

namespace OpenwrtMtk.Mtd

open Toolkit Nvram

set_option autoImplicit false

section Bytes

def le16 (w : U16) : List U8 := [w.setWidth 8, (w >>> 8).setWidth 8]

/-- A `uint16_t` in a buffer. -/
def u16At (buf : List U8) (ofs : Nat) : Option U16 :=
  match buf.drop ofs with
  | a :: b :: _ => some (b ++ a)
  | _ => none

/-- A `uint32_t` in a buffer. -/
def u32At (buf : List U8) (ofs : Nat) : Option U32 :=
  match buf.drop ofs with
  | a :: b :: c :: d :: _ => some (d ++ c ++ b ++ a)
  | _ => none

/-- `crc32`, with the table of `crc32.c`. -/
def crc32 (val : U32) (ss : List U8) : U32 := ss.foldl crcByte val

/-- `CLEANMARKER`. -/
def cleanMarker : List U8 :=
  [0x85, 0x19, 0x03, 0x20, 0x0c, 0x00, 0x00, 0x00, 0xb1, 0xb0, 0x1e, 0xe4]

/-- `JFFS2_EOF`. -/
def jffs2Eof : List U8 := [0xde, 0xad, 0xc0, 0xde]

/-- The file to be added: what `stat` says, and the pieces that reads return. -/
structure File where
  name : List U8
  mode : U32
  size : U32
  atime : U32
  mtime : U32
  ctime : U32
  pieces : List (List U8)

def nodeHeader (nodetype : U16) (totlen : U32) : List U8 :=
  let hdr := le16 0x1985 ++ le16 nodetype ++ le32 totlen
  hdr ++ le32 (crc32 0 hdr)

/-- `struct jffs2_raw_dirent` and the name. -/
def rawDirent (pino version ino : U32) (type : U8) (name : List U8) : List U8 :=
  let de := nodeHeader 0xe001 (BitVec.ofNat 32 (40 + name.length)) ++ le32 pino ++ le32 version ++
    le32 ino ++ le32 0 ++ [BitVec.ofNat 8 name.length, type, 0, 0]
  de ++ le32 (crc32 0 de) ++ le32 (crc32 0 name) ++ name

/-- `struct jffs2_raw_inode` and the data. -/
structure RawInode where
  ino : U32
  version : U32
  mode : U32
  isize : U32
  atime : U32
  mtime : U32
  ctime : U32
  offset : U32

def RawInode.encode (ri : RawInode) (data : List U8) : List U8 :=
  let len := BitVec.ofNat 32 data.length
  let raw := nodeHeader 0xe002 (68 + len) ++ le32 ri.ino ++ le32 ri.version ++ le32 ri.mode ++
    le16 0 ++ le16 0 ++ le32 ri.isize ++ le32 ri.atime ++ le32 ri.mtime ++ le32 ri.ctime ++
    le32 ri.offset ++ le32 len ++ le32 len ++ [0, 0] ++ le16 0
  raw ++ le32 (crc32 0 data) ++ le32 (crc32 0 raw)

end Bytes

/-- The static variables of `jffs2.c`, the device behind `outfd`, and the blocks that have been
handed to `write`. -/
structure Jffs2 where
  lastIno : U32
  lastVersion : U32
  buf : List U8
  ofs : Nat
  mtdofs : Nat
  mem : FlashMemory
  pos : Nat
  out : List (List U8)

section Buffer

variable (dev : Device)

/-- An increment of an `int`. -/
def increment (x : U32) : Option U32 := if x = 0x7fffffff then none else some (x + 1)

/-- An `int` as an operand of an unsigned comparison. -/
def asSize (x : Int) : Nat := (x % 2 ^ 32).toNat

/-- `memcpy(buf + ofs, data, len)`; `memset` is the same with constant data. -/
def putBytes (s : Jffs2) (data : List U8) : Option Jffs2 :=
  if s.ofs + data.length ≤ s.buf.length then
    some { s with
      buf := overwrite s.buf s.ofs data
      ofs := s.ofs + data.length }
  else none

/-- The loop over bad blocks. It leaves the device after its blocks. -/
def skipBadBlocks : Nat → Jffs2 → Option Jffs2
  | 0, _ => none
  | turns + 1, s => do
    if (← dev.blockIsBad s.mtdofs) && decide (s.mtdofs < dev.mtdsize) then
      skipBadBlocks turns { s with
        mtdofs := s.mtdofs + dev.erasesize
        pos := dev.lseek s.pos (s.pos + dev.erasesize) }
    else some s

/-- What `pad` does at the end of the buffer. The results of erasing and writing are ignored. -/
def flush (s : Jffs2) : Option Jffs2 := do
  let s ← skipBadBlocks dev (dev.count + 1) s
  let mem := (dev.eraseBlock s.mem s.mtdofs).getD s.mem
  let (mem, result) := (dev.write mem s.pos s.buf).getD (mem, 0)
  return { s with
    mem, pos := s.pos + result, out := s.out ++ [s.buf], mtdofs := s.mtdofs + dev.erasesize }

def pad (size : Nat) (s : Jffs2) : Option Jffs2 :=
  if s.ofs % size = 0 ∧ s.ofs < dev.erasesize then some s
  else do
    let s ← (if s.ofs < dev.erasesize then
      putBytes s (List.replicate (size - s.ofs % size) 0xff) else some s)
    let s := { s with ofs := s.ofs % dev.erasesize }
    if s.ofs = 0 then flush dev s else some s

def rbytes (s : Jffs2) : Nat := dev.erasesize - s.ofs % dev.erasesize

/-- With a buffer smaller than the marker, `prep_eraseblock` and `add_data` call each other
forever. -/
def prepEraseblock (s : Jffs2) : Option Jffs2 :=
  if 0 < s.ofs then some s
  else if dev.erasesize < cleanMarker.length then none
  else putBytes s cleanMarker

def addData (s : Jffs2) (data : List U8) : Option Jffs2 := do
  let s ← (if dev.erasesize < s.ofs + data.length then do
      let s ← pad dev dev.erasesize s
      prepEraseblock dev s
    else some s)
  putBytes s data

end Buffer

section Nodes

variable (dev : Device)

/-- `add_dirent`, with the inode number that it returns. -/
def addDirent (s : Jffs2) (name : List U8) (type : U8) (parent : U32) : Option (Jffs2 × U32) := do
  let s ← (if asSize ((s.ofs : Int) - dev.erasesize) < 40 + name.length then
    pad dev dev.erasesize s else some s)
  let s ← prepEraseblock dev s
  let ino ← increment s.lastIno
  let lastIno ← increment ino
  let lastVersion ← increment s.lastVersion
  let de := rawDirent parent s.lastVersion ino type name
  let filled ← putBytes { s with lastIno, lastVersion } de
  -- the offset moves on by the length that is stored in one byte
  let s ← pad dev 4 { filled with ofs := s.ofs + 40 + name.length % 256 }
  return (s, ino)

/-- The inner loop of `add_file`: a block with room for more than 128 bytes, and that room. -/
def findRoom : Nat → Jffs2 → Option (Jffs2 × Nat)
  | 0, _ => none
  | turns + 1, s =>
    if 128 + 68 < rbytes dev s then some (s, rbytes dev s - 68)
    else do
      let s ← pad dev dev.erasesize s
      let s ← prepEraseblock dev s
      findRoom turns s

/-- The loop of `add_file`. Each turn but the last takes a byte of the file; the second search for
room finds it, or none does. -/
def addFileLoop (ri : RawInode) :
    Nat → Jffs2 → Nat → List (List U8) → Option Jffs2
  | 0, _, _, _ => none
  | turns + 1, s, fOffset, pieces => do
    let (s, len) ← findRoom dev 2 s
    let (data, pieces) := readImage (min len 4096) pieces
    if data = [] then some s
    else do
      let lastVersion ← increment s.lastVersion
      let node := { ri with version := lastVersion, offset := BitVec.ofNat 32 fOffset }
      let s ← addData dev { s with lastVersion } (node.encode data)
      let s ← addData dev s data
      let s ← pad dev 4 s
      let s ← prepEraseblock dev s
      addFileLoop ri turns s (fOffset + data.length) pieces

/-- `strrchr(name, '/')`. -/
def baseName (name : List U8) : List U8 := (name.reverse.takeWhile (· ≠ 0x2f)).reverse

def addFile (s : Jffs2) (file : File) (parent : U32) : Option Jffs2 := do
  let (s, inode) ← addDirent dev s (baseName file.name) 8 parent
  addFileLoop dev ⟨inode, 0, file.mode, file.size, file.atime, file.mtime, file.ctime, 0⟩
    (file.pieces.flatten.length + 1) s 0 file.pieces

end Nodes

section Parsing

/-- What `mtd_parse_jffs2data` finds. -/
structure Found where
  lastIno : U32
  lastVersion : U32
  targetIno : U32

/-- `!strncmp(name, dir, n)` for a name in a buffer. -/
def sameStart : Nat → List U8 → List U8 → Option Bool
  | 0, _, _ => some true
  | _ + 1, [], _ => none
  | n + 1, c :: name, dir =>
    if c ≠ dir.headD 0 then some false
    else if c = 0 then some true
    else sameStart n name dir.tail

/-- What is read of a dirent: whether it is the directory, and its numbers. -/
structure Entry where
  target : Bool
  version : U32
  ino : U32

/-- Is this the right directory name, and is it a subdirectory of `/`? -/
def readTarget (dir buf : List U8) (ofs : Nat) : Option Bool :=
  if dir = [] then some false
  else do
    let pino ← u32At buf (ofs + 12)
    if pino = 1 then do
      let nsize ← buf[ofs + 28]?
      sameStart nsize.toNat (buf.drop (ofs + 40)) dir
    else some false

def readEntry (dir buf : List U8) (ofs : Nat) : Option Entry := do
  let target ← readTarget dir buf ofs
  let ino ← u32At buf (ofs + 20)
  let version ← u32At buf (ofs + 16)
  return ⟨target, version, ino⟩

def Found.store (found : Found) (de : Entry) : Found where
  lastIno := if found.lastIno < de.ino then de.ino else found.lastIno
  lastVersion := if found.lastVersion < de.version then de.version else found.lastVersion
  targetIno := if de.target then de.ino else found.targetIno

def parseDirent (dir buf : List U8) (ofs : Nat) (found : Found) : Option Found := do
  let de ← readEntry dir buf ofs
  return found.store de

/-- The loop of `mtd_parse_jffs2data`. An offset that is visited twice is visited forever. -/
def parseData (dir buf : List U8) : Nat → Nat → Found → Option Found
  | 0, _, _ => none
  | turns + 1, ofs, found =>
    if ofs < buf.length then do
      let magic ← u16At buf ofs
      if magic ≠ 0x1985 then some found
      else do
        let totlen ← u32At buf (ofs + 4)
        let nodetype ← u16At buf (ofs + 2)
        let found ← (if nodetype = 0xe001 then parseDirent dir buf ofs found else some found)
        parseData dir buf turns (BitVec.ofNat 32 ofs + ((totlen + 3) &&& ~~~3)).toNat found
    else some found

variable (dev : Device)

/-- The loop of `mtd_write_jffs2` over the blocks of the device: the first one without a node, its
contents, and what has been found before it. Without such a block the function returns -1. -/
def findEnd (dir : List U8) (mem : FlashMemory) :
    Nat → Nat → Found → Option (Option (Nat × List U8 × Found))
  | 0, _, _ => some none
  | turns + 1, mtdofs, found => do
    let buf := (List.range dev.erasesize).map fun i => mem (mtdofs + i)
    if dev.mtdsize < mtdofs + dev.erasesize then some none
    else do
      let magic ← u16At buf 0
      if magic = 0x8519 then some none
      else if magic ≠ 0x1985 then some (some (mtdofs, buf, found))
      else do
        let found ← parseData dir buf (buf.length + 1) 0 found
        findEnd dir mem turns (mtdofs + dev.erasesize) found

end Parsing

end OpenwrtMtk.Mtd
