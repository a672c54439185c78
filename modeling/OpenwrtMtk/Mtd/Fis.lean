import OpenwrtMtk.Lib.Checked
import OpenwrtMtk.Lib.Extremes
import OpenwrtMtk.Nvram.Crc32

/-!
# The FIS directory

`fis_remap` of `mtd` on a little-endian machine with a `size_t` of 32 bits. The directory is the mapped
erase block, a pointer to a descriptor its offset there; to read through a null pointer is to read
outside.
-/

namespace OpenwrtMtk.Mtd

open Toolkit Nvram

set_option autoImplicit false

/-- `struct fis_part`. -/
structure FisPart where
  name : Vector U8 16
  loadaddr : U32
  size : U32

/-- `struct fis_image_desc`. -/
structure ImageDesc where
  name : Vector U8 16
  flashBase : U32
  memBase : U32
  size : U32
  entryPoint : U32
  dataLength : U32
  pad : Vector U8 212
  crcDesc : U32
  crcFile : U32

/-- `sizeof(struct fis_image_desc)`. -/
def sizeofDesc : Nat := 256

def ImageDesc.encode (desc : ImageDesc) : List U8 :=
  desc.name.toList ++ (le32 desc.flashBase ++ (le32 desc.memBase ++ (le32 desc.size ++
    (le32 desc.entryPoint ++ (le32 desc.dataLength ++ (desc.pad.toList ++ (le32 desc.crcDesc ++
      le32 desc.crcFile)))))))

def ImageDesc.ofPart (part : FisPart) (flashBase size : U32) : ImageDesc where
  name := part.name
  flashBase := flashBase
  memBase := part.loadaddr
  size := size
  entryPoint := part.loadaddr
  dataLength := size
  pad := Vector.replicate 212 0
  crcDesc := 0
  crcFile := 0

/-- A `uint32_t` in the directory. -/
def ofLe32 : List U8 → U32
  | [a, b, c, d] => d ++ c ++ b ++ a
  | _ => 0

/-- `!strncmp` of two names of 16 bytes. -/
def sameName (name name' : List U8) : Bool :=
  decide (name.takeWhile (· ≠ 0) = name'.takeWhile (· ≠ 0))

def isOld (old : List FisPart) (name : List U8) : Bool :=
  old.any fun part => sameName name part.name.toList

section Loops

variable (table : List U8)

def flashBaseAt (desc : Nat) : Checked U32 := do
  let bytes ← load table (desc + 16) 4
  return ofLe32 bytes

/-- The variables of the first loop. -/
structure Scan where
  offset : U32
  first : Option Nat
  last : Option Nat

/-- The first loop, which finds the old partitions and the highest base. -/
def findOld (old : List FisPart) : Nat → Nat → Scan → Checked Scan
  | 0, _, _ => .error .endless
  | turns + 1, desc, s =>
    if desc < table.length then do
      let c ← loadByte table desc
      if c = 0 ∨ c = 0xff then return s
      else do
        let base ← flashBaseAt table desc
        let name ← load table desc 16
        let offset := larger s.offset base
        findOld old turns (desc + sizeofDesc)
          (if isOld old name then ⟨offset, s.first.or (some desc), some desc⟩ else { s with offset })
    else return s

/-- The second loop, which finds the base behind the old partitions. -/
def findLimit (highest : U32) : Nat → Nat → U32 → Checked U32
  | 0, _, _ => .error .endless
  | turns + 1, desc, offset =>
    if desc < table.length then do
      let c ← loadByte table desc
      if c = 0 ∨ c = 0xff then return offset
      else do
        let base ← flashBaseAt table desc
        findLimit highest turns (desc + sizeofDesc) (nearer highest offset base)
    else return offset

/-- The entries behind the old ones are moved behind the new ones. -/
def moveEntries (desc last : Nat) : Checked (List U8) :=
  if desc = last then return table
  else do
    let moved ← load table last (sizeSub table.length (max desc last))
    let table ← store table desc moved
    if desc < last then
      let tmp := table.length - (last - desc)
      store table tmp (List.replicate (sizeSub tmp table.length) 0xff)
    else return table

end Loops

/-- The last loop, which writes the new entries. -/
def placeParts : List FisPart → Nat → U32 → U32 → List U8 → Checked (List U8)
  | [], _, _, _, table => return table
  | part :: parts, desc, offset, size, table => do
    let bytes := if 0 < part.size then part.size else size
    let table ← store table desc (ImageDesc.ofPart part offset bytes).encode
    placeParts parts (desc + sizeofDesc) (offset + bytes) (size - bytes) table

/-- `fis_remap` of a directory that can be opened. -/
def fisRemap (old new : List FisPart) (table : List U8) : Checked (List U8) := do
  let s ← findOld table old (table.length + 1) 0 ⟨0, none, none⟩
  let first ← orOutside s.first
  let last ← orOutside s.last
  let firstBase ← flashBaseAt table first
  let lastBase ← flashBaseAt table last
  let lowest := if lastBase < firstBase then lastBase else firstBase
  let highest := if lastBase < firstBase then firstBase else lastBase
  let offset ← findLimit table highest (table.length + 1) 0 s.offset
  let table ← moveEntries table (first + sizeofDesc * new.length) (last + sizeofDesc)
  placeParts new first lowest (offset - lowest) table

section Directory

def encodeDescs (descs : List ImageDesc) : List U8 := descs.flatMap ImageDesc.encode

/-- A directory of `n` bytes. -/
def directoryBytes (n : Nat) (descs : List ImageDesc) : List U8 :=
  encodeDescs descs ++ List.replicate (n - sizeofDesc * descs.length) 0xff

/-- The first byte of the name tells an entry from the end of the directory. -/
structure ImageDesc.Used (desc : ImageDesc) : Prop where
  nonzero : desc.name.toList.head? ≠ some 0
  written : desc.name.toList.head? ≠ some 0xff

/-- The directory has the old names next to each other. -/
structure Contiguous (old : List FisPart) (before olds behind : List ImageDesc) : Prop where
  used : ∀ desc ∈ before ++ olds ++ behind, desc.Used
  some_old : olds ≠ []
  olds : ∀ desc ∈ olds, isOld old desc.name.toList = true
  before : ∀ desc ∈ before, isOld old desc.name.toList = false
  behind : ∀ desc ∈ behind, isOld old desc.name.toList = false

/-- The new partitions back to back from `base` on. One without a size takes what is left up to
`limit`. -/
def layOut (limit : U32) : U32 → List FisPart → List ImageDesc
  | _, [] => []
  | base, part :: parts =>
    let size := if part.size = 0 then limit - base else part.size
    ImageDesc.ofPart part base size :: layOut limit (base + size) parts

end Directory

section Encoding

variable {desc desc' : ImageDesc} {descs : List ImageDesc}

theorem ofLe32_le32 (w : U32) : ofLe32 (le32 w) = w := append_bytes32 w

theorem le32_inj {w w' : U32} (h : le32 w = le32 w') : w = w' := by
  rw [← ofLe32_le32 w, h, ofLe32_le32]

@[simp] theorem ImageDesc.length_encode (desc : ImageDesc) : desc.encode.length = sizeofDesc := by
  simp only [encode, List.length_append, Vector.length_toList, length_le32]
  rfl

theorem length_encodeDescs (descs : List ImageDesc) :
    (encodeDescs descs).length = sizeofDesc * descs.length := by
  induction descs with
  | nil => rfl
  | cons desc descs ih =>
    rw [encodeDescs, List.flatMap_cons, List.length_append, desc.length_encode, List.length_cons,
      Nat.mul_succ, Nat.add_comm]
    exact congrArg (· + sizeofDesc) ih

theorem encodeDescs_append (descs descs' : List ImageDesc) :
    encodeDescs (descs ++ descs') = encodeDescs descs ++ encodeDescs descs' := List.flatMap_append

theorem encodeDescs_cons (desc : ImageDesc) (descs : List ImageDesc) :
    encodeDescs (desc :: descs) = desc.encode ++ encodeDescs descs := List.flatMap_cons

theorem length_directoryBytes {n : Nat} (h : sizeofDesc * descs.length ≤ n) :
    (directoryBytes n descs).length = n := by
  rw [directoryBytes, List.length_append, List.length_replicate, length_encodeDescs]
  omega

theorem ImageDesc.encode_inj (h : desc.encode = desc'.encode) :
    desc.flashBase = desc'.flashBase ∧ desc.size = desc'.size := by
  have hlen {n : Nat} (v v' : Vector U8 n) : v.toList.length = v'.toList.length := by
    rw [Vector.length_toList, Vector.length_toList]
  obtain ⟨-, h⟩ := List.append_inj h (hlen _ _)
  obtain ⟨hbase, h⟩ := List.append_inj h rfl
  obtain ⟨-, h⟩ := List.append_inj h rfl
  obtain ⟨hsize, -⟩ := List.append_inj h rfl
  exact ⟨le32_inj hbase, le32_inj hsize⟩

end Encoding

end OpenwrtMtk.Mtd
