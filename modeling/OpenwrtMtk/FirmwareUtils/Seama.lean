import OpenwrtMtk.Lib.Bytes
import OpenwrtMtk.Lib.Files

/-!
# MD5

`md5.c`. A step works on the registers in turn, so the registers turn with every step. Of the
input buffer only the bytes in use are kept.
-/

namespace OpenwrtMtk.FirmwareUtils

open Toolkit

set_option autoImplicit false

structure Registers where
  a : U32
  b : U32
  c : U32
  d : U32

structure Md5Ctx where
  /-- The number of bits, `i[0]` and `i[1]`. -/
  bits : U32 × U32
  buf : Registers
  input : List U8

def md5F (x y z : U32) : U32 := (x &&& y) ||| (~~~x &&& z)

def md5G (x y z : U32) : U32 := (x &&& z) ||| (y &&& ~~~z)

def md5H (x y z : U32) : U32 := x ^^^ y ^^^ z

def md5I (x y z : U32) : U32 := y ^^^ (x ||| ~~~z)

def roundF : List (Nat × Nat × U32) := [
  (0, 7, 3614090360), (1, 12, 3905402710), (2, 17, 606105819), (3, 22, 3250441966),
  (4, 7, 4118548399), (5, 12, 1200080426), (6, 17, 2821735955), (7, 22, 4249261313),
  (8, 7, 1770035416), (9, 12, 2336552879), (10, 17, 4294925233), (11, 22, 2304563134),
  (12, 7, 1804603682), (13, 12, 4254626195), (14, 17, 2792965006), (15, 22, 1236535329)]

def roundG : List (Nat × Nat × U32) := [
  (1, 5, 4129170786), (6, 9, 3225465664), (11, 14, 643717713), (0, 20, 3921069994),
  (5, 5, 3593408605), (10, 9, 38016083), (15, 14, 3634488961), (4, 20, 3889429448),
  (9, 5, 568446438), (14, 9, 3275163606), (3, 14, 4107603335), (8, 20, 1163531501),
  (13, 5, 2850285829), (2, 9, 4243563512), (7, 14, 1735328473), (12, 20, 2368359562)]

def roundH : List (Nat × Nat × U32) := [
  (5, 4, 4294588738), (8, 11, 2272392833), (11, 16, 1839030562), (14, 23, 4259657740),
  (1, 4, 2763975236), (4, 11, 1272893353), (7, 16, 4139469664), (10, 23, 3200236656),
  (13, 4, 681279174), (0, 11, 3936430074), (3, 16, 3572445317), (6, 23, 76029189),
  (9, 4, 3654602809), (12, 11, 3873151461), (15, 16, 530742520), (2, 23, 3299628645)]

def roundI : List (Nat × Nat × U32) := [
  (0, 6, 4096336452), (7, 10, 1126891415), (14, 15, 2878612391), (5, 21, 4237533241),
  (12, 6, 1700485571), (3, 10, 2399980690), (10, 15, 4293915773), (1, 21, 2240044497),
  (8, 6, 1873313359), (15, 10, 4264355552), (6, 15, 2734768916), (13, 21, 1309151649),
  (4, 6, 4149444226), (11, 10, 3174756917), (2, 15, 718787259), (9, 21, 3951481745)]

/-- `FF` and its like; `a` is then the next `b`. -/
def md5Step (f : U32 → U32 → U32 → U32) (words : List U32) (r : Registers)
    (row : Nat × Nat × U32) : Registers :=
  let sum := r.a + (f r.b r.c r.d + words.getD row.1 0 + row.2.2)
  let rotated := (sum <<< row.2.1) ||| (sum >>> (32 - row.2.1))
  ⟨r.d, rotated + r.b, r.b, r.c⟩

def transform (buf : Registers) (words : List U32) : Registers :=
  let r := roundF.foldl (md5Step md5F words) buf
  let r := roundG.foldl (md5Step md5G words) r
  let r := roundH.foldl (md5Step md5H words) r
  let r := roundI.foldl (md5Step md5I words) r
  ⟨buf.a + r.a, buf.b + r.b, buf.c + r.c, buf.d + r.d⟩

/-- The first `n` little-endian words of a buffer. -/
def inputWords (input : List U8) (n : Nat) : List U32 := (List.range n).map fun i =>
  input.getD (4 * i + 3) 0 ++ input.getD (4 * i + 2) 0 ++ input.getD (4 * i + 1) 0 ++
    input.getD (4 * i) 0

def md5Init : Md5Ctx := ⟨(0, 0), ⟨0x67452301, 0xefcdab89, 0x98badcfe, 0x10325476⟩, []⟩

def md5Byte (ctx : Md5Ctx) (byte : U8) : Md5Ctx :=
  let input := ctx.input ++ [byte]
  if input.length = 0x40 then
    { ctx with buf := transform ctx.buf (inputWords input 16), input := [] }
  else { ctx with input := input }

def md5Update (ctx : Md5Ctx) (bytes : List U8) : Md5Ctx :=
  let len := BitVec.ofNat 32 bytes.length
  let low := ctx.bits.1 + (len <<< 3)
  let carry := if low < ctx.bits.1 then 1 else 0
  bytes.foldl md5Byte { ctx with bits := (low, ctx.bits.2 + carry + (len >>> 29)) }

def registerBytes (w : U32) : List U8 :=
  [w.setWidth 8, (w >>> 8).setWidth 8, (w >>> 16).setWidth 8, (w >>> 24).setWidth 8]

def md5Final (ctx : Md5Ctx) : List U8 :=
  let mdi := ctx.input.length
  let padLen := if mdi < 56 then 56 - mdi else 120 - mdi
  let padded := md5Update ctx (0x80 :: List.replicate (padLen - 1) 0)
  let buf := transform padded.buf (inputWords padded.input 14 ++ [ctx.bits.1, ctx.bits.2])
  registerBytes buf.a ++ registerBytes buf.b ++ registerBytes buf.c ++ registerBytes buf.d

@[simp] theorem length_md5Final (ctx : Md5Ctx) : (md5Final ctx).length = 16 := rfl

example : md5Final (md5Update md5Init [0x61, 0x62, 0x63]) =
    [0x90, 0x01, 0x50, 0x98, 0x3c, 0xd2, 0x4f, 0xb0, 0xd6, 0x96, 0x3f, 0x7d, 0x28, 0xe1, 0x7f,
      0x72] := by decide +kernel

end OpenwrtMtk.FirmwareUtils

/-!
## SEAMA files

`seama.c` with `size_t` of 64 bits. A file is the list of its bytes; opening and writing files
succeeds, and messages are left out. The turns of a loop are counted down from more than it takes.
-/

namespace OpenwrtMtk.FirmwareUtils

open Toolkit

set_option autoImplicit false

def seamaMagic : U32 := 0x5EA3A417

def maxSeamaMetaSize : Nat := 1024

abbrev CString := { s : List U8 // (0 : U8) ∉ s }

/-- The loop of `calculate_digest`. -/
def digestLoop (size : Nat) : Nat → File → Nat → Nat → Md5Ctx → Nat × Md5Ctx × File
  | 0, fh, _, bytesRead, ctx => (bytesRead, ctx, fh)
  | turns + 1, fh, bytesLeft, bytesRead, ctx =>
    if fh.eof || bytesLeft = 0 then (bytesRead, ctx, fh)
    else
      let (buf, fh) := fh.fread (if bytesLeft < maxSeamaMetaSize then bytesLeft
        else maxSeamaMetaSize)
      let ctx := if 0 < buf.length then md5Update ctx buf else ctx
      let bytesLeft := if size = 0 then bytesLeft else bytesLeft - buf.length
      digestLoop size turns fh bytesLeft (bytesRead + buf.length) ctx

def calculateDigest (fh : File) (size : Nat) : Nat × List U8 × File :=
  let (bytesRead, ctx, fh) := digestLoop size (fh.rest.length + 2) fh
    (if size = 0 then maxSeamaMetaSize else size) 0 md5Init
  (bytesRead, md5Final ctx, fh)

/-- The loop of `copy_file`: the bytes it writes. -/
def copyLoop : Nat → File → List U8
  | 0, _ => []
  | turns + 1, fh =>
    if fh.eof then []
    else
      let (buf, fh) := fh.fread (8 * 1024)
      buf ++ copyLoop turns fh

def copyFile (fh : File) : List U8 := copyLoop (fh.rest.length + 2) fh

def hasMagic (shdr : List U8) : Bool := slice shdr 0 4 = be32 seamaMagic

def headerMetaSize (shdr : List U8) : Nat := (shdr.getD 6 0 ++ shdr.getD 7 0).toNat

def headerSize (shdr : List U8) : Nat :=
  (shdr.getD 8 0 ++ shdr.getD 9 0 ++ shdr.getD 10 0 ++ shdr.getD 11 0).toNat

/-- The inner loop of `verify_seama`: whether `ret` is 0. -/
def verifyLoop : Nat → File → Bool → Bool
  | 0, _, ret => ret
  | turns + 1, fh, ret =>
    if fh.eof then ret
    else
      let (shdr, fh) := fh.fread 12
      if shdr.length ≠ 12 then ret
      else if !hasMagic shdr then ret
      else
        let isize := headerSize shdr
        let msize := headerMetaSize shdr
        -- the checksum exists only if the size is greater than zero
        let (checksum, fh) := if 0 < isize then fh.fread 16 else ([], fh)
        if 0 < isize ∧ checksum.length ≠ 16 then ret
        else if maxSeamaMetaSize < msize then ret
        else
          let (buf, fh) := fh.fread msize
          if buf.length ≠ msize then ret
          else if isize = 0 then verifyLoop turns fh ret
          else
            let (_, digest, fh) := calculateDigest fh isize
            if checksum ≠ digest then ret else verifyLoop turns fh true

def verifySeama (bytes : List U8) : Bool := verifyLoop (bytes.length + 1) (.opened bytes) false

/-- The `metasize` of a header. -/
def metaSize (metas : List CString) : U16 :=
  let sum := metas.foldl (fun n s => n + BitVec.ofNat 16 (s.1.length + 1)) 0
  BitVec.ofNat 16 ((sum.toNat + 3) / 4 * 4)

def writeSeamaHeader (metas : List CString) (size : Nat) : List U8 :=
  be32 seamaMagic ++ be16 0 ++ be16 (metaSize metas) ++ be32 (BitVec.ofNat 32 size)

def writeMetaData (metas : List CString) : List U8 :=
  let strings := metas.flatMap fun s => s.1 ++ [0]
  strings ++ List.replicate ((strings.length + 3) / 4 * 4 - strings.length) 0

def sealFiles (metas : List CString) (images : List (List U8)) : Option (List U8) :=
  if images.all verifySeama then
    some (writeSeamaHeader metas 0 ++ writeMetaData metas ++
      images.flatMap fun image => copyFile (.opened image))
  else none

/-- What a turn of `pack_files` writes. -/
def packFile (metas : List CString) (image : List U8) : List U8 :=
  let (fsize, digest, _) := calculateDigest (.opened image) 0
  writeSeamaHeader metas fsize ++ digest ++ writeMetaData metas ++ copyFile (.opened image)

/-- The inner loop of `match_meta`; nothing if a string does not end in the buffer. -/
def matchString (buf : List U8) (size : Nat) (want : List U8) : Nat → Nat → Option Bool
  | 0, _ => some false
  | turns + 1, j =>
    if size ≤ j then some false
    else do
      let s ← cstr (buf.drop j)
      if s = want then some true else matchString buf size want turns (j + s.length + 1)

/-- `match_meta` on a buffer. -/
def matchMeta (buf : List U8) (size : Nat) : List CString → Option Bool
  | [] => some true
  | want :: wanted => do
    let found ← matchString buf size want.1 size 0
    if found then matchMeta buf size wanted else some false

/-- The three loops that read `size` bytes into `buf`, in pieces: the file, `buf` and the bytes
read. -/
def readPieces : Nat → File → List U8 → Nat → File × List U8 × List U8
  | 0, fh, buf, _ => (fh, buf, [])
  | turns + 1, fh, buf, size =>
    if size = 0 then (fh, buf, [])
    else
      let (piece, fh) := fh.fread (if size < maxSeamaMetaSize then size else maxSeamaMetaSize)
      if piece.length = 0 then (fh, buf, [])
      else
        let (fh, buf, bytes) :=
          readPieces turns fh (overwrite buf 0 piece) (size - piece.length)
        (fh, buf, piece ++ bytes)

/-- How the search through a file ends: with the output written, or with `shdr` and `buf` for the
next file. -/
inductive Search where
  | found (output : List U8)
  | missed (shdr buf : List U8)

/-- The inner loop of `extract_file`; nothing if it leaves `buf`. -/
def searchFile (wanted : List CString) : Nat → File → List U8 → List U8 → Option Search
  | 0, _, shdr, buf => some (.missed shdr buf)
  | turns + 1, fh, shdr, buf =>
    if fh.eof then some (.missed shdr buf)
    else
      let (bytes, fh) := fh.fread 12
      let shdr := overwrite shdr 0 bytes
      if !hasMagic shdr then some (.missed shdr buf)
      else
        let isize := headerSize shdr
        let msize := headerMetaSize shdr
        if isize = 0 then
          let (fh, buf, _) := readPieces msize fh buf msize
          searchFile wanted turns fh shdr buf
        else
          let (checksum, fh) := fh.fread 16
          let buf := overwrite buf 0 checksum
          if msize = 0 then
            let (fh, buf, _) := readPieces isize fh buf isize
            searchFile wanted turns fh shdr buf
          else
            let (bytes, fh) := fh.fread msize
            if maxSeamaMetaSize < bytes.length then none
            else
              let buf := overwrite buf 0 bytes
              match matchMeta buf msize wanted with
              | none => none
              | some true => some (.found (readPieces isize fh buf isize).2.2)
              | some false =>
                let (fh, buf, _) := readPieces isize fh buf isize
                searchFile wanted turns fh shdr buf

def searchFiles (wanted : List CString) : List (List U8) → List U8 → List U8 →
    Option (Option (List U8))
  | [], _, _ => some none
  | bytes :: files, shdr, buf =>
    if !verifySeama bytes then searchFiles wanted files shdr buf
    else
      match searchFile wanted (bytes.length + 2) (.opened bytes) shdr buf with
      | none => none
      | some (.found output) => some (some output)
      | some (.missed shdr buf) => searchFiles wanted files shdr buf

/-- `shdr` and `buf` are what the variables hold at first. -/
def extractFile (wanted : List CString) (files : List (List U8)) (shdr : Vector U8 12)
    (buf : Vector U8 maxSeamaMetaSize) : Option (Option (List U8)) :=
  if wanted = [] then some none else searchFiles wanted files shdr.toList buf.toList

end OpenwrtMtk.FirmwareUtils
