import OpenwrtMtk.Lib.Flash

/-!
# MTD devices

What `mtd.c` uses of a device: its geometry, its bad blocks, and the operations of the kernel on its
character device.
-/

namespace OpenwrtMtk.Mtd

open Toolkit

set_option autoImplicit false

/-- A device of `count` blocks, whose size is an `int`. Only NAND flash has bad blocks. -/
structure Device where
  nand : Bool
  erasesize : Nat
  count : Nat
  bad : Nat → Bool
  erasesize_pos : 0 < erasesize
  size_lt : erasesize * count < 2 ^ 31
  good_of_nor : nand = false → ∀ b, bad b = false

variable (dev : Device)

def Device.mtdsize : Nat := dev.erasesize * dev.count

/-- `mtd_block_is_bad`, which exits for an offset outside of the device. -/
def Device.blockIsBad (offset : Nat) : Option Bool :=
  if dev.nand then
    if offset < dev.mtdsize then some (dev.bad (offset / dev.erasesize)) else none
  else some false

/-- `mtd_erase_block`. -/
def Device.eraseBlock (mem : FlashMemory) (offset : Nat) : Option FlashMemory :=
  if offset + dev.erasesize ≤ dev.mtdsize ∧ dev.bad (offset / dev.erasesize) = false then
    some (mem.erase offset dev.erasesize)
  else none

/-- A new file position. Outside of the device it is refused. -/
def Device.lseek (pos target : Nat) : Nat := if target ≤ dev.mtdsize then target else pos

/-- `write`: what is written up to the end of the device, and its length. -/
def Device.write (mem : FlashMemory) (pos : Nat) (data : List U8) : Option (FlashMemory × Nat) :=
  let data := data.take (dev.mtdsize - pos)
  if data = [] ∨ (List.range data.length).any fun i => dev.bad ((pos + i) / dev.erasesize) then none
  else some (mem.program pos data, data.length)

end OpenwrtMtk.Mtd

/-!
## Writing an image

`mtd_write` for one device, without a file to be appended and with erasing. The image comes in the
pieces that single reads return; some of it may have been read into the buffer already. Where the
program exits there is no result.
-/

namespace OpenwrtMtk.Mtd

open Toolkit

set_option autoImplicit false

/-- The memory, the file position, and the counters of `mtd_write`. -/
structure Progress where
  mem : FlashMemory
  pos : Nat
  w : Nat
  e : Nat
  skipBadBlocks : Nat

section Image

/-- `read(imagefd, .., room)`. An empty piece is the end of the file. -/
def readImage (room : Nat) : List (List U8) → List U8 × List (List U8)
  | [] => ([], [])
  | piece :: file =>
    (piece.take room, if piece.length ≤ room then file else piece.drop room :: file)

/-- The loop that fills the buffer. Each read but the last brings a byte, so `room` of them are
enough. -/
def fillBuffer (erasesize : Nat) : Nat → List U8 → List (List U8) → List U8 × List (List U8)
  | 0, buf, file => (buf, file)
  | reads + 1, buf, file =>
    if buf.length < erasesize then
      let (r, file) := readImage (erasesize - buf.length) file
      if r = [] then (buf, file) else fillBuffer erasesize reads (buf ++ r) file
    else (buf, file)

/-- `memset(&buf[buflen], 0xff, erasesize - buflen)`. -/
def padBlock (erasesize : Nat) (buf : List U8) : List U8 :=
  buf ++ List.replicate (erasesize - buf.length) 0xff

end Image

variable (dev : Device)

/-- The loop that erases ahead of what is to be written. It leaves the device after its blocks. -/
def eraseAhead (buflen : Nat) : Nat → Progress → Option Progress
  | 0, _ => none
  | turns + 1, s =>
    if s.e - s.skipBadBlocks < s.w + buflen then do
      if ← dev.blockIsBad s.e then
        eraseAhead buflen turns { s with
          skipBadBlocks := s.skipBadBlocks + dev.erasesize
          e := s.e + dev.erasesize
          pos := dev.lseek s.pos (s.pos + dev.erasesize) }
      else
        let mem ← dev.eraseBlock s.mem s.e
        eraseAhead buflen turns { s with mem, e := s.e + dev.erasesize }
    else some s

/-- The loop over the blocks of the image. Each turn but the last takes a byte of it. -/
def writeLoop : Nat → Progress → List U8 → List (List U8) → Option Progress
  | 0, _, _, _ => none
  | turns + 1, s, buf, file =>
    let (buf, file) := fillBuffer dev.erasesize dev.erasesize buf file
    if buf = [] then some s
    else do
      let buf := padBlock dev.erasesize buf
      let s ← eraseAhead dev buf.length (dev.count + 1) s
      let (mem, result) ← dev.write s.mem s.pos buf
      if result < buf.length then none
      else writeLoop turns { s with mem, pos := s.pos + result, w := s.w + buf.length } [] file

/-- What is left when `mtd_write` returns 0. -/
def mtdWrite (mem : FlashMemory) (partOffset : Nat) (buf : List U8) (file : List (List U8)) :
    Option Progress :=
  let pos := if 0 < partOffset then dev.lseek 0 partOffset else 0
  writeLoop dev (buf.length + file.flatten.length + 1) ⟨mem, pos, 0, 0, 0⟩ buf file

end OpenwrtMtk.Mtd
