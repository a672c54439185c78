import OpenwrtMtk.Lib.Files
import OpenwrtMtk.Luci.Lmo

/-!
# po2lmo

`po2lmo.c`: the conversion of a PO file into an archive of `template_lmo.c`. The buffers of `main`
hold 4096 bytes; what `tmp` holds at the start is not defined. A string that is not terminated in
its buffer, a `strcat` past the end of `key` or `val` and an offset that is not an `int` have no
result. Failures of `malloc` and of the output are left out.
-/

namespace OpenwrtMtk.Luci

open Toolkit
open OpenwrtMtk.Ead (htonl)

set_option autoImplicit false

/-- The values 0 to 4 of `state`. -/
inductive PoState where
  | idle | emptyMsgid | msgid | msgstr | complete
  deriving DecidableEq

/-- How a run of `main` ends without an archive. -/
inductive PoExit where
  | died | undefined
  deriving DecidableEq

/-- `lmo_entry_t`. -/
structure LmoEntry where
  keyId : U32
  valId : U32
  offset : U32
  length : U32
  deriving DecidableEq

/-- The variables of `main`, and what it has written. -/
structure Po2lmo where
  state : PoState
  key : List U8
  val : List U8
  tmp : List U8
  offset : Nat
  array : List LmoEntry
  out : List U8
  deriving DecidableEq

/-- `sizeof(line)`, and of the other buffers. -/
def poBuffer : Nat := 4096

/-- The loop of `extract_string` from `src[pos]` on: `off` where a quote was found, and `dest`. -/
def extractFrom (len : Nat) : Nat → List U8 → Option Nat → Bool → List U8 → Option Nat × List U8
  | _, [], off, _, dest => (off, dest)
  | pos, c :: src, off, esc, dest =>
    if len ≤ pos then (off, dest)
    else
      match off with
      | none =>
        if c = 0x22 then extractFrom len (pos + 1) src (some (pos + 1)) esc dest
        else extractFrom len (pos + 1) src none esc dest
      | some off =>
        if esc then
          let off := if c = 0x22 ∨ c = 0x5c then off + 1 else off
          extractFrom len (pos + 1) src (some off) false (dest.set (pos - off) c)
        else if c = 0x5c then
          extractFrom len (pos + 1) src (some off) true (dest.set (pos - off) c)
        else if c = 0x22 then (some off, dest.set (pos - off) 0)
        else extractFrom len (pos + 1) src (some off) esc (dest.set (pos - off) c)

def bufferString (buffer : List U8) : Except PoExit (List U8) :=
  match cstr buffer with
  | some s => .ok s
  | none => .error .undefined

/-- The length that is returned, `none` for -1, and the buffer. -/
def extractString (src dest : List U8) : Except PoExit (Option Nat × List U8) := do
  let (off, dest) := extractFrom poBuffer 0 src none false dest
  match off with
  | none => return (none, dest)
  | some _ =>
    let s ← bufferString dest
    return (some s.length, dest)

def strcat (dest src : List U8) : Except PoExit (List U8) := do
  let d ← bufferString dest
  let s ← bufferString src
  if d.length + s.length < dest.length then return overwrite dest d.length (s ++ [0])
  else throw .undefined

namespace Po2lmo

def scan (line : List U8) (s : Po2lmo) : Except PoExit Po2lmo :=
  match s.state with
  | .idle =>
    if (latin "msgid \"").isPrefixOf line then do
      let (n, key) ← extractString line s.key
      match n with
      | none => throw .died
      | some 0 => return { s with state := .emptyMsgid, key }
      | some _ => return { s with state := .msgid, key }
    else return s
  | .emptyMsgid =>
    if (latin "msgstr \"").isPrefixOf line then do
      let (n, val) ← extractString line s.val
      return { s with state := if n = none then .complete else .msgstr, val }
    else do
      let (n, tmp) ← extractString line s.tmp
      if n = none then return { s with state := .msgid, tmp }
      else
        let key ← strcat s.key tmp
        return { s with key, tmp }
  | .msgid => do
    let (n, val) ← extractString line s.val
    return { s with state := if n = none then .complete else .msgstr, val }
  | .msgstr => do
    let (n, tmp) ← extractString line s.tmp
    if n = none then return { s with state := .complete, tmp }
    else
      let val ← strcat s.val tmp
      return { s with val, tmp }
  | .complete => return s

/-- The entry is stored and its text written, filled up to a multiple of four bytes with what
follows in the buffer. -/
def store (s : Po2lmo) (key val : List U8) : Except PoExit Po2lmo :=
  let length := val.length + (4 - val.length % 4) % 4
  if s.offset + length < 2 ^ 31 then
    return { s with
      array := s.array ++ [{
        keyId := sfhHash key
        valId := sfhHash val
        offset := BitVec.ofNat 32 s.offset
        length := BitVec.ofNat 32 val.length }]
      out := s.out ++ s.val.take length
      offset := s.offset + length }
  else throw .undefined

def flush (s : Po2lmo) : Except PoExit Po2lmo := do
  let key ← bufferString s.key
  let val ← bufferString s.val
  let s ← (if key ≠ [] ∧ val ≠ [] ∧ sfhHash key ≠ sfhHash val then s.store key val else return s)
  return { s with
    state := .idle
    key := List.replicate poBuffer 0
    val := List.replicate poBuffer 0 }

/-- A round of the loop of `main`. -/
def round (line : List U8) (s : Po2lmo) : Except PoExit Po2lmo := do
  let s ← s.scan line
  if s.state = .complete then s.flush else return s

/-- `state >= 2`. -/
def pending (s : Po2lmo) : Bool := s.state != .idle && s.state != .emptyMsgid

/-- The loop of `main`. A line of the buffer ends at its first zero byte, and at the end of the file
it is empty. -/
def rounds : Nat → List U8 → Po2lmo → Except PoExit Po2lmo
  | 0, _, _ => throw .undefined
  | fuel + 1, file, s =>
    let (line, rest) := fgets (poBuffer - 1) file
    if line = [] ∧ !s.pending then return s
    else do
      let s ← s.round (line.takeWhile (· ≠ 0))
      rounds fuel rest s

def init (tmp : List U8) : Po2lmo where
  state := .idle
  key := List.replicate poBuffer 0
  val := List.replicate poBuffer 0
  tmp := tmp
  offset := 0
  array := []
  out := []

end Po2lmo

def cmpIndex (x y : LmoEntry) : Int :=
  if x.keyId < y.keyId then -1 else if y.keyId < x.keyId then 1 else 0

/-- `qsort` with `cmp_index`. The order of entries that compare as equal is not defined. -/
structure Qsort where
  sort : List LmoEntry → List LmoEntry
  perm : ∀ array, (sort array).Perm array
  sorted : ∀ array, (sort array).Pairwise fun x y => cmpIndex x y ≤ 0

/-- What `print_index` writes for an entry. -/
def LmoEntry.print (e : LmoEntry) : List U8 :=
  htonl e.keyId ++ htonl e.valId ++ htonl e.offset ++ htonl e.length

/-- `main`: the archive, `none` where it is unlinked. Each round takes a byte of the file, or is the
last one at its end. -/
def po2lmo (qsort : Qsort) (tmp file : List U8) : Except PoExit (Option (List U8)) := do
  let s ← Po2lmo.rounds (file.length + 2) file (.init tmp)
  let index := (qsort.sort s.array).flatMap LmoEntry.print
  if 0 < s.offset then return some (s.out ++ index ++ htonl (BitVec.ofNat 32 s.offset))
  else return none

end OpenwrtMtk.Luci
