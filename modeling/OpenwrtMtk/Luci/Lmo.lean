import OpenwrtMtk.Ead.Crypt
import OpenwrtMtk.Luci.TemplateParser

/-!
# The translation archives of LuCI

`template_lmo.c`: the hash of a text, `lmo_open`, the binary search of `lmo_find_entry` and
`lmo_translate`. An archive is mapped into memory; its index starts at the offset that stands in its
last four bytes. A read outside the mapping has no result. `char` is signed.
-/

namespace OpenwrtMtk.Luci

open Toolkit
open OpenwrtMtk.Ead (htonl ntohl)

set_option autoImplicit false

def sfhGet16 (a b : U8) : U32 := (b.setWidth 32 <<< 8) + a.setWidth 32

/-- A round of the main loop of `sfh_hash`. -/
def sfhRound (hash : U32) (a b c d : U8) : U32 :=
  let hash := hash + sfhGet16 a b
  let tmp := (sfhGet16 c d <<< 11) ^^^ hash
  let hash := (hash <<< 16) ^^^ tmp
  hash + (hash >>> 11)

def sfhFold (hash : U32) : List U8 → U32
  | [] => hash
  | [a] =>
    let hash := hash + a.signExtend 32
    let hash := hash ^^^ (hash <<< 10)
    hash + (hash >>> 1)
  | [a, b] =>
    let hash := hash + sfhGet16 a b
    let hash := hash ^^^ (hash <<< 11)
    hash + (hash >>> 17)
  | [a, b, c] =>
    let hash := hash + sfhGet16 a b
    let hash := hash ^^^ (hash <<< 16)
    let hash := hash ^^^ (c.signExtend 32 <<< 18)
    hash + (hash >>> 11)
  | a :: b :: c :: d :: data => sfhFold (sfhRound hash a b c d) data

def sfhFinish (hash : U32) : U32 :=
  let hash := hash ^^^ (hash <<< 3)
  let hash := hash + (hash >>> 5)
  let hash := hash ^^^ (hash <<< 4)
  let hash := hash + (hash >>> 17)
  let hash := hash ^^^ (hash <<< 25)
  hash + (hash >>> 6)

def sfhHash (data : List U8) : U32 :=
  if data = [] then 0 else sfhFinish (sfhFold (BitVec.ofNat 32 data.length) data)

/-- The loop of `lmo_canon_hash`. -/
def canonFrom (prev : U8) : List U8 → List U8
  | [] => []
  | c :: str =>
    (if isspace c then if isspace prev then [] else [0x20] else [c]) ++ canonFrom c str

/-- The text that `lmo_canon_hash` hashes: runs of white space are one blank, and there is none at
the start and the end. -/
def lmoCanon (str : List U8) : List U8 :=
  let res := canonFrom 0x20 str
  if res.getLast?.any isspace then res.dropLast else res

def lmoCanonHash (str : List U8) : U32 := if 4096 ≤ str.length then 0 else sfhHash (lmoCanon str)

/-- `struct lmo_archive`; `index` is the offset of the index in the mapping. -/
structure LmoArchive where
  mmap : List U8
  index : Nat
  length : Nat
  deriving DecidableEq

/-- `lmo_open` on the content of a file. Nothing can be mapped of an empty one, and in one of less
than four bytes the offset of the index lies in front of the mapping. -/
def lmoOpen (file : List U8) : Option (Option LmoArchive) :=
  let size := file.length % 2 ^ 32
  if size = 0 then some none
  else if size < 4 then none
  else
    let idxOffset := (ntohl (slice file (size - 4) 4)).toNat
    if size ≤ idxOffset then some none
    else some (some {
      mmap := file.take size
      index := idxOffset
      length := (size - idxOffset + 2 ^ 32 - 4) % 2 ^ 32 / 16 })

namespace LmoArchive

def word (ar : LmoArchive) (off : Nat) : Option U32 :=
  if off + 4 ≤ ar.mmap.length then some (ntohl (slice ar.mmap off 4)) else none

/-- `ar->index[m].key_id`. -/
def keyId (ar : LmoArchive) (m : Nat) : Option U32 := ar.word (ar.index + 16 * m)

/-- The loop of `lmo_find_entry`: the index of the entry. -/
def findFrom (ar : LmoArchive) (hash : U32) : Nat → Nat → Nat → Option (Option Nat)
  | 0, _, _ => none
  | fuel + 1, l, r =>
    let m := l + (r - l) / 2
    if r < l then some none
    else
      (ar.keyId m).bind fun k =>
        if k = hash then some (some m)
        else if hash < k then
          if m = 0 then some none else ar.findFrom hash fuel l (m - 1)
        else ar.findFrom hash fuel (m + 1) r

/-- `r` is unsigned: it starts at the largest number where the archive has no entries. -/
def lmoFindEntry (ar : LmoArchive) (hash : U32) : Option (Option Nat) :=
  ar.findFrom hash (ar.length + 1) 0 ((ar.length + 2 ^ 32 - 1) % 2 ^ 32)

/-- The text at `ar->mmap + ntohl(e->offset)`. -/
def text (ar : LmoArchive) (m : Nat) : Option (List U8) := do
  let offset ← ar.word (ar.index + 16 * m + 8)
  let length ← ar.word (ar.index + 16 * m + 12)
  if offset.toNat + length.toNat ≤ ar.mmap.length then
    some (slice ar.mmap offset.toNat length.toNat)
  else none

end LmoArchive

/-- The loop of `lmo_translate` over the archives of the active catalog. -/
def translateIn (hash : U32) : List LmoArchive → Option Translation
  | [] => some .missing
  | ar :: archives =>
    (ar.lmoFindEntry hash).bind fun
      | some m => (ar.text m).map .found
      | none => translateIn hash archives

/-- `lmo_translate`; the catalog is the list of its archives. -/
def lmoTranslate (catalog : Option (List LmoArchive)) (key : List U8) : Option Translation :=
  match catalog with
  | none => some .noCatalog
  | some archives => translateIn (lmoCanonHash key) archives

/-- The archives that `lmo_load_catalog` opens, one file after the other. -/
def lmoLoadCatalog (files : List (List U8)) : Option (List LmoArchive) :=
  files.foldlM (fun archives file => (lmoOpen file).map fun
    | some ar => ar :: archives
    | none => archives) []

end OpenwrtMtk.Luci
