import OpenwrtMtk.Nvram.Crc32
import OpenwrtMtk.Lib.Run

/-!
# The nvram command

`nvram.c`: the sections of the cache file are parsed into slots of `name=value` pairs, one
command edits the slots, and `nvram_commit` writes every section back. Buffers are lists of
bytes; a read or write past the end of one has no result. What `malloc` returns is a
parameter: `fill` is the buffer of `nvram_commit` and `fresh` the slots of `nvram_parse`.
-/

namespace OpenwrtMtk.Nvram

open Toolkit

set_option autoImplicit false

/-- `MAX_ENTRY`. -/
def maxEntry : Nat := 500

structure Entry where
  name : List U8
  value : List U8
  deriving DecidableEq

/-- `cache[MAX_ENTRY]`; a slot with no name is empty. -/
abbrev Slots := List (Option Entry)

structure Section where
  name : String
  offset : Nat
  size : Nat
  flag : Nat
  crc : U32
  cache : Slots

/-- `layout_t`. -/
structure LayoutRow where
  name : String
  offset : Nat
  size : Nat
  flag : Nat
  deriving DecidableEq

/-- `NV_RO`. -/
def nvRO : Nat := 1

def readOnly (flag : Nat) : Bool := flag &&& nvRO != 0

def nvlayout : List LayoutRow :=
  [⟨"uboot", 0x0, 0x1000, nvRO⟩, ⟨"readonly", 0x1000, 0x1000, nvRO⟩, ⟨"test1", 0x2000, 0x4000, 0⟩,
   ⟨"test2", 0x6000, 0x2000, 0⟩, ⟨"test3", 0x8000, 0x8000, 0⟩]

inductive Rc where
  | ok | ng
  deriving DecidableEq

/-- `_nvram_section`: the first section of the name. -/
def nvramSection (cache : List Section) (name : String) : Option Nat :=
  cache.findIdx? fun s => s.name = name

def isNamed (key : List U8) : Option Entry → Bool
  | some e => e.name = key
  | none => false

/-- The slots without the first entry named `key`; `none` is NG. -/
def delSlot (slots : Slots) (key : List U8) : Option Slots :=
  (slots.findIdx? (isNamed key)).map fun j => slots.set j none

/-- The slots with `key` in its old slot, else in the first empty one; `none` is NG. -/
def setSlot (slots : Slots) (key value : List U8) : Option Slots :=
  ((slots.findIdx? (isNamed key)).or (slots.findIdx? Option.isNone)).map fun j =>
    slots.set j (some ⟨key, value⟩)

def editSection (cache : List Section) (name : String) (edit : Slots → Option Slots) :
    Option (List Section) :=
  match nvramSection cache name with
  | none => none
  | some i =>
    match cache[i]? with
    | none => none
    | some s =>
      if readOnly s.flag then none
      else (edit s.cache).map fun slots => cache.set i { s with cache := slots }

/-- `_nvram_buf_del`. -/
def nvramBufDel (cache : List Section) (name : String) (key : List U8) : Option (List Section) :=
  editSection cache name (delSlot · key)

/-- `_nvram_buf_set`. -/
def nvramBufSet (cache : List Section) (name : String) (key value : List U8) :
    Option (List Section) :=
  editSection cache name (setSlot · key value)

/-- `_nvram_buf_get`. -/
def nvramBufGet (cache : List Section) (name : String) (key : List U8) : Option (List U8) :=
  match nvramSection cache name with
  | none => none
  | some i =>
    match cache[i]? with
    | none => none
    | some s =>
      match s.cache.find? (isNamed key) with
      | some (some e) => some e.value
      | _ => none

def equalsSign : U8 := 0x3d

/-- `*p < 32 || *p > 128`, on a signed char. -/
def stopsParse (c : U8) : Bool := decide (c.toInt < 32) || decide (128 < c.toInt)

/-- The loop of `nvram_parse` over one section that ends at `stop`, with `n` slots left. It writes
a NUL over each `=` it splits at, so it also returns the data. -/
def parseEntries (stop : Nat) : Nat → List U8 → Nat → Option (List U8 × List Entry)
  | 0, data, _ => some (data, [])
  | n + 1, data, p =>
    if stop ≤ p then some (data, [])
    else
      match data[p]? with
      | none => none
      | some c =>
        if stopsParse c then some (data, [])
        else
          match cstr (data.drop p) with
          | none => none
          | some s =>
            match splitFirst equalsSign s with
            | none => some (data, [])
            | some (name, value) =>
              (parseEntries stop n (data.set (p + name.length) 0) (p + s.length + 1)).map fun r =>
                (r.1, ⟨name, value⟩ :: r.2)

/-- The sections of `nvram_parse`, the `i`-th first; a checksum that differs is only reported. -/
def parseSections (fresh : Nat → Slots) : Nat → List LayoutRow → List U8 → Option (List Section)
  | _, [], _ => some []
  | i, row :: rows, data =>
    if row.size < 4 ∨ data.length < row.offset + row.size then none
    else
      match parseEntries (row.offset + row.size) maxEntry data (row.offset + 4) with
      | none => none
      | some (data', es) =>
        (parseSections fresh (i + 1) rows data').map fun rest =>
          { name := row.name, offset := row.offset, size := row.size, flag := row.flag
            crc := crc32 0 (slice data (row.offset + 4) (row.size - 4))
            cache := es.map some ++ (fresh i).drop es.length } :: rest

def nvramParse (layout : List LayoutRow) (fresh : Nat → Slots) (file : List U8) :
    Option (List Section) :=
  parseSections fresh 0 layout file

/-- `name=value` and its NUL. -/
def Entry.bytes (e : Entry) : List U8 := e.name ++ equalsSign :: e.value ++ [0]

/-- A store of `bs` at `p` that stays inside the buffer. -/
def put (buffer : List U8) (p : Nat) (bs : List U8) : Option (List U8) :=
  if p + bs.length ≤ buffer.length then some (overwrite buffer p bs) else none

/-- The entries of one section, `q` being the limit; the inner `none` is the size check failing. -/
def putEntries (q : Nat) : List U8 → Nat → List Entry → Option (Option (List U8 × Nat))
  | buffer, p, [] => some (some (buffer, p))
  | buffer, p, e :: es =>
    if q ≤ p + e.bytes.length then some none
    else
      match put buffer p e.bytes with
      | none => none
      | some buffer => putEntries q buffer (p + e.bytes.length) es

def Section.entries (s : Section) : List Entry := s.cache.filterMap id

/-- One section of the buffer: entries, terminator and checksum. -/
def putSection (buffer : List U8) (s : Section) : Option (Option (List U8)) :=
  match putEntries (s.offset + 4 + s.size) buffer (s.offset + 4) s.entries with
  | none => none
  | some none => some none
  | some (some (buffer, p)) =>
    match put buffer p [0] with
    | none => none
    | some buffer =>
      if s.size < 4 ∨ buffer.length < s.offset + s.size then none
      else
        (put buffer s.offset (le32 (crc32 0 (slice buffer (s.offset + 4) (s.size - 4))))).map some

/-- `fwrite` at an offset; a gap past the end of the file reads as zeros. -/
def fwriteAt (file : List U8) (off : Nat) (bs : List U8) : List U8 :=
  overwrite (file ++ List.replicate (off - file.length) 0) off bs

/-- The loop of `nvram_commit`: buffer and file, section by section. -/
def commitSections : List Section → List U8 → List U8 → Option (Rc × List U8 × List U8)
  | [], buffer, file => some (.ok, buffer, file)
  | s :: rest, buffer, file =>
    match putSection buffer s with
    | none => none
    | some none => some (.ng, buffer, file)
    | some (some buffer) =>
      commitSections rest buffer (fwriteAt file s.offset (slice buffer s.offset s.size))

/-- The cache file and the flash partition. -/
structure Device where
  cache : List U8
  flash : List U8

def nvramCommit (fill : List U8) (sections : List Section) (flash : Bool) (d : Device) :
    Option (Rc × Device) :=
  (commitSections sections fill d.cache).map fun r =>
    match r with
    | (.ok, buffer, file) =>
      (.ok, ⟨file, if flash then overwrite d.flash 0 buffer else d.flash⟩)
    | (.ng, _, file) => (.ng, { d with cache := file })

/-- The section that `nvram_clear` writes. -/
def clearedSection (size : Nat) : List U8 :=
  le32 (crc32 0 (List.replicate (size - 4) 0)) ++ List.replicate (size - 4) 0

def nvramClear (sections : List Section) (name : String) (d : Device) : Rc × Device :=
  match (nvramSection sections name).bind fun i => sections[i]? with
  | none => (.ng, d)
  | some s =>
    if readOnly s.flag then (.ng, d)
    else (.ok, { d with cache := fwriteAt d.cache s.offset (clearedSection s.size) })

/-- A command line that may write; a file that cannot be opened is `none`. -/
inductive Op where
  | set (name : String) (key value : List U8)
  | del (name : String) (key : List U8)
  | clear (name : String)
  | loadfile (defile : Option (List U8))
  | commit

/-- One run of the command: `nvram_parse` of the cache file, then the operation. -/
def runOp (layout : List LayoutRow) (fresh : Nat → Slots) (fill : List U8) (d : Device) :
    Op → Option (Rc × Device)
  | .set name key value =>
    (nvramParse layout fresh d.cache).bind fun sections =>
      match nvramBufSet sections name key value with
      | none => some (.ng, d)
      | some sections => nvramCommit fill sections false d
  | .del name key =>
    (nvramParse layout fresh d.cache).bind fun sections =>
      match nvramBufDel sections name key with
      | none => some (.ng, d)
      | some sections => nvramCommit fill sections false d
  | .clear name =>
    (nvramParse layout fresh d.cache).map fun sections => nvramClear sections name d
  | .loadfile none => (nvramParse layout fresh d.cache).map fun _ => (.ng, d)
  | .loadfile (some defile) =>
    (nvramParse layout fresh d.cache).bind fun _ =>
      (nvramParse layout fresh defile).bind fun sections => nvramCommit fill sections true d
  | .commit =>
    (nvramParse layout fresh d.cache).bind fun sections => nvramCommit fill sections true d

/-- `nvram get`: the inner `none` is "no such entry". -/
def nvramGet (layout : List LayoutRow) (fresh : Nat → Slots) (file : List U8) (name : String)
    (key : List U8) : Option (Option (List U8)) :=
  (nvramParse layout fresh file).map fun sections => nvramBufGet sections name key

def zeroSlots : Nat → Slots := fun _ => List.replicate maxEntry none

end OpenwrtMtk.Nvram
