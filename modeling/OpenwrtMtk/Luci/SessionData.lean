import OpenwrtMtk.Luci.LuaString
import OpenwrtMtk.Luci.LuaValue

/-!
# Session data as Lua code

`serialize_data` and `restore_data` of `luci.util`. A value that is serialised has its tables with
their identities, which `seen` collects. What `loadstring` makes of a text is modelled for returned
constants and table constructors; other code has no result.
-/

namespace OpenwrtMtk.Luci.Session

open Toolkit

set_option autoImplicit false

/-- A value to serialise. The entries of a table are in the order of `pairs`. Numbers and indices are
integers that `tostring` prints as their digits. -/
inductive Datum where
  | bool (b : Bool)
  | number (n : Int)
  | string (s : List U8)
  | table (ref : Nat) (entries : List (Key × Datum))

/-- `t[k]`. -/
def rawget {α : Type} (t : List (Key × α)) (k : Key) : Option α :=
  (t.find? fun e => e.1 = k).map Prod.snd

section Serialize

/-- `%q` between its quotes. -/
def quoteByte (c : U8) : List U8 :=
  if c = 0x22 ∨ c = 0x5c ∨ c = 0x0a then [0x5c, c]
  else if c = 0x0d then latin "\\r"
  else if c = 0 then latin "\\000"
  else [c]

/-- `"%q" % s`. -/
def quoted (s : List U8) : List U8 := 0x22 :: s.flatMap quoteByte ++ [0x22]

def keyText : Key → List U8
  | .index n => digits n
  | .name s => quoted s

abbrev Seeing (β : Type) := StateT (List Nat) Option β

def listed (data text : List U8) : List U8 :=
  data ++ (if data = [] then [] else latin ", ") ++ text

def bracketed (len : Nat) : Key → Bool
  | .index n => n < 1 || len + 3 < n
  | .name _ => true

def keyField (k : Key) (v : List U8) : List U8 := 0x5b :: keyText k ++ latin "] = " ++ v

def position : Key → Nat
  | .index n => n
  | .name _ => 0

/-- The loop over `pairs(t)`: `data` and `ilen`. -/
def keyedPart (len : Nat) : List (Key × Seeing (List U8)) → List U8 → Nat → Seeing (List U8 × Nat)
  | [], data, ilen => pure (data, ilen)
  | (k, write) :: t, data, ilen =>
    if bracketed len k then do
      let v ← write
      keyedPart len t (listed data (keyField k v)) ilen
    else keyedPart len t data (max ilen (position k))

/-- The loop over the indices up to `ilen`, so many of which are left. -/
def indexedPart (t : List (Key × Seeing (List U8))) : Nat → Nat → List U8 → Seeing (List U8)
  | 0, _, idata => pure idata
  | left + 1, i, idata => do
    let v ← (rawget t (.index i)).getD (pure (latin "nil"))
    indexedPart t left (i + 1) (listed idata v)

/-- `_serialize_table` of the table `ref` with the length `len`. -/
def serializeTable (len ref : Nat) (t : List (Key × Seeing (List U8))) : Seeing (List U8) := do
  let seen ← get
  if seen.contains ref then failure
  else do
    set (ref :: seen)
    let (data, ilen) ← keyedPart len t [] 0
    let idata ← indexedPart t ilen 1 []
    return idata ++ (if data = [] ∨ idata = [] then [] else latin ", ") ++ data

mutual

/-- `serialize_data`. The length of a table with holes is any border: `len` gives it. -/
def serializeData (len : Nat → Nat) : Datum → Seeing (List U8)
  | .bool b => pure (if b then latin "true" else latin "false")
  | .number n => pure (decimal n)
  | .string s => pure (quoted s)
  | .table ref entries => do
    let text ← serializeTable (len ref) ref (writers len entries)
    return latin "\x7b " ++ text ++ latin " \x7d"

def writers (len : Nat → Nat) : List (Key × Datum) → List (Key × Seeing (List U8))
  | [] => []
  | (k, v) :: entries => (k, serializeData len v) :: writers len entries

end

/-- `serialize_data(val)`. -/
def serialized (len : Nat → Nat) (v : Datum) : Option (List U8) :=
  (serializeData len v []).map Prod.fst

end Serialize

section Restore

def isalpha (c : U8) : Bool :=
  (0x41 ≤ c.toNat && c.toNat ≤ 0x5a) || (0x61 ≤ c.toNat && c.toNat ≤ 0x7a)

def nameByte (c : U8) : Bool := isalpha c || isdigit c || c = 0x5f

def numeralByte (c : U8) : Bool := nameByte c || c = 0x2e

def skipSpace (s : List U8) : List U8 := s.dropWhile isspace

def readNumeral (s : List U8) : Option (Nat × List U8) :=
  let text := s.takeWhile numeralByte
  if text ≠ [] ∧ text.all isdigit then
    some (text.foldl (fun n d => 10 * n + (d.toNat - 0x30)) 0, s.dropWhile numeralByte)
  else none

def readName (s : List U8) : Option (Value Int × List U8) :=
  let text := s.takeWhile nameByte
  let rest := s.dropWhile nameByte
  if text = latin "nil" then some (.nil, rest)
  else if text = latin "true" then some (.bool true, rest)
  else if text = latin "false" then some (.bool false, rest)
  else none

def expect (c : U8) (s : List U8) : Option (List U8) :=
  match skipSpace s with
  | [] => none
  | d :: rest => if d = c then some rest else none

/-- A table constructor being evaluated: the table, how many items are stored in it, and the items
that are not stored yet. -/
structure Constructor where
  entries : List (Key × Value Int)
  stored : Nat
  pending : List (Value Int)

def storeFrom : List (Key × Value Int) → Nat → List (Value Int) → List (Key × Value Int)
  | entries, _, [] => entries
  | entries, i, v :: vs => storeFrom (assign entries (.index i) v) (i + 1) vs

/-- `OP_SETLIST`. -/
def Constructor.flush (t : Constructor) : Constructor :=
  ⟨storeFrom t.entries (t.stored + 1) t.pending, t.stored + t.pending.length, []⟩

/-- `closelistfield`: items are stored by fifties. -/
def Constructor.closeField (t : Constructor) : Constructor :=
  if t.pending.length = 50 then t.flush else t

def Constructor.listField (t : Constructor) (v : Value Int) : Constructor :=
  { t with pending := t.pending ++ [v] }

def Constructor.keyField (t : Constructor) (k : Key) (v : Value Int) : Constructor :=
  { t with entries := assign t.entries k v }

def asKey : Value Int → Option Key
  | .string s => some (.name s)
  | .number n => if 1 ≤ n then some (.index n.toNat) else none
  | _ => none

mutual

def readExp : Nat → List U8 → Option (Value Int × List U8)
  | 0, _ => none
  | fuel + 1, s =>
    match skipSpace s with
    | [] => none
    | c :: rest =>
      if c = 0x22 then (readString 0 rest).map fun r => (.string r.1, r.2)
      else if c = 0x7b then readFields fuel ⟨[], 0, []⟩ rest
      else if c = 0x2d then (readNumeral rest).map fun r => (.number (-r.1), r.2)
      else if isdigit c then (readNumeral (c :: rest)).map fun r => (.number r.1, r.2)
      else readName (c :: rest)

def readFields : Nat → Constructor → List U8 → Option (Value Int × List U8)
  | 0, _, _ => none
  | fuel + 1, t, s =>
    match skipSpace s with
    | [] => none
    | c :: rest =>
      if c = 0x7d then some (.table t.flush.entries, rest)
      else do
        let (t, s) ← readField fuel t.closeField (c :: rest)
        match skipSpace s with
        | [] => none
        | c :: rest =>
          if c = 0x2c ∨ c = 0x3b then readFields fuel t rest
          else if c = 0x7d then some (.table t.flush.entries, rest)
          else none

def readField : Nat → Constructor → List U8 → Option (Constructor × List U8)
  | 0, _, _ => none
  | fuel + 1, t, s =>
    if s.head? = some 0x5b then
      if s.tail.head? = some 0x5b ∨ s.tail.head? = some 0x3d then none
      else do
        let (k, s) ← readExp fuel s.tail
        let s ← expect 0x5d s
        let s ← expect 0x3d s
        let (v, s) ← readExp fuel s
        some (t.keyField (← asKey k) v, s)
    else do
      let (v, s) ← readExp fuel s
      some (t.listField v, s)

end

/-- `loadstring(chunk)()` of a chunk that returns one value. Three calls read at least one byte. -/
def loadReturn (chunk : List U8) : Option (Value Int) := do
  let s := skipSpace chunk
  if s.takeWhile nameByte = latin "return" then do
    let (v, rest) ← readExp (3 * s.length + 3) (s.dropWhile nameByte)
    if skipSpace rest = [] then some v else none
  else none

/-- `restore_data`. -/
def restoreData (str : List U8) : Option (Value Int) := loadReturn (latin "return " ++ str)

end Restore

end OpenwrtMtk.Luci.Session
