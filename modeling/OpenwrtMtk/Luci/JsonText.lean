import Mathlib.Data.List.Basic
import OpenwrtMtk.Luci.LuaValue

/-!
# luci.json

The encoder and the decoder of json.lua. The encoder is what it hands to `put`, piece by piece. The
decoder works on the part of the input that it has, `chunk`, and fetches the next of the pieces that are
still to come, `feeds`, where it needs more; behind the last there is nil. In the sink the pieces come
from the caller, each call resuming the decoder where it asked. Functions other than `luci.json.null`
are not among the values.
-/

namespace OpenwrtMtk.Luci.Json

open Toolkit

set_option autoImplicit false

variable {ν : Type}

section Encoder

/-- One byte of `Encoder.parse_string`. -/
def escapeByte (fastescape : Bool) (c : U8) : List U8 :=
  if fastescape then if c = 0x5c ∨ c = 0x22 then [0x5c, c] else [c]
  else if iscntrl c ∨ c = 0x5c ∨ c = 0x22 then
    latin "\\u00" ++ [hexDigit (c.toNat / 16), hexDigit (c.toNat % 16)]
  else [c]

def quoted (fastescape : Bool) (s : List U8) : List U8 :=
  0x22 :: (s.flatMap (escapeByte fastescape) ++ [0x22])

/-- `tostring` of a key. -/
def keyText : Key → List U8
  | .index n => digits n
  | .name s => s

/-- The entries with a comma between them, as the loops with `first` put them. -/
def separated : List (List (List U8)) → List (List U8)
  | [] => []
  | t :: ts => t ++ ts.flatMap fun t => latin "," :: t

/-- What `parse_iter` puts for a table of whose entries the pieces are given. -/
def putTable (fastescape : Bool) (texts : List (Key × List (List U8))) : List (List U8) :=
  if border texts = 0 ∧ texts ≠ [] then
    latin "\x7b" :: separated (texts.map fun x =>
      quoted fastescape (keyText x.1) :: latin ":" :: x.2) ++ [latin "\x7d"]
  else
    latin "[" :: separated ((List.range (border texts)).map fun i =>
      (texts.lookup (.index (i + 1))).getD []) ++ [latin "]"]

mutual

/-- What `Encoder.dispatch` puts for a value. -/
def puts (tostring : ν → List U8) (fastescape : Bool) : Value ν → List (List U8)
  | .nil | .null => [latin "null"]
  | .bool b => [if b then latin "true" else latin "false"]
  | .number x => [tostring x]
  | .string s => [quoted fastescape s]
  | .table entries => putTable fastescape (putsEntries tostring fastescape entries)

def putsEntries (tostring : ν → List U8) (fastescape : Bool) :
    List (Key × Value ν) → List (Key × List (List U8))
  | [] => []
  | (k, v) :: rest => (k, puts tostring fastescape v) :: putsEntries tostring fastescape rest

end

/-- The rest of a chunk in blocks of `size` bytes, and what stays in the buffer. -/
def blocks (size : Nat) : Nat → List U8 → List (List U8) × List U8
  | 0, chunk => ([], chunk)
  | fuel + 1, chunk =>
    if size < chunk.length then
      let (out, buffer) := blocks size fuel (chunk.drop size)
      (chunk.take size :: out, buffer)
    else ([], chunk)

/-- `Encoder.put`: what is yielded, and the buffer. -/
def put (buffersize : Nat) (buffer chunk : List U8) : List (List U8) × List U8 :=
  if buffersize < 2 then ([chunk], buffer)
  else if buffersize < buffer.length + chunk.length then
    let fbuffer := buffersize - buffer.length
    let (out, buffer') := blocks buffersize chunk.length (chunk.drop fbuffer)
    ((buffer ++ chunk.take fbuffer) :: out, buffer')
  else ([], buffer ++ chunk)

/-- `Encoder.source`: what it delivers until it returns nil. -/
def source (buffersize : Nat) : List U8 → List (List U8) → List (List U8)
  | buffer, [] => if buffer = [] then [] else [buffer]
  | buffer, chunk :: chunks =>
    let (out, buffer') := put buffersize buffer chunk
    out ++ source buffersize buffer' chunks

def encode (tostring : ν → List U8) (fastescape : Bool) (v : Value ν) : List U8 :=
  (source 1 [] (puts tostring fastescape v)).flatten

end Encoder

section Decoder

/-- The messages of `assert` and `error`. -/
inductive Fault where
  /-- "Unexpected EOS". -/
  | unexpectedEos
  /-- "Unexpected EOS while parsing a string". -/
  | unexpectedEosInString
  /-- "Unexpected char '%s'". -/
  | unexpectedChar (c : U8)
  /-- "Scope violation: Too many objects". -/
  | tooManyObjects
  /-- "Invalid character sequence". -/
  | invalidSequence
  /-- "Invalid number specification". -/
  | invalidNumber
  /-- 'Expected "'. -/
  | expectedQuote
  /-- "Invalid Unicode character". -/
  | invalidUnicode
  /-- "Unexpected escaping sequence '\\%s'". -/
  | unexpectedEscape (c : U8)
  /-- "Delimiter expected". -/
  | delimiterExpected
  /-- "Separator expected". -/
  | separatorExpected
  /-- The bound on the rounds of a loop is reached, which a bound above the length of the input excludes. -/
  | exhausted
  deriving DecidableEq

structure Input where
  chunk : List U8
  feeds : List (List U8)
  deriving DecidableEq

abbrev Decoding (α : Type) := StateT Input (Except Fault) α

/-- `chunk:sub(1, n)`. -/
def upTo (n : Nat) : Decoding (List U8) := fun s => .ok (s.chunk.take n, s)

/-- `chunk = chunk:sub(n + 1)`. -/
def sub (n : Nat) : Decoding Unit :=
  fun s => .ok ((), { s with chunk := s.chunk.drop n })

def fetchAtleastFrom (bytes : Nat) : List U8 → List (List U8) → Except Fault (Unit × Input)
  | chunk, [] => if chunk.length < bytes then .error .unexpectedEos else .ok ((), ⟨chunk, []⟩)
  | chunk, nchunk :: feeds =>
    if chunk.length < bytes then fetchAtleastFrom bytes (chunk ++ nchunk) feeds
    else .ok ((), ⟨chunk, nchunk :: feeds⟩)

def fetchAtleast (bytes : Nat) : Decoding Unit :=
  fun s => fetchAtleastFrom bytes s.chunk s.feeds

/-- Until a byte of the pattern is there: how many bytes stand before it. -/
def fetchUntilFrom (pattern : U8 → Bool) :
    List U8 → List (List U8) → Except Fault (Nat × Input)
  | chunk, [] =>
    match chunk.findIdx? pattern with
    | some start => .ok (start, ⟨chunk, []⟩)
    | none => .error .unexpectedEos
  | chunk, nchunk :: feeds =>
    match chunk.findIdx? pattern with
    | some start => .ok (start, ⟨chunk, nchunk :: feeds⟩)
    | none => fetchUntilFrom pattern (chunk ++ nchunk) feeds

def fetchUntil (pattern : U8 → Bool) : Decoding Nat :=
  fun s => fetchUntilFrom pattern s.chunk s.feeds

def parseSpaceFrom : List U8 → List (List U8) → Except Fault (Bool × Input)
  | chunk, [] =>
    match chunk.findIdx? fun c => !isspace c with
    | some start => .ok (true, ⟨chunk.drop start, []⟩)
    | none => .ok (false, ⟨[], []⟩)
  | chunk, nchunk :: feeds =>
    match chunk.findIdx? fun c => !isspace c with
    | some start => .ok (true, ⟨chunk.drop start, nchunk :: feeds⟩)
    | none => parseSpaceFrom nchunk feeds

/-- `parse_space`; false where it returns nil for the chunk. -/
def parseSpace : Decoding Bool := fun s => parseSpaceFrom s.chunk s.feeds

def fillFrom : List U8 → List (List U8) → Except Fault (Option U8 × Input)
  | c :: chunk, feeds => .ok (some c, ⟨c :: chunk, feeds⟩)
  | [], [] => .ok (none, ⟨[], []⟩)
  | [], nchunk :: feeds => fillFrom nchunk feeds

/-- Fetch while the chunk is empty: the first byte, or nothing at the end of the input. -/
def fill : Decoding (Option U8) := fun s => fillFrom s.chunk s.feeds

def parseLiteral (literal : List U8) (value : Value ν) : Decoding (Value ν) := do
  fetchAtleast literal.length
  let text ← upTo literal.length
  if text = literal then do
    sub literal.length
    pure value
  else throw .invalidSequence

/-- What `[^0-9eE.+-]` does not match. -/
def numeric (c : U8) : Bool :=
  isdigit c || c = 0x65 || c = 0x45 || c = 0x2e || c = 0x2b || c = 0x2d

def parseNumber (tonumber : List U8 → Option ν) : Decoding (Value ν) := do
  let start ← fetchUntil fun c => !numeric c
  let text ← upTo start
  match tonumber text with
  | some x => do
    sub start
    pure (.number x)
  | none => throw .invalidNumber

/-- `tonumber(s, 16)` of two bytes, which have no room for the prefix 0x: `strtoul` on the C string,
with white space after the digits. -/
def tonumber16 (s : List U8) : Option Nat :=
  let s := (s.takeWhile fun c => c ≠ 0).dropWhile isspace
  let negative := s.head? = some 0x2d
  let s := if s.head? = some 0x2d ∨ s.head? = some 0x2b then s.tail else s
  let digits := s.takeWhile fun c => (hexValue c).isSome
  let rest := (s.dropWhile fun c => (hexValue c).isSome).dropWhile isspace
  let n := digits.foldl (fun n c => n * 16 + (hexValue c).getD 0) 0
  if digits = [] ∨ rest ≠ [] then none
  else if negative then some ((2 ^ 32 - n) % 2 ^ 32) else some n

def utf8Encode (s1 s2 : Nat) : List U8 :=
  let n := s1 * 256 + s2
  if n ≤ 0x7f then [BitVec.ofNat 8 n]
  else if n ≤ 0x7ff then
    [BitVec.ofNat 8 ((n >>> 6 &&& 0x1f) ||| 0xc0), BitVec.ofNat 8 ((n &&& 0x3f) ||| 0x80)]
  else if n ≤ 0xffff then
    [BitVec.ofNat 8 ((n >>> 12 &&& 0x0f) ||| 0xe0),
      BitVec.ofNat 8 ((n >>> 6 &&& 0x3f) ||| 0x80), BitVec.ofNat 8 ((n &&& 0x3f) ||| 0x80)]
  else if n ≤ 0x10ffff then
    [BitVec.ofNat 8 ((n >>> 18 &&& 0x07) ||| 0xf0),
      BitVec.ofNat 8 ((n >>> 12 &&& 0x3f) ||| 0x80),
      BitVec.ofNat 8 ((n >>> 6 &&& 0x3f) ||| 0x80), BitVec.ofNat 8 ((n &&& 0x3f) ||| 0x80)]
  else latin "?"

/-- What the byte after a backslash stands for, `u` apart. -/
def escaped (c : U8) : Option U8 :=
  if c = 0x22 ∨ c = 0x5c ∨ c = 0x2f then some c
  else if c = 0x62 then some 0x08
  else if c = 0x66 then some 0x0c
  else if c = 0x6e then some 0x0a
  else if c = 0x72 then some 0x0d
  else if c = 0x74 then some 0x09
  else none

def parseUnicode : Decoding (List U8) := do
  fetchAtleast 4
  let text ← upTo 4
  match tonumber16 (text.take 2), tonumber16 (text.drop 2) with
  | some s1, some s2 => do
    sub 4
    pure (utf8Encode s1 s2)
  | _, _ => throw .invalidUnicode

def parseEscape : Decoding (List U8) := do
  sub 1
  fetchAtleast 1
  let text ← upTo 1
  sub 1
  match text with
  | [] => pure []
  | c :: _ =>
    if c = 0x75 then parseUnicode
    else
      match escaped c with
      | some d => pure [d]
      | none => throw (.unexpectedEscape c)

/-- `[\"]`. -/
def stops (c : U8) : Bool := c = 0x5c || c = 0x22

def scanStringFrom (str : List U8) :
    List U8 → List (List U8) → Except Fault (List U8 × Input)
  | chunk, [] =>
    match chunk.findIdx? stops with
    | some spos => .ok (str ++ chunk.take spos, ⟨chunk.drop spos, []⟩)
    | none => .error .unexpectedEosInString
  | chunk, nchunk :: feeds =>
    match chunk.findIdx? stops with
    | some spos => .ok (str ++ chunk.take spos, ⟨chunk.drop spos, nchunk :: feeds⟩)
    | none => scanStringFrom (str ++ chunk) nchunk feeds

/-- The rounds of `parse_string` up to the next quote or backslash, where the chunk then begins. -/
def scanString (str : List U8) : Decoding (List U8) :=
  fun s => scanStringFrom str s.chunk s.feeds

def stringLoop : Nat → List U8 → Decoding (List U8)
  | 0, _ => throw .exhausted
  | fuel + 1, str => do
    let str ← scanString str
    let char ← upTo 1
    if char = [0x22] then do
      sub 1
      pure str
    else do
      let object ← parseEscape
      stringLoop fuel (str ++ object)

def parseString (fuel : Nat) : Decoding (List U8) := do
  let char ← upTo 1
  if char = [0x22] then do
    sub 1
    stringLoop fuel []
  else throw .expectedQuote

/-- `parse_delimiter`. What `parse_space` leaves begins with another byte, so there are at most two
rounds. -/
def delimiterLoop (delimiter : List U8) : Nat → Decoding (Option U8)
  | 0 => throw .exhausted
  | fuel + 1 => do
    fetchAtleast 1
    let text ← upTo 1
    match text with
    | [] => pure none
    | char :: _ =>
      if isspace char then do
        let more ← parseSpace
        if more then delimiterLoop delimiter fuel else throw .unexpectedEos
      else if char ∈ delimiter then do
        sub 1
        pure (some char)
      else pure none

def parseDelimiter (delimiter : List U8) : Decoding (Option U8) := delimiterLoop delimiter 2

/-- The rounds of `parse_array`; `nextp` entries are there. -/
def arrayLoop (dispatch : Decoding (Value ν)) :
    Nat → Nat → List (Key × Value ν) → Decoding (Value ν)
  | 0, _, _ => throw .exhausted
  | fuel + 1, nextp, array => do
    let object ← dispatch
    let array := assign array (.index (nextp + 1)) object
    let delimiter ← parseDelimiter [0x2c, 0x5d]
    match delimiter with
    | none => throw .delimiterExpected
    | some c => if c = 0x5d then pure (.table array) else arrayLoop dispatch fuel (nextp + 1) array

def parseArray (dispatch : Decoding (Value ν)) (fuel : Nat) : Decoding (Value ν) := do
  sub 1
  let close ← parseDelimiter [0x5d]
  match close with
  | some _ => pure (.table [])
  | none => arrayLoop dispatch fuel 0 []

/-- The rounds of `parse_object`. -/
def objectLoop (dispatch : Decoding (Value ν)) :
    Nat → List (Key × Value ν) → Decoding (Value ν)
  | 0, _ => throw .exhausted
  | fuel + 1, array => do
    let more ← parseSpace
    if more then do
      let name ← parseString fuel
      let separator ← parseDelimiter [0x3a]
      match separator with
      | none => throw .separatorExpected
      | some _ => do
        let object ← dispatch
        let array := assign array (.name name) object
        let delimiter ← parseDelimiter [0x2c, 0x7d]
        match delimiter with
        | none => throw .delimiterExpected
        | some c => if c = 0x7d then pure (.table array) else objectLoop dispatch fuel array
    else throw .unexpectedEos

def parseObject (dispatch : Decoding (Value ν)) (fuel : Nat) : Decoding (Value ν) := do
  sub 1
  let close ← parseDelimiter [0x7d]
  match close with
  | some _ => pure (.table [])
  | none => objectLoop dispatch fuel []

/-- `Decoder.parsers`, and the patterns behind it, for a byte that is no white space. -/
def parse (tonumber : List U8 → Option ν) (cnull : Bool) (dispatch : Decoding (Value ν))
    (fuel : Nat) (char : U8) : Decoding (Value ν) :=
  if char = 0x22 then do
    let s ← parseString fuel
    pure (.string s)
  else if char = 0x74 then parseLiteral (latin "true") (.bool true)
  else if char = 0x66 then parseLiteral (latin "false") (.bool false)
  else if char = 0x6e then parseLiteral (latin "null") (if cnull then .null else .nil)
  else if char = 0x5b then parseArray dispatch fuel
  else if char = 0x7b then parseObject dispatch fuel
  else if isdigit char || char = 0x2d then parseNumber tonumber
  else throw (.unexpectedChar char)

/-- Behind the loop of `dispatch`: the object that was set, if one was. -/
def finish : Option (Value ν) → Decoding (Value ν)
  | some object => pure object
  | none => throw .unexpectedEos

/-- `Decoder.dispatch`, where `object` is set or not and `fuel` bounds the rounds and the nesting. -/
def dispatch (tonumber : List U8 → Option ν) (cnull : Bool) :
    Nat → Bool → Option (Value ν) → Decoding (Value ν)
  | 0, _, _ => throw .exhausted
  | fuel + 1, strict, object => do
    let first ← fill
    match first with
    | none => if strict then throw .unexpectedEos else finish object
    | some char =>
      if isspace char then do
        let more ← parseSpace
        if more then dispatch tonumber cnull fuel strict object else finish object
      else do
        let robject ← parse tonumber cnull (dispatch tonumber cnull fuel true none) fuel char
        if object.isSome then throw .tooManyObjects
        else if strict then pure robject
        else dispatch tonumber cnull fuel strict (some robject)

/-- Feed the chunks to the sink of a decoder, and nil after them: the first error, or what `get` then
returns. -/
def feedSink (tonumber : List U8 → Option ν) (cnull : Bool) (chunks : List (List U8)) :
    Except Fault (Value ν) :=
  match chunks with
  | [] => .error .unexpectedEos
  | chunk :: feeds =>
    (dispatch tonumber cnull (chunks.flatten.length + 1) false none ⟨chunk, feeds⟩).map (·.1)

/-- `decode`: an `ActiveDecoder` whose source has nothing more than its first chunk. -/
def decode (tonumber : List U8 → Option ν) (cnull : Bool) (json : List U8) : Value ν :=
  match dispatch tonumber cnull (json.length + 1) true none ⟨json, []⟩ with
  | .ok (object, _) => if object.truthy then object else .nil
  | .error _ => .nil

end Decoder

end OpenwrtMtk.Luci.Json

/-!
## The texts that the JSON encoder writes

Whatever the size of its buffer, the source of an encoder delivers what was put. The text of a table is
its brackets around the texts of its entries with a comma between them.
-/

namespace OpenwrtMtk.Luci.Json

open Toolkit

set_option autoImplicit false

variable {ν : Type}

section Source

variable {buffersize : Nat}

theorem blocks_flatten (size fuel : Nat) (chunk : List U8) :
    (blocks size fuel chunk).1.flatten ++ (blocks size fuel chunk).2 = chunk := by
  induction fuel generalizing chunk with
  | zero => rfl
  | succ fuel ih =>
    unfold blocks
    split
    · simp [ih]
    · rfl

theorem put_flatten {buffer : List U8} (chunk : List U8) (h : buffersize < 2 → buffer = []) :
    (put buffersize buffer chunk).1.flatten ++ (put buffersize buffer chunk).2 = buffer ++ chunk ∧
      (buffersize < 2 → (put buffersize buffer chunk).2 = []) := by
  unfold put
  split_ifs with hsmall hlong
  · simp [h hsmall]
  · refine ⟨?_, fun hsmall' => absurd hsmall' hsmall⟩
    have hblocks := blocks_flatten buffersize chunk.length
      (chunk.drop (buffersize - buffer.length))
    simp only [List.flatten_cons, List.append_assoc, hblocks, List.take_append_drop]
  · exact ⟨by simp, fun hsmall' => absurd hsmall' hsmall⟩

theorem source_flatten (buffersize : Nat) (chunks : List (List U8)) :
    (source buffersize [] chunks).flatten = chunks.flatten := by
  have hall : ∀ (chunks : List (List U8)) (buffer : List U8), (buffersize < 2 → buffer = []) →
      (source buffersize buffer chunks).flatten = buffer ++ chunks.flatten := by
    intro chunks
    induction chunks with
    | nil =>
      intro buffer _
      unfold source
      split
      · simp [*]
      · simp
    | cons chunk chunks ih =>
      intro buffer hbuffer
      obtain ⟨hput, hnext⟩ := put_flatten chunk hbuffer
      unfold source
      rw [List.flatten_append, ih _ hnext, ← List.append_assoc, hput, List.flatten_cons,
        List.append_assoc]
  rw [hall chunks [] fun _ => rfl, List.nil_append]

end Source

section Texts

variable {N : LuaNumbers ν} {v : Value ν}

def text (N : LuaNumbers ν) (v : Value ν) : List U8 := (puts N.tostring false v).flatten

theorem encode_eq_text (N : LuaNumbers ν) (v : Value ν) : encode N.tostring false v = text N v :=
  source_flatten 1 _

def joined : List (List U8) → List U8
  | [] => []
  | t :: ts => t ++ ts.flatMap fun t => 0x2c :: t

theorem separated_flatten (ts : List (List (List U8))) :
    (separated ts).flatten = joined (ts.map List.flatten) := by
  cases ts with
  | nil => rfl
  | cons t ts =>
    have hcomma : latin "," = [0x2c] := by decide
    have hrest : (ts.flatMap fun t => [0x2c] :: t).flatten =
        (ts.map List.flatten).flatMap fun t => 0x2c :: t := by
      induction ts with
      | nil => rfl
      | cons t ts ih =>
        rw [List.flatMap_cons, List.flatten_append, ih]
        rfl
    rw [separated, joined.eq_def, hcomma, List.map_cons, List.flatten_append, hrest]

theorem lookup_arrayEntries {α : Type} (ts : List α) (i j : Nat) :
    (arrayEntries i ts).lookup (.index (i + j)) = ts[j]? := by
  induction ts generalizing i j with
  | nil => rfl
  | cons t ts ih =>
    cases j with
    | zero => simp [arrayEntries]
    | succ j =>
      have hne : (Key.index (i + (j + 1)) == Key.index i) = false := by simp
      rw [arrayEntries, List.lookup_cons, hne]
      have hnext := ih (i + 1) j
      rw [show i + 1 + j = i + (j + 1) by omega] at hnext
      exact hnext

theorem any_arrayEntries {α : Type} (ts : List α) (i n : Nat) :
    ((arrayEntries i ts).any fun x => decide (x.1 = .index n)) =
      decide (i ≤ n ∧ n < i + ts.length) := by
  induction ts generalizing i with
  | nil => simp [arrayEntries]
  | cons t ts ih =>
    rw [arrayEntries, List.any_cons, ih, List.length_cons]
    rw [← Bool.decide_or]
    apply decide_eq_decide.mpr
    simp only [Key.index.injEq]
    omega

theorem length_arrayEntries {α : Type} (ts : List α) (i : Nat) :
    (arrayEntries i ts).length = ts.length := by
  induction ts generalizing i with
  | nil => rfl
  | cons t ts ih => simp [arrayEntries, ih]

theorem border_arrayEntries {α : Type} (ts : List α) : border (arrayEntries 1 ts) = ts.length := by
  have hfrom : ∀ fuel n, n ≤ ts.length → ts.length ≤ n + fuel →
      borderFrom (arrayEntries 1 ts) fuel n = ts.length := by
    intro fuel
    induction fuel with
    | zero =>
      intro n hle hge
      rw [borderFrom]
      omega
    | succ fuel ih =>
      intro n hle hge
      rw [borderFrom, any_arrayEntries]
      split
      · rename_i hin
        have hin' := of_decide_eq_true hin
        exact ih (n + 1) (by omega) (by omega)
      · rename_i hout
        have hout' : ¬ (1 ≤ n + 1 ∧ n + 1 < 1 + ts.length) := by simpa using hout
        omega
  rw [border, length_arrayEntries]
  exact hfrom ts.length 0 (Nat.zero_le _) (by omega)

theorem putsEntries_arrayEntries (tostring : ν → List U8) (i : Nat) (vs : List (Value ν)) :
    putsEntries tostring false (arrayEntries i vs) =
      arrayEntries i (vs.map (puts tostring false)) := by
  induction vs generalizing i with
  | nil => simp [arrayEntries, putsEntries]
  | cons v vs ih => simp [arrayEntries, putsEntries, ih]

theorem text_array (N : LuaNumbers ν) (vs : List (Value ν)) :
    text N (.table (arrayEntries 1 vs)) = 0x5b :: (joined (vs.map (text N)) ++ [0x5d]) := by
  have hrange : ∀ ts : List (List (List U8)), (List.range ts.length).map
      (fun i => ((arrayEntries 1 ts).lookup (.index (i + 1))).getD []) = ts := by
    intro ts
    apply List.ext_getElem?
    intro i
    rw [List.getElem?_map]
    by_cases hi : i < ts.length
    · rw [List.getElem?_range hi, Option.map_some, Nat.add_comm i 1, lookup_arrayEntries,
        List.getElem?_eq_getElem hi]
      rfl
    · rw [List.getElem?_eq_none (by simpa using hi), List.getElem?_eq_none (by omega)]
      rfl
  have hnot : ¬ (border (arrayEntries 1 (vs.map (puts N.tostring false))) = 0 ∧
      arrayEntries 1 (vs.map (puts N.tostring false)) ≠ []) := by
    rw [border_arrayEntries]
    rintro ⟨hzero, hne⟩
    exact hne (by rw [List.length_eq_zero_iff.mp hzero]; rfl)
  have hopen : latin "[" = [0x5b] := by decide
  have hclose : latin "]" = [0x5d] := by decide
  rw [text, puts, putsEntries_arrayEntries, putTable, if_neg hnot, border_arrayEntries, hrange]
  simp [separated_flatten, hopen, hclose]
  rfl

def fieldEntries {α : Type} (fields : List (List U8 × α)) : List (Key × α) :=
  fields.map fun f => (.name f.1, f.2)

theorem border_fieldEntries {α : Type} (fields : List (List U8 × α)) :
    border (fieldEntries fields) = 0 := by
  have hnone : ((fieldEntries fields).any fun x => decide (x.1 = .index (0 + 1))) = false := by
    simp [fieldEntries]
  unfold border
  cases (fieldEntries fields).length with
  | zero => rfl
  | succ fuel => rw [borderFrom, hnone]; rfl

theorem putsEntries_fieldEntries (tostring : ν → List U8) (fields : List (List U8 × Value ν)) :
    putsEntries tostring false (fieldEntries fields) =
      fieldEntries (fields.map fun f => (f.1, puts tostring false f.2)) := by
  induction fields with
  | nil => simp [fieldEntries, putsEntries]
  | cons f fields ih =>
    simp only [fieldEntries, List.map_cons, putsEntries] at ih ⊢
    rw [ih]

def fieldText (N : LuaNumbers ν) (f : List U8 × Value ν) : List U8 :=
  quoted false f.1 ++ 0x3a :: text N f.2

theorem text_object (N : LuaNumbers ν) {fields : List (List U8 × Value ν)} (hne : fields ≠ []) :
    text N (.table (fieldEntries fields)) =
      0x7b :: (joined (fields.map (fieldText N)) ++ [0x7d]) := by
  have hboth : border (fieldEntries (fields.map fun f => (f.1, puts N.tostring false f.2))) = 0 ∧
      fieldEntries (fields.map fun f => (f.1, puts N.tostring false f.2)) ≠ [] :=
    ⟨border_fieldEntries _, by simpa [fieldEntries] using hne⟩
  have hopen : latin "\x7b" = [0x7b] := by decide
  have hclose : latin "\x7d" = [0x7d] := by decide
  have hcolon : latin ":" = [0x3a] := by decide
  rw [text, puts, putsEntries_fieldEntries, putTable, if_pos hboth]
  simp [separated_flatten, hopen, hclose, hcolon, fieldEntries, keyText, Function.comp_def]
  rfl

end Texts

end OpenwrtMtk.Luci.Json
