import OpenwrtMtk.Luci.Characters

/-!
# Form parameters of luci.http.protocol

`urlencode`, `urldecode`, their forms for tables, and `urldecode_message_body`. A table of parameters
is the list of its entries in the order in which `pairs` enumerates them; two are equal when they
hold the same under every name.
-/

namespace OpenwrtMtk.Luci.Http

open Toolkit

set_option autoImplicit false

inductive Param where
  | text (s : List U8)
  | array (ss : List (List U8))
  deriving DecidableEq

abbrev Params := List (List U8 × Param)

def httpMaxContent : Nat := 1024 * 8

/-- `[a-zA-Z0-9$_%-%.%+!*'(),]`, which `urlencode` leaves as it is. -/
def unescaped (c : U8) : Bool :=
  (0x61 ≤ c.toNat && c.toNat ≤ 0x7a) || (0x41 ≤ c.toNat && c.toNat ≤ 0x5a) || isdigit c ||
    [0x24, 0x5f, 0x2d, 0x2e, 0x2b, 0x21, 0x2a, 0x27, 0x28, 0x29, 0x2c].contains c

/-- `__chrenc` where the class matches. -/
def chrenc (c : U8) : List U8 :=
  if unescaped c then [c] else [0x25, hexDigit (c.toNat / 16), hexDigit (c.toNat % 16)]

def urlencode (str : List U8) : List U8 := str.flatMap chrenc

/-- `str:gsub( "%%([a-fA-F0-9][a-fA-F0-9])", __chrdec )`. -/
def decodeEscapes : List U8 → List U8
  | c :: a :: b :: str =>
    match if c = 0x25 then hexValue a else none, hexValue b with
    | some x, some y => BitVec.ofNat 8 (16 * x + y) :: decodeEscapes str
    | _, _ => c :: decodeEscapes (a :: b :: str)
  | str => str

/-- `str:gsub( "+", " " )`. -/
def plusToBlank (str : List U8) : List U8 := str.map fun c => if c = 0x2b then 0x20 else c

def urldecode (str : List U8) : List U8 := decodeEscapes (plusToBlank str)

def assignParam (tbl : Params) (key : List U8) (p : Param) : Params :=
  match tbl with
  | [] => [(key, p)]
  | x :: tbl => if x.1 = key then (key, p) :: tbl else x :: assignParam tbl key p

section UrldecodeParams

/-- What stands behind the last question mark that a character other than one follows. -/
def behindQuery : List U8 → Option (List U8)
  | [] => none
  | c :: url =>
    match behindQuery url with
    | some rest => some rest
    | none => if c = 0x3f ∧ url ≠ [] ∧ url.head? ≠ some 0x3f then some url else none

/-- `url:gsub( "^.+%?([^?]+)", "%1" )`. -/
def stripQuery (url : List U8) : List U8 := (behindQuery url.tail).getD url

def isSeparator (c : U8) : Bool := c = 0x26 || c = 0x3b

/-- `pair:match("^([^=]+)")`. -/
def pairKey (pair : List U8) : Option (List U8) :=
  let key := pair.takeWhile (· ≠ 0x3d)
  if key = [] then none else some key

/-- `pair:match("^[^=]+=(.+)$")`. -/
def pairValue (pair : List U8) : Option (List U8) :=
  match pair.dropWhile (· ≠ 0x3d) with
  | _ :: v => if pair.takeWhile (· ≠ 0x3d) = [] ∨ v = [] then none else some v
  | [] => none

def storeParam (params : Params) (key val : List U8) : Params :=
  match params.lookup key with
  | none => assignParam params key (.text val)
  | some (.text s) => assignParam params key (.array [s, val])
  | some (.array ss) => assignParam params key (.array (ss ++ [val]))

def storePair (params : Params) (pair : List U8) : Params :=
  match (pairKey pair).map urldecode with
  | none => params
  | some key =>
    if key = [] then params
    else storeParam params key (((pairValue pair).map urldecode).getD [])

def urldecodeParams (url : List U8) (tbl : Params) : Params :=
  ((stripQuery url).splitOnP isSeparator |>.filter (· ≠ [])).foldl storePair tbl

end UrldecodeParams

section UrlencodeParams

def Param.strings : Param → List (List U8)
  | .text s => [s]
  | .array ss => ss

/-- `urlencode(k) .. "=" .. urlencode(v)`. -/
def encodePair (key val : List U8) : List U8 := urlencode key ++ [0x3d] ++ urlencode val

def urlencodeParams (tbl : Params) : List U8 :=
  tbl.foldl (fun enc x => x.2.strings.foldl (fun enc v =>
    enc ++ (if enc ≠ [] then [0x26] else []) ++ encodePair x.1 v) enc) []

end UrlencodeParams

section MessageBody

inductive BodyError where
  | exceedsContentLength | exceedsMaximum | luaError
  deriving DecidableEq

/-- `__initval`. -/
def initval (tbl : Params) (key : List U8) : Params :=
  match tbl.lookup key with
  | none => assignParam tbl key (.text [])
  | some (.text s) => assignParam tbl key (.array [s, []])
  | some (.array ss) => assignParam tbl key (.array (ss ++ [[]]))

/-- The value that `__appendval` and `__finishval` change: the string, or the last of an array. -/
def changeLast (f : List U8 → List U8) : Param → Param
  | .text s => .text (f s)
  | .array ss => .array (ss.modify (ss.length - 1) f)

/-- `__appendval`. -/
def appendval (tbl : Params) (key chunk : List U8) : Option Params :=
  (tbl.lookup key).map fun p => assignParam tbl key (changeLast (· ++ chunk) p)

/-- `__finishval`. -/
def finishval (tbl : Params) (key : List U8) (handler : List U8 → List U8) : Option Params :=
  (tbl.lookup key).map fun p => assignParam tbl key (changeLast handler p)

/-- `pair:match("^(.-)=")`. -/
def bodyKey (pair : List U8) : Option (List U8) :=
  if 0x3d ∈ pair then some (pair.takeWhile (· ≠ 0x3d)) else none

/-- `pair:match("=([^%s]*)%s*$")`. -/
def bodyValue : List U8 → Option (List U8)
  | [] => none
  | c :: pair =>
    if c = 0x3d ∧ (pair.dropWhile (!isspace ·)).all isspace then some (pair.takeWhile (!isspace ·))
    else bodyValue pair

def bodyPair (params : Params) (pair : List U8) : Option Params :=
  match bodyKey pair with
  | none => some params
  | some key =>
    if key = [] then some params
    else do
      let val ← bodyValue pair
      let params ← appendval (initval params key) key val
      finishval params key urldecode

/-- The loop of the sink: `pair` is what it has read since the last separator. -/
def bodyPairs (pair : List U8) : List U8 → Params → Option (List U8 × Params)
  | [], params => some (pair, params)
  | c :: data, params =>
    if isSeparator c then (bodyPair params pair).bind fun params => bodyPairs [] data params
    else bodyPairs (pair ++ [c]) data params

structure BodyState where
  tlen : Nat
  lchunk : Option (List U8)
  params : Params

/-- The sink of `urldecode_message_body`; `none` is the end of the source. -/
def bodySink (contentLength : Option Nat) (s : BodyState) (chunk : Option (List U8)) :
    Except BodyError BodyState :=
  let tlen := s.tlen + (chunk.map List.length).getD 0
  if contentLength.any (· + 2 < tlen) then .error .exceedsContentLength
  else if httpMaxContent < tlen then .error .exceedsMaximum
  else
    match s.lchunk, chunk with
    | none, some chunk => .ok { s with tlen, lchunk := some chunk }
    | none, none => .ok { s with tlen }
    | some lchunk, chunk =>
      match bodyPairs [] (lchunk ++ chunk.getD [0x26]) s.params with
      | some (rest, params) => .ok ⟨tlen, some rest, params⟩
      | none => .error .luaError

/-- `ltn12.pump.all`: the chunks of the source, then its end. -/
def urldecodeMessageBody (contentLength : Option Nat) (params : Params) (chunks : List (List U8)) :
    Except BodyError Params := do
  let s ← (chunks.map some ++ [none]).foldlM (bodySink contentLength) ⟨0, none, params⟩
  return s.params

end MessageBody

end OpenwrtMtk.Luci.Http
