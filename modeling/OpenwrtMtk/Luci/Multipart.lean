import OpenwrtMtk.Lib.Separated
import OpenwrtMtk.Luci.HttpParams

/-!
# Multipart bodies of luci.http.protocol

`mimedecode_message_body`: the sink looks for the boundary in the last two chunks, and what stands
before it belongs to the header or to the content of a section. The tables that a file callback is
called with, and the pieces of the files, are kept in the order of its calls.
-/

namespace OpenwrtMtk.Luci.Http

open Toolkit

set_option autoImplicit false

def crlf : List U8 := [0x0d, 0x0a]

/-- `field`: the table of a section. -/
structure MimeField where
  headers : List (List U8 × List U8)
  name : Option (List U8)
  file : Option (List U8)
  deriving DecidableEq

/-- `{ headers = { } }`. -/
def MimeField.empty : MimeField := ⟨[], none, none⟩

/-- `field.headers[k] = v`. -/
def setHeader (headers : List (List U8 × List U8)) (k v : List U8) : List (List U8 × List U8) :=
  match headers with
  | [] => [(k, v)]
  | x :: headers => if x.1 = k then (k, v) :: headers else x :: setHeader headers k v

section ParseHeaders

def isUpper (c : U8) : Bool := 0x41 ≤ c.toNat && c.toNat ≤ 0x5a

/-- `[A-Za-z0-9%-_]`. -/
def headerChar (c : U8) : Bool :=
  isUpper c || (0x61 ≤ c.toNat && c.toNat ≤ 0x7a) || isdigit c || c = 0x2d || c = 0x5f

/-- `[^\r\n]`. -/
def inLine (c : U8) : Bool := c ≠ 0x0d && c ≠ 0x0a

/-- The value of a header behind its blanks, the last of which belongs to it where nothing else
does. -/
def headerValue (blanks rest : List U8) : List U8 :=
  let v := rest.takeWhile inLine
  if v = [] ∧ 2 ≤ blanks.length then [0x20] else v

/-- A match of `^([A-Z][A-Za-z0-9%-_]+): +([^\r\n]+)\r\n`, and what stands behind it. -/
def headerLine (chunk : List U8) : Option (List U8 × List U8 × List U8) :=
  let name := chunk.tail.takeWhile headerChar
  let rest := chunk.tail.dropWhile headerChar
  let blanks := rest.tail.takeWhile (· = 0x20)
  let line := rest.tail.dropWhile (· = 0x20)
  let behind := line.dropWhile inLine
  if chunk.head?.any isUpper = true ∧ name ≠ [] ∧ rest.head? = some 0x3a ∧ blanks ≠ [] ∧
      headerValue blanks line ≠ [] ∧ crlf.isPrefixOf behind = true then
    some (chunk.take 1 ++ name, headerValue blanks line, behind.drop 2)
  else none

/-- The loop of `parse_headers`. Every turn takes a part of the chunk away. -/
def headerLines : Nat → List (List U8 × List U8) → List U8 →
    List (List U8 × List U8) × List U8
  | 0, headers, chunk => (headers, chunk)
  | n + 1, headers, chunk =>
    match headerLine chunk with
    | some (k, v, chunk) => headerLines n (setHeader headers k v) chunk
    | none => (headers, chunk)

/-- `match('name="(.-)"')`. -/
def dispositionName (value : List U8) : Option (List U8) :=
  let opening := latin "name=\""
  (firstAt opening value).bind fun i =>
    let rest := value.drop (i + opening.length)
    if 0x22 ∈ rest then some (rest.takeWhile (· ≠ 0x22)) else none

/-- `match('filename="(.+)"$')`. -/
def dispositionFile (value : List U8) : Option (List U8) :=
  let opening := latin "filename=\""
  (firstAt opening value).bind fun i =>
    let rest := value.drop (i + opening.length)
    if 2 ≤ rest.length ∧ rest.getLast? = some 0x22 then some rest.dropLast else none

/-- The end of the headers: the names the section has, and its type. -/
def MimeField.finish (field : MimeField) : MimeField :=
  let field :=
    match field.headers.lookup (latin "Content-Disposition") with
    | some value =>
      if (latin "form-data; ").isPrefixOf value then
        { field with name := dispositionName value, file := dispositionFile value }
      else field
    | none => field
  if (field.headers.lookup (latin "Content-Type")).isNone then
    { field with headers := setHeader field.headers (latin "Content-Type") (latin "text/plain") }
  else field

end ParseHeaders

inductive MimeError where
  | contentType | exceedsContentLength | sectionHeader | disposition | luaError
  deriving DecidableEq

/-- `store`: nil, the file callback, or the function that appends to a parameter. -/
inductive MimeStore where
  | none | filecb | param (name : List U8)
  deriving DecidableEq

/-- A call of the file callback. -/
structure FileCall where
  field : MimeField
  buf : List U8
  eof : Bool
  deriving DecidableEq

/-- What the sections have left behind. -/
structure MimeParse where
  inhdr : Bool
  field : MimeField
  store : MimeStore
  params : Params
  calls : List FileCall

def orLuaError {α : Type} (x : Option α) : Except MimeError α :=
  match x with
  | some a => .ok a
  | none => .error .luaError

/-- `store( field, buf, eof )`. -/
def callStore (s : MimeParse) (buf : List U8) (eof : Bool) : Except MimeError MimeParse :=
  match s.store with
  | .none => .error .luaError
  | .filecb => .ok { s with calls := s.calls ++ [⟨s.field, buf, eof⟩] }
  | .param name => (orLuaError (appendval s.params name buf)).map fun params => { s with params }

/-- `parse_headers`; `filecb` says whether there is a file callback. -/
def parseHeaders (filecb : Bool) (s : MimeParse) (chunk : List U8) :
    Except MimeError (MimeParse × List U8 × Bool) :=
  let (headers, chunk) := headerLines chunk.length s.field.headers chunk
  let s := { s with field := { s.field with headers } }
  if crlf.isPrefixOf chunk then
    let chunk := chunk.drop 2
    let field := s.field.finish
    match field.name, (if filecb then field.file else none) with
    | some name, some file =>
      (orLuaError (appendval (initval s.params name) name file)).map fun params =>
        ({ s with field, params, store := .filecb }, chunk, true)
    | some name, none =>
      .ok ({ s with field, params := initval s.params name, store := .param name }, chunk, true)
    | none, _ => .ok ({ s with field, store := .none }, chunk, true)
  else .ok (s, chunk, false)

def delimiter (boundary : List U8) : List U8 := crlf ++ [0x2d, 0x2d] ++ boundary ++ crlf

def closeDelimiter (boundary : List U8) : List U8 :=
  crlf ++ [0x2d, 0x2d] ++ boundary ++ [0x2d, 0x2d] ++ crlf

/-- Where the next delimiter starts, and where it ends. The last one is looked for where there is
no other. -/
def findDelimiter (boundary data : List U8) : Option (Nat × Nat) :=
  match firstAt (delimiter boundary) data with
  | some i => some (i, i + (delimiter boundary).length)
  | none =>
    (firstAt (closeDelimiter boundary) data).map fun i => (i, i + (closeDelimiter boundary).length)

def endSection (filecb : Bool) (s : MimeParse) (predata : List U8) : Except MimeError MimeParse := do
  let (s, predata) ← (if s.inhdr then do
      let (s, predata, eof) ← parseHeaders filecb s predata
      if eof = false then .error .sectionHeader
      else if s.field.name.isNone then .error .disposition
      else .ok (s, predata)
    else .ok (s, predata))
  if s.store = .none then .ok s else callStore s predata true

/-- The loop over the delimiters in `data`, each of which takes a part of it away. -/
def sections (filecb : Bool) (boundary : List U8) : Nat → MimeParse → List U8 → Bool →
    Except MimeError (MimeParse × List U8 × Bool)
  | 0, s, data, found => .ok (s, data, found)
  | n + 1, s, data, found =>
    match findDelimiter boundary data with
    | none => .ok (s, data, found)
    | some (spos, epos) => do
      let s ← endSection filecb s (data.take spos)
      let (s, data, eof) ← parseHeaders filecb { s with field := .empty } (data.drop epos)
      sections filecb boundary n { s with inhdr := !eof } data true

end OpenwrtMtk.Luci.Http
