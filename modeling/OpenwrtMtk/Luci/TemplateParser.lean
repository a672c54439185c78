import Mathlib.Data.List.DropRight
import Mathlib.Data.List.Infix
import OpenwrtMtk.Luci.Characters

/-!
# The template parser of LuCI

The reader that hands a template to the Lua compiler chunk by chunk: `template_open`,
`template_text`, `template_code`, `template_format_chunk` and `template_reader`. Pointers into the
mapping are indices of `file`. A read of a byte that is not mapped and a copy of a negative length
have no result. The catalog of translations is a parameter.
-/

namespace OpenwrtMtk.Luci

open Toolkit

set_option autoImplicit false

/-- `T_TYPE_INIT` to `T_TYPE_EOF`. -/
inductive ChunkType where
  | init | text | comment | expr | incl | i18n | i18nRaw | code | eof
  deriving DecidableEq

/-- `struct template_chunk`. -/
structure Chunk where
  s : Nat
  e : Nat
  type : ChunkType
  line : Nat
  deriving DecidableEq

/-- `struct template_parser`; `file` is the mapped content. -/
structure Parser where
  file : List U8
  off : Nat
  line : Nat
  inExpr : Bool
  stripBefore : Bool
  stripAfter : Bool
  prv : Chunk
  cur : Chunk
  deriving DecidableEq

/-- `gen_code`: what stands before and after the content of a chunk. -/
def genCode : ChunkType → List U8 × List U8
  | .init => ([], [])
  | .text => (latin "write(\"", latin "\")")
  | .comment => ([], [])
  | .expr => (latin "write(tostring(", latin " or \"\"))")
  | .incl => (latin "include(\"", latin "\")")
  | .i18n => (latin "write(\"", latin "\")")
  | .i18nRaw => (latin "write(\"", latin "\")")
  | .code => ([], latin " ")
  | .eof => ([], [])

def isblank (c : U8) : Bool := c = 0x20 || c = 0x09

/-- Compare the bytes from `i` with the needle, as far as the haystack goes. -/
def strmatch (file : List U8) (stop : Nat) : Nat → List U8 → Option Bool
  | _, [] => some true
  | i, c :: needle =>
    if i < stop then
      (file[i]?).bind fun d => if d = c then strmatch file stop (i + 1) needle else some false
    else some false

/-- `strfind`: where the needle is first found in the `hslen` bytes from `i`. -/
def strfind (file needle : List U8) : Nat → Nat → Option (Option Nat)
  | 0, _ => some none
  | hslen + 1, i =>
    (strmatch file (i + hslen + 1) i needle).bind fun found =>
      if found then some (some i) else strfind file needle hslen (i + 1)

/-- `while (s <= e && p(*s)) s++`, where `fuel` bytes are left up to and including `e`. -/
def skipFrom (file : List U8) (p : U8 → Bool) : Nat → Nat → Option Nat
  | 0, s => some s
  | fuel + 1, s =>
    (file[s]?).bind fun c => if p c then skipFrom file p fuel (s + 1) else some s

def skip (file : List U8) (p : U8 → Bool) (s e : Nat) : Option Nat :=
  skipFrom file p (e + 1 - s) s

/-- `while (e >= s && p(*e)) e--`, where `fuel` bytes are left down to and including `s`. -/
def skipBackFrom (file : List U8) (p : U8 → Bool) : Nat → Nat → Option Nat
  | 0, e => some e
  | fuel + 1, e =>
    (file[e]?).bind fun c => if p c then skipBackFrom file p fuel (e - 1) else some e

def skipBack (file : List U8) (p : U8 → Bool) (s e : Nat) : Option Nat :=
  skipBackFrom file p (e + 1 - s) e

/-- `while (e > s && p(*(e - 1))) e--`. -/
def trimBack (file : List U8) (p : U8 → Bool) (s : Nat) : Nat → Option Nat
  | 0 => some 0
  | e + 1 =>
    if s < e + 1 then
      (file[e]?).bind fun c => if p c then trimBack file p s e else some (e + 1)
    else some (e + 1)

/-- One byte of `luastr_escape`. -/
def escapeByte (escapeXml : Bool) (c : U8) : List U8 :=
  if c = 0x5c then latin "\\\\"
  else if c = 0x22 then if escapeXml then latin "&#34;" else latin "\\\""
  else if c = 0x0a then latin "\\n"
  else if escapeXml && (c = 0x27 || c = 0x26 || c = 0x3c || c = 0x3e) then
    latin "&#" ++ digits c.toNat ++ latin ";"
  else [c]

def luastrEscape (escapeXml : Bool) (bytes : List U8) : List U8 :=
  bytes.flatMap (escapeByte escapeXml)

/-- What `lmo_translate` returns: 0 and a text, -1, or -2 where no catalog is loaded. -/
inductive Translation where
  | found (text : List U8)
  | missing
  | noCatalog
  deriving DecidableEq

def luastrTranslate (lmoTranslate : List U8 → Translation) (escapeXml : Bool) (key : List U8) :
    List U8 :=
  match lmoTranslate key with
  | .found text => luastrEscape escapeXml text
  | .missing => luastrEscape escapeXml key
  | .noCatalog => []

/-- What `template_reader` returns; `unexpectedEof` is the marker "\033". -/
inductive Reply where
  | chunk (bytes : List U8)
  | null
  | unexpectedEof
  deriving DecidableEq

namespace Parser

def size (p : Parser) : Nat := p.file.length

def templateText (p : Parser) (e : Nat) : Option Parser :=
  if p.off < p.size then
    (if p.stripAfter then skip p.file isspace p.off e else some p.off).map fun s =>
      { p with cur := ⟨s, e, .text, p.line⟩ }
  else some { p with cur := ⟨p.off, e, .eof, p.line⟩ }

def tagType (c : U8) : ChunkType × Nat :=
  if c = 0x23 then (.comment, 1)
  else if c = 0x2b then (.incl, 1)
  else if c = 0x3a then (.i18n, 1)
  else if c = 0x5f then (.i18nRaw, 1)
  else if c = 0x3d then (.expr, 1)
  else (.code, 0)

def templateCode (p : Parser) (e : Nat) : Option Parser := do
  let first ← p.file[p.off]?
  let s ← (if first = 0x2d then skip p.file isblank (p.off + 1) e else some p.off)
  let last ← p.file[e - 1]?
  let e ← (if last = 0x2d then skipBack p.file isblank s (e - 1) else some e)
  let c ← p.file[s]?
  some { p with
    stripBefore := first = 0x2d
    stripAfter := last = 0x2d
    cur := ⟨s + (tagType c).2, e, (tagType c).1, p.line⟩ }

def content (p : Parser) (c : Chunk) : List U8 := slice p.file c.s (c.e - c.s)

/-- What `template_format_chunk` puts between head and tail. -/
def body (lmoTranslate : List U8 → Translation) (p : Parser) (c : Chunk) : List U8 :=
  match c.type with
  | .text | .incl => luastrEscape false (p.content c)
  | .expr | .code => p.content c
  | .i18n => luastrTranslate lmoTranslate true (p.content c)
  | .i18nRaw => luastrTranslate lmoTranslate false (p.content c)
  | .init | .comment | .eof => []

def newlines (p : Parser) (c : Chunk) : Nat :=
  match c.type with
  | .expr | .code => (p.content c).count 0x0a
  | _ => 0

/-- An empty string would end the input of the compiler. -/
def orBlank (bytes : List U8) : List U8 := if bytes = [] then latin " " else bytes

def formatted (lmoTranslate : List U8 → Translation) (p : Parser) (c : Chunk) : List U8 :=
  orBlank ((genCode c.type).1 ++ p.body lmoTranslate c ++ (genCode c.type).2)

def templateFormatChunk (lmoTranslate : List U8 → Translation) (p : Parser) :
    Option (Parser × Reply) := do
  let c := p.prv
  let e ← (if p.stripBefore ∧ c.type = .text then trimBack p.file isspace c.s c.e
    else some c.e)
  let c := { c with e := e }
  if c.s = c.e then
    some ({ p with prv := c }, if c.type = .eof then .null else .chunk (latin " "))
  else if c.s < c.e ∧ c.e ≤ p.size then
    some ({ p with prv := c, line := p.line + p.newlines c },
      .chunk (p.formatted lmoTranslate c))
  else none

def templateReader (lmoTranslate : List U8 → Translation) (p : Parser) :
    Option (Parser × Reply) := do
  let p := { p with prv := p.cur }
  let rem := p.size - p.off
  if p.inExpr then
    match ← strfind p.file [0x25, 0x3e] rem p.off with
    | some tag =>
      let p ← p.templateCode tag
      { p with off := tag + 2, inExpr := false }.templateFormatChunk lmoTranslate
    | none =>
      let p ← p.templateCode p.size
      some (p, .unexpectedEof)
  else
    match ← strfind p.file [0x3c, 0x25] rem p.off with
    | some tag =>
      let p ← p.templateText tag
      { p with off := tag + 2, inExpr := true }.templateFormatChunk lmoTranslate
    | none =>
      let p ← p.templateText p.size
      { p with off := p.size }.templateFormatChunk lmoTranslate

end Parser

/-- `template_open` of a file with this content. -/
def templateOpen (file : List U8) : Parser :=
  ⟨file, 0, 0, false, false, false, ⟨0, 0, .init, 0⟩, ⟨0, 0, .init, 0⟩⟩

def Reply.isLast : Reply → Bool
  | .chunk _ => false
  | .null | .unexpectedEof => true

end OpenwrtMtk.Luci

/-!
## What the loops of the template parser find

`strfind` and the loops that skip white space, as functions of the bytes from an index on. A file is
spelled by its pieces, each a text and the tag after it, and by what follows the last complete tag.
-/

namespace OpenwrtMtk.Luci

open Toolkit

set_option autoImplicit false

def Without (x y : U8) (l : List U8) : Prop := ¬ [x, y] <:+: l

section Find

variable {x y c : U8} {pre l r t post : List U8}

theorem getElem?_next (pre r : List U8) (c : U8) : (pre ++ c :: r)[pre.length]? = some c := by
  rw [List.getElem?_append_right (Nat.le_refl _), Nat.sub_self, List.getElem?_cons_zero]

theorem strmatch_pair (pre r : List U8) (c x y : U8) :
    strmatch (pre ++ c :: r) (pre.length + r.length + 1) pre.length [x, y] =
      some (decide (c = x ∧ r.head? = some y)) := by
  have hfirst : pre.length < pre.length + r.length + 1 := by omega
  simp only [strmatch, if_pos hfirst, getElem?_next, Option.bind_some]
  by_cases hc : c = x
  · subst hc
    cases r with
    | nil => simp
    | cons d r =>
      have hsecond : (pre ++ c :: d :: r)[pre.length + 1]? = some d := by
        simp
      simp only [hsecond, List.length_cons, Option.bind_some, List.head?_cons, Option.some_inj,
        true_and, if_true]
      rw [if_pos (by omega)]
      split <;> simp_all
  · simp [hc]

theorem strfind_step (pre r : List U8) (c x y : U8) :
    strfind (pre ++ c :: r) [x, y] (c :: r).length pre.length =
      if c = x ∧ r.head? = some y then some (some pre.length)
      else strfind ((pre ++ [c]) ++ r) [x, y] r.length (pre ++ [c]).length := by
  simp only [List.length_cons, strfind, strmatch_pair, Option.bind_some, decide_eq_true_eq,
    List.append_assoc, List.cons_append, List.nil_append, List.length_append, List.length_nil]

theorem strfind_hit (hxy : x ≠ y) (ht : Without x y t) :
    strfind (pre ++ (t ++ x :: y :: post)) [x, y] (t ++ x :: y :: post).length pre.length =
      some (some (pre.length + t.length)) := by
  induction t generalizing pre with
  | nil =>
    rw [List.nil_append, strfind_step, if_pos ⟨rfl, rfl⟩]
    simp
  | cons c t ih =>
    have hnot : ¬ (c = x ∧ (t ++ x :: y :: post).head? = some y) := by
      rintro ⟨rfl, hhead⟩
      cases t with
      | nil => exact hxy (by simpa using hhead)
      | cons d t =>
        obtain rfl : d = y := by simpa using hhead
        exact ht ⟨[], t, rfl⟩
    rw [List.cons_append, strfind_step, if_neg hnot,
      ih fun h => ht (h.trans (List.suffix_cons c t).isInfix)]
    simp only [List.length_append, List.length_cons, List.length_nil]
    congr 2
    omega

theorem strfind_miss (hl : Without x y l) :
    strfind (pre ++ l) [x, y] l.length pre.length = some none := by
  induction l generalizing pre with
  | nil => rfl
  | cons c l ih =>
    have hnot : ¬ (c = x ∧ l.head? = some y) := by
      rintro ⟨rfl, hhead⟩
      obtain ⟨l, rfl⟩ := List.head?_eq_some_iff.mp hhead
      exact hl ⟨[], l, rfl⟩
    rw [strfind_step, if_neg hnot, ih fun h => hl (h.trans (List.suffix_cons c l).isInfix)]

theorem exists_first (x y : U8) (l : List U8) :
    Without x y l ∨ ∃ t r, l = t ++ x :: y :: r ∧ Without x y t := by
  induction l with
  | nil => exact .inl fun h => by simp at h
  | cons c l ih =>
    by_cases hhere : [x, y] <+: c :: l
    · obtain ⟨r, hr⟩ := hhere
      exact .inr ⟨[], r, by simpa using hr.symm, fun h => by simp at h⟩
    · rcases ih with hl | ⟨t, r, rfl, ht⟩
      · refine .inl fun h => ?_
        rcases List.infix_cons_iff.mp h with h | h
        · exact hhere h
        · exact hl h
      · refine .inr ⟨c :: t, r, rfl, fun h => ?_⟩
        rcases List.infix_cons_iff.mp h with h | h
        · exact hhere (h.trans (List.cons_prefix_cons.mpr ⟨rfl, List.prefix_append t _⟩))
        · exact ht h

end Find

section Skip

variable {p : U8 → Bool} {pre l post file : List U8} {c : U8} {fuel : Nat}

theorem skipFrom_step (p : U8 → Bool) (pre r : List U8) (c : U8) (fuel : Nat) :
    skipFrom (pre ++ c :: r) p (fuel + 1) pre.length =
      if p c then skipFrom ((pre ++ [c]) ++ r) p fuel (pre ++ [c]).length
      else some pre.length := by
  simp only [skipFrom, getElem?_next, Option.bind_some, List.append_assoc, List.cons_append,
    List.nil_append, List.length_append, List.length_cons, List.length_nil]

theorem skipFrom_stops (hl : ∀ d ∈ l, p d = true) (hc : p c = false) (hfuel : l.length < fuel) :
    skipFrom (pre ++ (l ++ c :: post)) p fuel pre.length = some (pre.length + l.length) := by
  obtain ⟨fuel, rfl⟩ : ∃ n, fuel = n + 1 := ⟨fuel - 1, by omega⟩
  induction l generalizing pre fuel with
  | nil => rw [List.nil_append, skipFrom_step, hc]; rfl
  | cons d l ih =>
    simp only [List.length_cons] at hfuel
    obtain ⟨fuel, rfl⟩ : ∃ n, fuel = n + 1 := ⟨fuel - 1, by omega⟩
    rw [List.cons_append, skipFrom_step, hl d List.mem_cons_self, if_pos rfl,
      ih (fun a ha => hl a (List.mem_cons_of_mem d ha)) fuel (by omega)]
    simp only [List.length_append, List.length_cons, List.length_nil]
    congr 1
    omega

theorem skipFrom_overruns (hl : ∀ d ∈ l, p d = true) (hfuel : l.length < fuel) :
    skipFrom (pre ++ l) p fuel pre.length = none := by
  obtain ⟨fuel, rfl⟩ : ∃ n, fuel = n + 1 := ⟨fuel - 1, by omega⟩
  induction l generalizing pre fuel with
  | nil => simp [skipFrom]
  | cons d l ih =>
    simp only [List.length_cons] at hfuel
    obtain ⟨fuel, rfl⟩ : ∃ n, fuel = n + 1 := ⟨fuel - 1, by omega⟩
    rw [skipFrom_step, hl d List.mem_cons_self, if_pos rfl,
      ih (fun a ha => hl a (List.mem_cons_of_mem d ha)) fuel (by omega)]

theorem takeWhile_holds (p : U8 → Bool) (l : List U8) : ∀ d ∈ l.takeWhile p, p d = true :=
  fun _ hd => List.mem_takeWhile_imp hd

theorem skipFrom_over (hc : p c = false) (hfuel : l.length < fuel) :
    skipFrom (pre ++ (l ++ c :: post)) p fuel pre.length =
      some (pre.length + (l.takeWhile p).length) := by
  have hlen : (l.takeWhile p).length ≤ l.length := (List.takeWhile_prefix p).length_le
  cases hrest : l.dropWhile p with
  | nil =>
    have hall : l.takeWhile p = l := by
      have hsplit := List.takeWhile_append_dropWhile (p := p) (l := l)
      rwa [hrest, List.append_nil] at hsplit
    rw [hall]
    exact skipFrom_stops (hall ▸ takeWhile_holds p l) hc hfuel
  | cons d rest =>
    have hd : p d = false := by
      simpa [hrest] using List.head?_dropWhile_not p l
    have hsplit : l = l.takeWhile p ++ d :: rest := by
      rw [← hrest, List.takeWhile_append_dropWhile]
    have hfile : pre ++ (l ++ c :: post) = pre ++ (l.takeWhile p ++ d :: (rest ++ c :: post)) := by
      conv_lhs => rw [hsplit]
      simp
    rw [hfile]
    exact skipFrom_stops (takeWhile_holds p l) hd (by omega)

theorem skipFrom_end (hl : ¬ ∀ d ∈ l, p d = true) (hfuel : l.length ≤ fuel) :
    skipFrom (pre ++ l) p fuel pre.length = some (pre.length + (l.takeWhile p).length) := by
  cases hrest : l.dropWhile p with
  | nil => exact absurd (List.dropWhile_eq_nil_iff.mp hrest) hl
  | cons d rest =>
    have hd : p d = false := by
      simpa [hrest] using List.head?_dropWhile_not p l
    have hsplit : l = l.takeWhile p ++ d :: rest := by
      rw [← hrest, List.takeWhile_append_dropWhile]
    have hlen := congrArg List.length hsplit
    rw [List.length_append, List.length_cons] at hlen
    have hfile : pre ++ l = pre ++ (l.takeWhile p ++ d :: rest) := by rw [← hsplit]
    rw [hfile]
    exact skipFrom_stops (takeWhile_holds p l) hd (by omega)

theorem skipBack_at {s e : Nat} (he : file[e]? = some c) (hc : p c = false) :
    skipBack file p s e = some e := by
  unfold skipBack
  cases e + 1 - s with
  | zero => rfl
  | succ fuel => simp [skipBackFrom, he, hc]

theorem trimBack_eq (p : U8 → Bool) (pre l post : List U8) :
    trimBack (pre ++ (l ++ post)) p pre.length (pre.length + l.length) =
      some (pre.length + (l.rdropWhile p).length) := by
  induction l using List.reverseRecOn generalizing post with
  | nil =>
    cases pre with
    | nil => rfl
    | cons c pre => simp [trimBack]
  | append_singleton l c ih =>
    have hread : (pre ++ ((l ++ [c]) ++ post))[pre.length + l.length]? = some c := by
      simp
    have hlen : pre.length + (l ++ [c]).length = (pre.length + l.length) + 1 := by
      simp [Nat.add_assoc]
    rw [hlen, trimBack, if_pos (by omega), hread, Option.bind_some]
    cases hc : p c with
    | true =>
      rw [if_pos rfl, List.rdropWhile_concat_pos _ _ _ hc]
      simpa using ih ([c] ++ post)
    | false =>
      rw [if_neg (by simp), List.rdropWhile_concat_neg _ _ _ (by simp [hc])]
      simp [Nat.add_assoc]

end Skip

structure Piece where
  text : List U8
  tag : List U8

def Piece.Clean (p : Piece) : Prop := Without 0x3c 0x25 p.text ∧ Without 0x25 0x3e p.tag

inductive Tail where
  | text (t : List U8)
  | unclosed (t c : List U8)

namespace Tail

def bytes : Tail → List U8
  | .text t => t
  | .unclosed t c => t ++ 0x3c :: 0x25 :: c

def Clean : Tail → Prop
  | .text t => Without 0x3c 0x25 t
  | .unclosed t c => Without 0x3c 0x25 t ∧ Without 0x25 0x3e c

end Tail

/-- `T0 <%c1%> T1 ... <%cn%>` and the rest. -/
def spell : List Piece → List U8 → List U8
  | [], rest => rest
  | p :: ps, rest => p.text ++ 0x3c :: 0x25 :: (p.tag ++ 0x25 :: 0x3e :: spell ps rest)

/-- The body of the last tag, `c` where there is none. -/
def lastTag (c : List U8) : List Piece → List U8
  | [] => c
  | p :: ps => lastTag p.tag ps

theorem exists_pieces (file : List U8) :
    ∃ (ps : List Piece) (tail : Tail),
      (∀ p ∈ ps, p.Clean) ∧ tail.Clean ∧ spell ps tail.bytes = file := by
  induction hn : file.length using Nat.strong_induction_on generalizing file with
  | _ n ih =>
    rcases exists_first 0x3c 0x25 file with hfile | ⟨t, r, rfl, ht⟩
    · exact ⟨[], .text file, by simp, hfile, rfl⟩
    · rcases exists_first 0x25 0x3e r with hr | ⟨c, rest, rfl, hc⟩
      · exact ⟨[], .unclosed t r, by simp, ⟨ht, hr⟩, rfl⟩
      · have hshort : rest.length < n := by
          simp only [List.length_append, List.length_cons] at hn
          omega
        obtain ⟨ps, tail, hps, htail, hspell⟩ := ih rest.length hshort rest rfl
        refine ⟨⟨t, c⟩ :: ps, tail, ?_, htail, ?_⟩
        · exact List.forall_mem_cons.mpr ⟨⟨ht, hc⟩, hps⟩
        · rw [spell, hspell]

end OpenwrtMtk.Luci
