import OpenwrtMtk.Lib.Checked
import OpenwrtMtk.Luci.PoRead

/-!
# The buffers of po2lmo

The loop of `main` of `po2lmo.c` and `extract_string` again, with every write to `line`, `key`, `val`
and `tmp` checked against the 4096 bytes of the buffer, and every read of a buffer as a string against
its zero byte. What is written to the archive is not kept; where these accesses stay inside, the
round is the one of `Po2lmo`.
-/

namespace OpenwrtMtk.Luci

open Toolkit

set_option autoImplicit false

/-- The buffers of `main`, and `state`. -/
structure PoBuffers where
  state : PoState
  line : List U8
  key : List U8
  val : List U8
  tmp : List U8
  deriving DecidableEq

namespace PoAccess

/-- `dest[i] = c`. -/
def putChar (dest : List U8) (i : Int) (c : U8) : Checked (List U8) :=
  if 0 ≤ i then Toolkit.store dest i.toNat [c] else .error .outside

def stringIn (buffer : List U8) : Checked (List U8) := orOutside (cstr buffer)

/-- The loop of `extract_string` from `src[pos]` on: `off` and `dest`. -/
def extractLoop (len : Nat) : Nat → List U8 → Int → Bool → List U8 → Checked (Int × List U8)
  | _, [], off, _, dest => return (off, dest)
  | pos, c :: src, off, esc, dest =>
    if len ≤ pos then return (off, dest)
    else if off = -1 ∧ c = 0x22 then extractLoop len (pos + 1) src (pos + 1) esc dest
    else if 0 ≤ off then
      if esc then do
        let off := if c = 0x22 ∨ c = 0x5c then off + 1 else off
        let dest ← putChar dest (pos - off) c
        extractLoop len (pos + 1) src off false dest
      else if c = 0x5c then do
        let dest ← putChar dest (pos - off) c
        extractLoop len (pos + 1) src off true dest
      else if c ≠ 0x22 then do
        let dest ← putChar dest (pos - off) c
        extractLoop len (pos + 1) src off esc dest
      else do
        let dest ← putChar dest (pos - off) 0
        return (off, dest)
    else extractLoop len (pos + 1) src off esc dest

def extractString (src dest : List U8) : Checked (Int × List U8) := do
  let line ← stringIn src
  let (off, dest) ← extractLoop poBuffer 0 line (-1) false dest
  if -1 < off then
    let s ← stringIn dest
    return (s.length, dest)
  else return (-1, dest)

def strcat (dest src : List U8) : Checked (List U8) := do
  let d ← stringIn dest
  let s ← stringIn src
  Toolkit.store dest d.length (s ++ [0])

/-- `strstr(line, text) == line`. -/
def begins (line : List U8) (text : String) : Checked Bool := do
  let s ← stringIn line
  return (latin text).isPrefixOf s

/-- `memset` over a whole buffer. -/
def cleared : List U8 := List.replicate poBuffer 0

/-- The line goes to `val`. -/
def scanValue (b : PoBuffers) : Checked (Option PoBuffers) := do
  let (n, val) ← extractString b.line b.val
  return some { b with state := if n = -1 then .complete else .msgstr, val }

/-- What a line does in each state, `none` where the program dies. -/
def scan (b : PoBuffers) : Checked (Option PoBuffers) :=
  match b.state with
  | .idle => do
    if ← begins b.line "msgid \"" then
      let (n, key) ← extractString b.line b.key
      if n = -1 then return none
      else return some { b with state := if n = 0 then .emptyMsgid else .msgid, key }
    else return some b
  | .emptyMsgid => do
    if ← begins b.line "msgstr \"" then scanValue b
    else
      let (n, tmp) ← extractString b.line b.tmp
      if n = -1 then return some { b with state := .msgid, tmp }
      else
        let key ← strcat b.key tmp
        return some { b with key, tmp }
  | .msgid => scanValue b
  | .msgstr => do
    let (n, tmp) ← extractString b.line b.tmp
    if n = -1 then return some { b with state := .complete, tmp }
    else
      let val ← strcat b.val tmp
      return some { b with val, tmp }
  | .complete => return some b

/-- What is done in state 4. The text is written from `val`, filled up to a multiple of four bytes. -/
def flush (b : PoBuffers) : Checked PoBuffers := do
  let key ← stringIn b.key
  if key ≠ [] then
    let val ← stringIn b.val
    if val ≠ [] ∧ sfhHash key ≠ sfhHash val then
      let _ ← load b.val 0 (val.length + (4 - val.length % 4) % 4)
  return { b with
    state := .idle
    key := cleared
    val := cleared }

/-- `fgets` into the buffer, which it leaves alone at the end of the file. -/
def fgetsInto (line read : List U8) : Checked (List U8) :=
  if read = [] then return line else Toolkit.store line 0 (read ++ [0])

/-- A round of the loop of `main`, with what is left of the file. -/
def round (file : List U8) (b : PoBuffers) : Checked (Option PoBuffers) := do
  let line ← fgetsInto b.line (fgets (poBuffer - 1) file).1
  match ← scan { b with line } with
  | none => return none
  | some b =>
    let b ← (if b.state = .complete then flush b else return b)
    return some { b with line := cleared }

def init (tmp : List U8) : PoBuffers where
  state := .idle
  line := cleared
  key := cleared
  val := cleared
  tmp := tmp

/-- The loop of `main` goes on. -/
def Continues (file : List U8) (b : PoBuffers) : Prop :=
  (fgets (poBuffer - 1) file).1 ≠ [] ∨ (b.state ≠ .idle ∧ b.state ≠ .emptyMsgid)

/-- The states at the head of the loop of `main`, with what is left of the file. -/
inductive Reaches (tmp file : List U8) : List U8 → PoBuffers → Prop where
  | start : Reaches tmp file file (init tmp)
  | turn {rest : List U8} {b b' : PoBuffers} : Reaches tmp file rest b → Continues rest b →
      round rest b = .ok (some b') → Reaches tmp file (fgets (poBuffer - 1) rest).2 b'

def SafeRun (tmp file : List U8) : Prop :=
  ∀ rest b, Reaches tmp file rest b → Continues rest b → Ends (round rest b)

end PoAccess

end OpenwrtMtk.Luci

/-!
## extract_string inside its buffers

The loop writes inside the buffer, whatever the line. What it leaves is the text of the line up to its
closing quote, and a zero byte only if there is one.
-/

namespace OpenwrtMtk.Luci

open Toolkit

set_option autoImplicit false

namespace PoAccess

/-- `off` as it is kept by `extract_string`. -/
def offset : Option Nat → Int
  | none => -1
  | some off => off

section Loop

variable {len pos off k : Nat} {src dest : List U8} {esc : Bool} {c : U8}

theorem putChar_ok {i : Nat} (h : i < dest.length) : putChar dest i c = .ok (dest.set i c) := by
  rw [putChar, if_pos (Int.natCast_nonneg i), Int.toNat_natCast, store_ok, set_eq_overwrite c h]
  rw [List.length_singleton]
  exact h

theorem putChar_sub (hoff : off ≤ pos) (h : pos - off < dest.length) :
    putChar dest ((pos : Int) - (off : Int)) c = .ok (dest.set (pos - off) c) := by
  rw [← Int.ofNat_sub hoff]
  exact putChar_ok h

theorem extractLoop_eq {off : Option Nat} (hdest : pos + src.length ≤ dest.length)
    (hoff : ∀ o, off = some o → o ≤ pos) (hesc : esc = true → ∃ o, off = some o ∧ o < pos) :
    extractLoop len pos src (offset off) esc dest =
      .ok (offset (extractFrom len pos src off esc dest).1,
        (extractFrom len pos src off esc dest).2) := by
  induction src generalizing pos off esc dest with
  | nil => rfl
  | cons c src ih =>
    rw [List.length_cons] at hdest
    by_cases hpos : len ≤ pos
    · cases off with
      | none =>
        rw [extractLoop, extractFrom, if_pos hpos, if_pos hpos]
        rfl
      | some o =>
        rw [extractLoop, extractFrom, if_pos hpos, if_pos hpos]
        rfl
    cases off with
    | none =>
      have hesc : esc = false := by
        cases esc with
        | false => rfl
        | true =>
          obtain ⟨o, h, -⟩ := hesc rfl
          cases h
      subst hesc
      rw [extractLoop, extractFrom, if_neg hpos, if_neg hpos]
      by_cases hc : c = 0x22
      · rw [if_pos ⟨rfl, hc⟩, if_pos hc]
        apply @ih (pos + 1) dest false (some (pos + 1)) (by omega) _ fun h => absurd h Bool.false_ne_true
        rintro o ⟨⟩
        exact Nat.le_refl _
      · rw [if_neg (fun h => hc h.2), if_neg (by decide), if_neg hc]
        exact @ih (pos + 1) dest false none (by omega) (fun o h => absurd h (Option.some_ne_none o).symm)
          fun h => absurd h Bool.false_ne_true
    | some o =>
      have hle := hoff o rfl
      have hnone : ¬(offset (some o) = -1 ∧ c = 0x22) := by
        rintro ⟨h, -⟩
        rw [offset] at h
        omega
      have hput (d : U8) : putChar dest ((pos : Int) - offset (some o)) d =
          .ok (dest.set (pos - o) d) := putChar_sub hle (by omega)
      have hlen (i : Nat) (d : U8) : pos + 1 + src.length ≤ (dest.set i d).length := by
        rw [List.length_set]
        omega
      have hnext : ∀ o', some o = some o' → o' ≤ pos + 1 := by
        rintro _ ⟨⟩
        omega
      rw [extractLoop, extractFrom, if_neg hpos, if_neg hpos, if_neg hnone,
        if_pos (show 0 ≤ offset (some o) from Int.natCast_nonneg o)]
      cases esc with
      | true =>
        obtain ⟨_, ⟨⟩, hlt⟩ := hesc rfl
        rw [if_pos rfl, if_pos rfl]
        by_cases hspecial : c = 0x22 ∨ c = 0x5c
        · -- the byte takes the place of the backslash
          have hput' : putChar dest ((pos : Int) - offset (some (o + 1))) c =
              .ok (dest.set (pos - (o + 1)) c) := putChar_sub hlt (by omega)
          rw [if_pos hspecial, if_pos hspecial,
            show offset (some o) + 1 = offset (some (o + 1)) from rfl]
          dsimp only
          rw [bind_ok hput']
          apply @ih (pos + 1) _ false (some (o + 1)) (hlen _ _) _ fun h => absurd h Bool.false_ne_true
          rintro _ ⟨⟩
          omega
        · rw [if_neg hspecial, if_neg hspecial]
          dsimp only
          rw [bind_ok (hput c)]
          exact @ih (pos + 1) _ false (some o) (hlen _ _) hnext fun h => absurd h Bool.false_ne_true
      | false =>
        rw [if_neg Bool.false_ne_true, if_neg Bool.false_ne_true]
        by_cases hback : c = 0x5c
        · rw [if_pos hback, if_pos hback, bind_ok (hput c)]
          exact @ih (pos + 1) _ true (some o) (hlen _ _) hnext fun _ => ⟨o, rfl, by omega⟩
        rw [if_neg hback, if_neg hback]
        by_cases hquote : c = 0x22
        · rw [if_neg (not_not.mpr hquote), if_pos hquote, bind_ok (hput 0)]
          rfl
        · rw [if_pos hquote, if_neg hquote, bind_ok (hput c)]
          exact @ih (pos + 1) _ false (some o) (hlen _ _) hnext fun h => absurd h Bool.false_ne_true

end Loop

/-- What is between the quotes of a line, with the quotes and backslashes in it for their escapes,
and whether there is a closing quote. The flag says that a backslash stands in front. -/
def textUpTo : Bool → List U8 → List U8 × Bool
  | false, [] => ([], false)
  | true, [] => ([0x5c], false)
  | false, c :: src =>
    if c = 0x5c then textUpTo true src
    else if c = 0x22 then ([], true)
    else (c :: (textUpTo false src).1, (textUpTo false src).2)
  | true, c :: src =>
    if c = 0x22 ∨ c = 0x5c then (c :: (textUpTo false src).1, (textUpTo false src).2)
    else (0x5c :: c :: (textUpTo false src).1, (textUpTo false src).2)

def quotedOn : List U8 → Option (List U8 × Bool)
  | [] => none
  | c :: line => if c = 0x22 then some (textUpTo false line) else quotedOn line

/-- What is written of a string: with its zero byte where the closing quote is found. -/
def laid (q : List U8 × Bool) : List U8 := q.1 ++ if q.2 then [0] else []

section Text

variable {len pos off k : Nat} {src line dest : List U8} {c : U8} {q : List U8 × Bool}

theorem laid_cons (c : U8) (q : List U8 × Bool) : laid (c :: q.1, q.2) = c :: laid q := rfl

theorem length_laid_textUpTo (src : List U8) :
    (laid (textUpTo false src)).length ≤ src.length ∧
      (laid (textUpTo true src)).length ≤ src.length + 1 := by
  induction src with
  | nil => exact ⟨by decide, by decide⟩
  | cons c src ih =>
    obtain ⟨hfalse, htrue⟩ := ih
    rw [List.length_cons]
    constructor
    · rw [textUpTo]
      split
      · exact htrue
      split
      · exact Nat.succ_le_succ (Nat.zero_le _)
      · rw [laid_cons, List.length_cons]
        omega
    · rw [textUpTo]
      split
      · rw [laid_cons, List.length_cons]
        omega
      · rw [laid_cons 0x5c (c :: (textUpTo false src).1, (textUpTo false src).2), laid_cons,
          List.length_cons, List.length_cons]
        omega

theorem zero_not_mem_textUpTo (hsrc : 0 ∉ src) :
    0 ∉ (textUpTo false src).1 ∧ 0 ∉ (textUpTo true src).1 := by
  induction src with
  | nil => exact ⟨List.not_mem_nil, by decide⟩
  | cons c src ih =>
    rw [List.mem_cons, not_or] at hsrc
    obtain ⟨hfalse, htrue⟩ := ih hsrc.2
    have hcons : 0 ∉ c :: (textUpTo false src).1 :=
      List.not_mem_cons_of_ne_of_not_mem hsrc.1 hfalse
    constructor
    · rw [textUpTo]
      split
      · exact htrue
      split
      · exact List.not_mem_nil
      · exact hcons
    · rw [textUpTo]
      split
      · exact hcons
      · exact List.not_mem_cons_of_ne_of_not_mem (by decide) hcons

theorem quotedOn_some (hline : 0 ∉ line) (h : quotedOn line = some q) :
    0 ∉ q.1 ∧ (laid q).length < line.length := by
  induction line with
  | nil => cases h
  | cons c line ih =>
    rw [List.mem_cons, not_or] at hline
    rw [quotedOn] at h
    rw [List.length_cons]
    split at h
    · cases h
      exact ⟨(zero_not_mem_textUpTo hline.2).1, Nat.lt_succ_of_le (length_laid_textUpTo line).1⟩
    · obtain ⟨hzero, hlen⟩ := ih hline.2 h
      exact ⟨hzero, by omega⟩

theorem overwrite_nil (dest : List U8) (k : Nat) : overwrite dest k [] = dest := by
  rw [overwrite, List.append_nil, List.length_nil, Nat.add_zero, List.take_append_drop]

theorem extractFrom_text (src : List U8) :
    (∀ off k dest, k + src.length ≤ dest.length → off + k + src.length ≤ len →
      ∃ off', extractFrom len (off + k) src (some off) false dest =
        (some off', overwrite dest k (laid (textUpTo false src)))) ∧
    (∀ off k dest, k + 1 + src.length ≤ dest.length → off + k + 1 + src.length ≤ len →
      ∃ off', extractFrom len (off + k + 1) src (some off) true (overwrite dest k [0x5c]) =
        (some off', overwrite dest k (laid (textUpTo true src)))) := by
  induction src with
  | nil =>
    constructor
    · intro off k dest _ _
      refine ⟨off, ?_⟩
      rw [extractFrom, textUpTo, show laid ([], false) = [] from rfl, overwrite_nil]
    · intro off k dest _ _
      exact ⟨off, rfl⟩
  | cons c src ih =>
    obtain ⟨hplain, hback⟩ := ih
    have hshort := (length_laid_textUpTo src).1
    constructor
    · intro off k dest hdest hlen
      rw [List.length_cons] at hdest hlen
      have hset (d : U8) : dest.set k d = overwrite dest k [d] := set_eq_overwrite d (by omega)
      have hone (d : U8) : (overwrite dest k [d]).length = dest.length :=
        length_overwrite (by rw [List.length_singleton]; omega)
      rw [extractFrom, if_neg (by omega)]
      dsimp only
      rw [if_neg (by decide), Nat.add_sub_cancel_left, textUpTo]
      by_cases hc : c = 0x5c
      · rw [if_pos hc, if_pos hc, hset, hc]
        exact hback off k dest (by omega) (by omega)
      rw [if_neg hc, if_neg hc]
      by_cases hquote : c = 0x22
      · rw [if_pos hquote, if_pos hquote, hset]
        exact ⟨off, rfl⟩
      · rw [if_neg hquote, if_neg hquote, hset, laid_cons]
        obtain ⟨off', h⟩ := hplain off (k + 1) (overwrite dest k [c]) (by rw [hone]; omega) (by omega)
        refine ⟨off', ?_⟩
        rw [Nat.add_assoc, h]
        exact congrArg (Prod.mk _) (overwrite_append [c] _ (by rw [List.length_singleton]; omega))
    · intro off k dest hdest hlen
      rw [List.length_cons] at hdest hlen
      have hone (d : U8) : (overwrite dest k [d]).length = dest.length :=
        length_overwrite (by rw [List.length_singleton]; omega)
      rw [extractFrom, if_neg (by omega)]
      dsimp only
      rw [if_pos rfl, textUpTo]
      by_cases hspecial : c = 0x22 ∨ c = 0x5c
      · -- the byte takes the place of the backslash
        rw [if_pos hspecial, if_pos hspecial, laid_cons,
          show off + k + 1 - (off + 1) = k by omega,
          set_eq_overwrite c (by rw [hone]; omega),
          overwrite_overwrite (by rw [List.length_singleton]; omega) (by rfl)]
        obtain ⟨off', h⟩ := hplain (off + 1) (k + 1) (overwrite dest k [c]) (by rw [hone]; omega)
          (by omega)
        refine ⟨off', ?_⟩
        rw [show off + k + 1 + 1 = off + 1 + (k + 1) by omega, h]
        exact congrArg (Prod.mk _) (overwrite_append [c] _ (by rw [List.length_singleton]; omega))
      · have htwo : overwrite (overwrite dest k [0x5c]) (k + 1) [c] = overwrite dest k [0x5c, c] :=
          overwrite_append [0x5c] [c] (by
            rw [List.length_singleton, List.length_singleton]
            omega)
        have hlong : (overwrite dest k [0x5c, c]).length = dest.length :=
          length_overwrite (by rw [List.length_cons, List.length_singleton]; omega)
        rw [if_neg hspecial, if_neg hspecial,
          laid_cons 0x5c (c :: (textUpTo false src).1, (textUpTo false src).2), laid_cons,
          show off + k + 1 - off = k + 1 by omega, set_eq_overwrite c (by rw [hone]; omega), htwo]
        obtain ⟨off', h⟩ := hplain off (k + 2) (overwrite dest k [0x5c, c]) (by rw [hlong]; omega)
          (by omega)
        refine ⟨off', ?_⟩
        rw [show off + k + 1 + 1 = off + (k + 2) by omega, h]
        exact congrArg (Prod.mk _) (overwrite_append [0x5c, c] _ (by
          rw [List.length_cons, List.length_singleton]
          omega))

theorem extractFrom_none (h : quotedOn line = none) (pos : Nat) :
    extractFrom len pos line none false dest = (none, dest) := by
  induction line generalizing pos with
  | nil => rfl
  | cons c line ih =>
    rw [quotedOn] at h
    split at h
    · cases h
    · rename_i hc
      rw [extractFrom, if_neg hc, ih h (pos + 1)]
      exact ite_self _

theorem extractFrom_quoted (h : quotedOn line = some q) (hdest : line.length ≤ dest.length)
    (hlen : pos + line.length ≤ len) :
    ∃ off, extractFrom len pos line none false dest = (some off, overwrite dest 0 (laid q)) := by
  induction line generalizing pos with
  | nil => cases h
  | cons c line ih =>
    rw [List.length_cons] at hdest hlen
    rw [extractFrom, if_neg (by omega)]
    rw [quotedOn] at h
    split at h
    · rename_i hc
      cases h
      rw [if_pos hc]
      exact (extractFrom_text line).1 (pos + 1) 0 dest (by omega) (by omega)
    · rename_i hc
      rw [if_neg hc]
      exact ih h (by omega) (by omega)

end Text

/-- The string that is in `tmp` when `q` is laid over it. Without a closing quote it goes on with
what `tmp` held before. -/
def appended (tmp : List U8) (q : List U8 × Bool) : Option (List U8) :=
  if q.2 then some q.1 else (cstr (tmp.drop q.1.length)).map (q.1 ++ ·)

section Strings

variable {buffer dest tmp l d r s : List U8} {q : List U8 × Bool}

theorem cstr_append_left (hs : 0 ∉ s) (d : List U8) : cstr (s ++ d) = (cstr d).map (s ++ ·) := by
  induction s with
  | nil => exact Option.map_id'.symm
  | cons c s ih =>
    rw [List.mem_cons, not_or] at hs
    rw [List.cons_append, cstr, if_neg (Ne.symm hs.1), ih hs.2, Option.map_map]
    rfl

theorem cstr_laid (hq : 0 ∉ q.1) : cstr (overwrite dest 0 (laid q)) = appended dest q := by
  rw [overwrite, List.take_zero, List.nil_append, Nat.zero_add, appended, laid]
  cases hclosed : q.2 with
  | true =>
    rw [if_pos rfl, if_pos rfl, List.append_assoc]
    exact cstr_append _ hq
  | false =>
    rw [if_neg (by decide), if_neg (by decide), List.append_nil]
    exact cstr_append_left hq _

theorem zero_not_mem (h : Holds buffer l) : 0 ∉ l := (cstr_eq_some h.2).1

theorem length_of_holds (h : Holds buffer l) : l.length < poBuffer := by
  obtain ⟨-, rest, hbuffer⟩ := cstr_eq_some h.2
  rw [← h.1, hbuffer, List.length_append, List.length_cons]
  omega

theorem stringIn_holds (h : Holds buffer l) : stringIn buffer = .ok l := by
  rw [PoAccess.stringIn, h.2]
  rfl

theorem length_laid (hl : Holds buffer l) (hq : quotedOn l = some q) :
    (laid q).length < poBuffer :=
  Nat.lt_trans (quotedOn_some (zero_not_mem hl) hq).2 (length_of_holds hl)

theorem appended_cleared (h : q.1.length < poBuffer) : appended cleared q = some q.1 := by
  rw [appended]
  split
  · rfl
  · have hzero : cleared.drop q.1.length = 0 :: List.replicate (poBuffer - q.1.length - 1) 0 := by
      rw [cleared, List.drop_replicate, ← List.replicate_succ]
      congr 1
      omega
    rw [hzero, cstr, if_pos rfl, Option.map_some, List.append_nil]

theorem extractString_loop (hl : Holds buffer l) (hdest : dest.length = poBuffer) :
    extractString buffer dest =
      (if -1 < offset (extractFrom poBuffer 0 l none false dest).1 then
        stringIn (extractFrom poBuffer 0 l none false dest).2 >>= fun s =>
          return ((s.length : Int), (extractFrom poBuffer 0 l none false dest).2)
      else return (-1, (extractFrom poBuffer 0 l none false dest).2)) := by
  have hlen := (length_of_holds hl)
  have hloop := @extractLoop_eq poBuffer 0 l dest false none (by omega) nofun nofun
  rw [extractString, bind_ok (stringIn_holds hl)]
  exact bind_ok hloop

theorem extractString_none (hl : Holds buffer l) (hdest : dest.length = poBuffer)
    (h : quotedOn l = none) : extractString buffer dest = .ok (-1, dest) := by
  rw [extractString_loop hl hdest, extractFrom_none h]
  rfl

theorem extractString_quoted (hl : Holds buffer l) (hdest : dest.length = poBuffer)
    (h : quotedOn l = some q) :
    extractString buffer dest = (stringIn (overwrite dest 0 (laid q)) >>= fun s =>
      return ((s.length : Int), overwrite dest 0 (laid q))) := by
  have hlen := (length_of_holds hl)
  obtain ⟨off, hoff⟩ := @extractFrom_quoted poBuffer 0 l dest q h (by omega) (by omega)
  rw [extractString_loop hl hdest, hoff, offset, if_pos (by omega)]

theorem extractString_ok (hl : Holds buffer l) (hdest : dest.length = poBuffer)
    (h : quotedOn l = some q) (hs : appended dest q = some s) :
    ∃ dest', extractString buffer dest = .ok ((s.length : Int), dest') ∧ Holds dest' s := by
  have hin := length_laid hl h
  have hholds : Holds (overwrite dest 0 (laid q)) s := by
    constructor
    · rw [length_overwrite (by omega), hdest]
    · rw [cstr_laid (quotedOn_some (zero_not_mem hl) h).1, hs]
  refine ⟨_, ?_, hholds⟩
  rw [extractString_quoted hl hdest h, bind_ok (stringIn_holds hholds)]
  rfl

theorem extractString_fails (hl : Holds buffer l) (hdest : dest.length = poBuffer)
    (h : quotedOn l = some q) (hs : appended dest q = none) :
    extractString buffer dest = .error .outside := by
  rw [extractString_quoted hl hdest h, stringIn, cstr_laid (quotedOn_some (zero_not_mem hl) h).1, hs]
  rfl

theorem strcat_ok (hd : Holds d r) (ht : Holds tmp s) (h : r.length + s.length < poBuffer) :
    ∃ d', strcat d tmp = .ok d' ∧ Holds d' (r ++ s) := by
  obtain ⟨hr, rest, rfl⟩ := cstr_eq_some hd.2
  refine ⟨_, ?_, holds_overwrite hd.1 List.take_left
    (by rw [List.mem_append]; exact not_or.mpr ⟨hr, (zero_not_mem ht)⟩) h⟩
  rw [strcat, bind_ok (stringIn_holds hd), bind_ok (stringIn_holds ht), store_ok]
  rw [List.length_append, List.length_singleton, hd.1]
  omega

theorem strcat_fails (hd : Holds d r) (ht : Holds tmp s) (h : ¬r.length + s.length < poBuffer) :
    strcat d tmp = .error .outside := by
  rw [strcat, bind_ok (stringIn_holds hd), bind_ok (stringIn_holds ht), Toolkit.store, storeIn, if_neg]
  rw [List.length_append, List.length_singleton, hd.1]
  omega

end Strings

end PoAccess

end OpenwrtMtk.Luci
