import OpenwrtMtk.Luci.TemplateParser

/-!
# Texts as Lua strings

`read_string` of the Lua 5.1 lexer, and what it reads of a text that `luastr_escape` has put between
double quotes.
-/

namespace OpenwrtMtk.Luci

open Toolkit

set_option autoImplicit false

def escapeLetter (c : U8) : U8 :=
  if c = 0x61 then 7 else if c = 0x62 then 8 else if c = 0x66 then 12 else if c = 0x6e then 10
  else if c = 0x72 then 13 else if c = 0x74 then 9 else if c = 0x76 then 11 else c

def isBreak (c : U8) : Bool := c = 0x0a || c = 0x0d

/-- What stands behind a backslash: a byte, and how many bytes are used up. A line break may be two
bytes; a number has up to three digits and is at most 255. -/
def escapeSequence (r : List U8) : Option (U8 × Nat) :=
  match r with
  | [] => none
  | e :: r =>
    if isdigit e then
      let ds := e :: (r.take 2).takeWhile isdigit
      let n := ds.foldl (fun n d => 10 * n + (d.toNat - 0x30)) 0
      if n ≤ 255 then some (BitVec.ofNat 8 n, ds.length) else none
    else if isBreak e then
      some (0x0a, if r.head?.any fun d => isBreak d && d ≠ e then 2 else 1)
    else some (escapeLetter e, 1)

/-- `read_string` behind the opening quote: the value, and what follows the closing quote. So many
bytes belong to the escape sequence before. -/
def readString : Nat → List U8 → Option (List U8 × List U8)
  | _, [] => none
  | skip + 1, _ :: r => readString skip r
  | 0, c :: r =>
    if c = 0x22 then some ([], r)
    else if isBreak c then none
    else if c = 0x5c then
      match escapeSequence r with
      | none => none
      | some (b, used) => (readString used r).map fun x => (b :: x.1, x.2)
    else (readString 0 r).map fun x => (c :: x.1, x.2)

section Escape

variable {c : U8} {s r : List U8}

theorem readString_break (hc : isBreak c = true) : readString 0 (c :: r) = none := by
  have hquote : c ≠ 0x22 := by
    rintro rfl
    cases hc
  rw [readString, if_neg hquote, if_pos hc]

theorem readString_escapeByte (hc : c ≠ 0x0d) :
    readString 0 (escapeByte false c ++ r) = (readString 0 r).map fun x => (c :: x.1, x.2) := by
  by_cases hslash : c = 0x5c
  · subst hslash
    rfl
  · by_cases hquote : c = 0x22
    · subst hquote
      rfl
    · by_cases hline : c = 0x0a
      · subst hline
        rfl
      · have hsame : escapeByte false c = [c] := by
          rw [escapeByte, if_neg hslash, if_neg hquote, if_neg hline, Bool.false_and,
            if_neg Bool.false_ne_true]
        have hplain : isBreak c = false := by
          rw [isBreak, decide_eq_false hline, decide_eq_false hc, Bool.or_false]
        rw [hsame, List.singleton_append, readString, if_neg hquote, hplain,
          if_neg Bool.false_ne_true, if_neg hslash]

theorem escapeByte_return : escapeByte false 0x0d = [0x0d] := rfl

theorem luastrEscape_cons : luastrEscape false (c :: s) = escapeByte false c ++ luastrEscape false s :=
  List.flatMap_cons

theorem readString_luastrEscape (h : 0x0d ∉ s) :
    readString 0 (luastrEscape false s ++ 0x22 :: r) = some (s, r) := by
  induction s with
  | nil => rfl
  | cons c s ih =>
    rw [List.mem_cons, not_or] at h
    rw [luastrEscape_cons, List.append_assoc, readString_escapeByte (Ne.symm h.1), ih h.2]
    rfl

theorem readString_return (h : 0x0d ∈ s) : readString 0 (luastrEscape false s ++ r) = none := by
  induction s with
  | nil => exact absurd h List.not_mem_nil
  | cons c s ih =>
    rw [luastrEscape_cons, List.append_assoc]
    by_cases hc : c = 0x0d
    · subst hc
      rw [escapeByte_return]
      exact readString_break rfl
    · have hlater : 0x0d ∈ s := (List.mem_cons.mp h).resolve_left (Ne.symm hc)
      rw [readString_escapeByte hc, ih hlater]
      rfl

end Escape

/-- The escaped text is one literal with the value of the text, unless it has a carriage return. -/
theorem literal_iff_no_return (s : List U8) :
    readString 0 (luastrEscape false s ++ [0x22]) = some (s, []) ↔ 0x0d ∉ s := by
  constructor
  · intro h hmem
    rw [readString_return hmem] at h
    cases h
  · exact readString_luastrEscape

theorem return_is_no_literal : readString 0 (luastrEscape false [0x61, 0x0d, 0x0a] ++ [0x22]) = none := by
  decide

end OpenwrtMtk.Luci
