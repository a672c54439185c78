import Mathlib.Algebra.Ring.Rat
import Mathlib.Data.List.TakeWhile
import OpenwrtMtk.Luci.Characters

/-!
# Texts as numbers of Lua

`tonumber` of an interpreter with integers of 32 bits beside its floating point numbers, on a target
with `unsigned long` of 32 bits. Numbers are the rationals that they stand for, and `strtod` is a
parameter. Texts end at their first null.
-/

namespace OpenwrtMtk.Luci

open Toolkit

set_option autoImplicit false

def digitsValue (base : Nat) (ds : List U8) : Nat :=
  ds.foldl (fun n c => base * n + (hexValue c).getD 0) 0

/-- `strtod`, with what it stops at; none where it reads no number. -/
structure Reals where
  strtod : List U8 → Option (Rat × List U8)
  strtod_digits : ∀ ds, (∀ d ∈ ds, isdigit d = true) → 2 ^ 31 ≤ digitsValue 10 ds →
    ∃ x, strtod ds = some (x, []) ∧ 2 ^ 31 ≤ x

def isDigitOf (base : Nat) (c : U8) : Bool := (hexValue c).any (· < base)

/-- The text behind a leading `0x`. -/
def dropHexMark : List U8 → List U8
  | zero :: x :: c :: rest =>
    if zero = 0x30 ∧ (x = 0x78 ∨ x = 0x58) ∧ isDigitOf 16 c = true then c :: rest
    else zero :: x :: c :: rest
  | s => s

/-- The result of `strtoul`, whether it is out of range, and what it stops at; none where there is no
digit. -/
def strtoul (base : Nat) (s : List U8) : Option (Nat × Bool × List U8) :=
  let t := s.dropWhile isspace
  let negative := t.head? = some 0x2d
  let t := if t.head? = some 0x2d ∨ t.head? = some 0x2b then t.tail else t
  let t := if base = 16 then dropHexMark t else t
  let ds := t.takeWhile (isDigitOf base)
  let n := digitsValue base ds
  let rest := t.dropWhile (isDigitOf base)
  if ds = [] then none
  else if 2 ^ 32 ≤ n then some (2 ^ 32 - 1, true, rest)
  else if negative then some ((2 ^ 32 - n) % 2 ^ 32, false, rest)
  else some (n, false, rest)

inductive Numeral where
  | int (n : Int) (rest : List U8)
  | real

/-- What `luaO_str2i` makes of a number read in base 10. -/
def intNumeral (v : Nat) (rest : List U8) : Option Numeral :=
  if v = 0 ∧ rest.head? = some 0x78 then
    match strtoul 16 rest.tail with
    | none => some (.int 0 rest.tail)
    | some (v, range, rest) =>
      if range then some .real
      else if 2 ^ 31 ≤ v then some (.int (v - 2 ^ 32) rest) else some (.int v rest)
  else if 2 ^ 31 ≤ v ∨ rest.head?.any (fun c => !isspace c) = true then some .real
  else some (.int v rest)

/-- `luaO_str2i`. -/
def str2i (s : List U8) : Option Numeral := (strtoul 10 s).bind fun r => intNumeral r.1 r.2.2

/-- `luaO_str2d`. -/
def str2d (R : Reals) (s : List U8) : Option Rat := do
  let (x, rest) ← match ← str2i s with
    | .int n rest => some ((n : Rat), rest)
    | .real => R.strtod s
  if rest.dropWhile isspace = [] then some x else none

def tonumber (R : Reals) (s : List U8) : Option Rat := str2d R (s.takeWhile fun c => c != 0)

/-- `tonumber(s, 16)`. -/
def tonumber16 (s : List U8) : Option Nat := do
  let (v, _, rest) ← strtoul 16 (s.takeWhile fun c => c != 0)
  if rest.dropWhile isspace = [] then some v else none

section Digits

variable {base n : Nat} {c : U8} {s ds rest : List U8}

theorem hexDigit_bare : ∀ c : U8, isDigitOf 16 c = true →
    isspace c = false ∧ c ≠ 0x2d ∧ c ≠ 0x2b ∧ c ≠ 0 ∧ c ≠ 0x78 ∧ c ≠ 0x58 := by
  decide +kernel

theorem isDigitOf_ten : ∀ c : U8, isDigitOf 10 c = isdigit c := by
  decide +kernel

theorem isDigitOf_sixteen : ∀ c : U8, isdigit c = true → isDigitOf 16 c = true := by
  decide +kernel

theorem hexValue_isdigit : ∀ c : U8, isdigit c = true → (hexValue c).getD 0 = c.toNat - 0x30 := by
  decide +kernel

theorem takeWhile_all {p : U8 → Bool} (h : ∀ c ∈ s, p c = true) : s.takeWhile p = s :=
  List.takeWhile_eq_self_iff.mpr h

theorem dropWhile_all {p : U8 → Bool} (h : ∀ c ∈ s, p c = true) : s.dropWhile p = [] :=
  List.dropWhile_eq_nil_iff.mpr h

theorem dropHexMark_digits (h : ∀ d ∈ ds, isDigitOf 16 d = true) : dropHexMark ds = ds := by
  match ds with
  | [] => rfl
  | [_] => rfl
  | [_, _] => rfl
  | zero :: x :: c :: rest =>
    have hx := hexDigit_bare x (h x (by simp))
    rw [dropHexMark, if_neg]
    rintro ⟨-, heq | heq, -⟩
    · exact hx.2.2.2.2.1 heq
    · exact hx.2.2.2.2.2 heq

theorem strtoul_digits (hbase : base = 10 ∨ base = 16) (hds : ∀ d ∈ ds, isDigitOf base d = true)
    (hne : ds ≠ []) : strtoul base ds =
      if 2 ^ 32 ≤ digitsValue base ds then some (2 ^ 32 - 1, true, [])
      else some (digitsValue base ds, false, []) := by
  have hhex : ∀ d ∈ ds, isDigitOf 16 d = true := by
    intro d hd
    rcases hbase with rfl | rfl
    · exact isDigitOf_sixteen d ((isDigitOf_ten d).symm.trans (hds d hd))
    · exact hds d hd
  obtain ⟨c, r, rfl⟩ := List.exists_cons_of_ne_nil hne
  have hc := hexDigit_bare c (hhex c List.mem_cons_self)
  have hspace : (c :: r).dropWhile isspace = c :: r := List.dropWhile_cons_of_neg (by simp [hc.1])
  have hminus : ¬some c = some (0x2d : U8) := fun heq => hc.2.1 (Option.some.inj heq)
  have hplus : ¬some c = some (0x2b : U8) := fun heq => hc.2.2.1 (Option.some.inj heq)
  have hsign : ¬(some c = some (0x2d : U8) ∨ some c = some 0x2b) :=
    fun h => h.elim hminus hplus
  have hmark : (if base = 16 then dropHexMark (c :: r) else c :: r) = c :: r := by
    split
    · exact dropHexMark_digits hhex
    · rfl
  simp only [strtoul, hspace, List.head?_cons, if_neg hsign, hmark, takeWhile_all hds,
    dropWhile_all hds, if_neg hne, if_neg hminus]

theorem digits_no_null (h : ∀ d ∈ ds, isDigitOf 16 d = true) :
    ds.takeWhile (fun c => c != 0) = ds :=
  takeWhile_all fun d hd => bne_iff_ne.mpr (hexDigit_bare d (h d hd)).2.2.2.1

theorem tonumber16_digits (hds : ∀ d ∈ ds, isDigitOf 16 d = true) (hne : ds ≠ [])
    (hn : digitsValue 16 ds < 2 ^ 32) : tonumber16 ds = some (digitsValue 16 ds) := by
  rw [tonumber16, digits_no_null hds, strtoul_digits (.inr rfl) hds hne,
    if_neg (Nat.not_le.mpr hn)]
  rfl

theorem digitsValue_foldl (hds : ∀ d ∈ ds, isdigit d = true) (start : Nat) :
    ds.foldl (fun n c => 10 * n + (hexValue c).getD 0) start =
      ds.foldl (fun n d => 10 * n + (d.toNat - 0x30)) start := by
  induction ds generalizing start with
  | nil => rfl
  | cons d ds ih =>
    obtain ⟨hd, hds⟩ := List.forall_mem_cons.mp hds
    rw [List.foldl_cons, List.foldl_cons, ih hds, hexValue_isdigit d hd]

theorem digitsValue_digits (n : Nat) : digitsValue 10 (digits n) = n := by
  rw [digitsValue, digitsValue_foldl (digits_isdigit n), digits_value]

theorem intNumeral_nil (v : Nat) :
    intNumeral v [] = if 2 ^ 31 ≤ v then some .real else some (.int v []) := by
  rw [intNumeral, if_neg fun h => nomatch h.2]
  by_cases h : 2 ^ 31 ≤ v
  · rw [if_pos (.inl h), if_pos h]
  · rw [if_neg fun hor => hor.elim h nofun, if_neg h]

theorem str2i_digits (hds : ∀ d ∈ ds, isdigit d = true) (hne : ds ≠ []) : str2i ds =
    if 2 ^ 31 ≤ digitsValue 10 ds then some .real else some (.int (digitsValue 10 ds) []) := by
  have hten : ∀ d ∈ ds, isDigitOf 10 d = true := fun d hd => (isDigitOf_ten d).trans (hds d hd)
  rw [str2i, strtoul_digits (.inl rfl) hten hne]
  by_cases hrange : 2 ^ 32 ≤ digitsValue 10 ds
  · rw [if_pos hrange, Option.bind_some, intNumeral_nil, if_pos (by decide), if_pos (by omega)]
  · rw [if_neg hrange, Option.bind_some, intNumeral_nil]

theorem tonumber_digits (R : Reals) (hds : ∀ d ∈ ds, isdigit d = true) (hne : ds ≠ []) :
    ∃ x, tonumber R ds = some x ∧ (digitsValue 10 ds < 2 ^ 31 → x = digitsValue 10 ds) ∧
      (2 ^ 31 ≤ digitsValue 10 ds → 2 ^ 31 ≤ x) := by
  rw [tonumber, digits_no_null fun d hd => isDigitOf_sixteen d (hds d hd), str2d,
    str2i_digits hds hne]
  by_cases hlarge : 2 ^ 31 ≤ digitsValue 10 ds
  · obtain ⟨x, hx, hle⟩ := R.strtod_digits ds hds hlarge
    refine ⟨x, ?_, fun h => absurd hlarge (Nat.not_le.mpr h), fun _ => hle⟩
    rw [if_pos hlarge]
    dsimp only [Option.bind_eq_bind, Option.bind_some]
    rw [hx]
    rfl
  · refine ⟨digitsValue 10 ds, ?_, fun _ => rfl, fun h => absurd h hlarge⟩
    rw [if_neg hlarge]
    rfl

end Digits

/-- `strtod` of texts that begin with a digit and have no fraction or exponent. -/
def strtodWhole (s : List U8) : Option (Rat × List U8) :=
  if s.takeWhile isdigit = [] then none
  else some ((digitsValue 10 (s.takeWhile isdigit) : Rat), s.dropWhile isdigit)

theorem strtodWhole_digits (ds : List U8) (hds : ∀ d ∈ ds, isdigit d = true)
    (hlarge : 2 ^ 31 ≤ digitsValue 10 ds) :
    ∃ x, strtodWhole ds = some (x, []) ∧ 2 ^ 31 ≤ x := by
  have hne : ds ≠ [] := by
    rintro rfl
    exact absurd hlarge (by decide)
  refine ⟨(digitsValue 10 ds : Rat), ?_, by exact_mod_cast hlarge⟩
  rw [strtodWhole, takeWhile_all hds, dropWhile_all hds, if_neg hne]

def wholeReals : Reals := ⟨strtodWhole, strtodWhole_digits⟩

end OpenwrtMtk.Luci
