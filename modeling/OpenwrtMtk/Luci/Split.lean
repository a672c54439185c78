import OpenwrtMtk.Lib.Bytes
import OpenwrtMtk.Lib.Separated

/-!
# `luci.util.split` at a plain separator

The loop finds the separator from where it stands, takes what is before it, and goes on behind it. It
counts `max` down, and the piece with which `max` falls below zero is all that is left. Indices into
strings start at one, as Lua's do.
-/

namespace OpenwrtMtk.Luci.Util

open Toolkit

set_option autoImplicit false

/-- `str:find(pat, init, true)`: the first and the last byte of the match. -/
def find (str pat : List U8) (init : Nat) : Option (Nat × Nat) :=
  (firstAt pat (str.drop (init - 1))).map fun i => (init + i, init + i + pat.length - 1)

/-- `str:sub(i, j)` of positive `i` and no negative `j`, which may be absent. -/
def sub (str : List U8) (i : Nat) (j : Option Nat) : List U8 :=
  (str.take (j.getD str.length)).drop (i - 1)

/-- So many turns of the loop, which stands at `c` and has put `t` aside. -/
def splitLoop (str pat : List U8) : Nat → Nat → Int → List (List U8) → Option (List (List U8))
  | 0, _, _, _ => none
  | turns + 1, c, max, t =>
    let found := find str pat c
    let max := max - 1
    let piece :=
      if found.isSome ∧ max < 0 then sub str c none
      else sub str c (found.map fun x => x.1 - 1)
    let t := t ++ [piece]
    let c := (found.map fun x => x.2 + 1).getD (str.length + 1)
    if found.isNone ∨ max < 0 then some t else splitLoop str pat turns c max t

inductive Value where
  | nil
  | string (s : List U8)
  | table (t : List (List U8))
  deriving DecidableEq

/-- `split(str, pat, max)`. In each turn but the last a byte at least is left behind. -/
def split (str : List U8) (pat : Option (List U8)) (max : Option Int) : Option Value :=
  let pat := pat.getD [0x0a]
  let max := max.getD str.length
  if str.length = 0 then some (.table [[]])
  else if pat.length = 0 then some .nil
  else if max = 0 then some (.string str)
  else (splitLoop str pat (str.length + 1) 1 max []).map .table

section Loop

variable {str pat : List U8} {c : Nat}

theorem sub_rest : sub str (c + 1) none = str.drop c := by
  rw [sub, Option.getD_none, List.take_length, Nat.add_sub_cancel]

theorem sub_before (i : Nat) : sub str (c + 1) (some (c + 1 + i - 1)) = (str.drop c).take i := by
  rw [sub, Option.getD_some, Nat.add_sub_cancel, List.take_drop,
    show c + 1 + i - 1 = c + i by omega]

theorem find_none (h : firstAt pat (str.drop c) = none) : find str pat (c + 1) = none := by
  rw [find, Nat.add_sub_cancel, h]
  rfl

theorem find_some {i : Nat} (h : firstAt pat (str.drop c) = some i) :
    find str pat (c + 1) = some (c + 1 + i, c + 1 + i + pat.length - 1) := by
  rw [find, Nat.add_sub_cancel, h]
  rfl

theorem splitLoop_cut (hpat : pat ≠ []) (k : Nat) (t : List (List U8)) {turns : Nat}
    (hturns : (str.drop c).length < turns) :
    ∃ pieces, splitLoop str pat turns (c + 1) k t = some (t ++ pieces) ∧
      Cut pat k (str.drop c) pieces := by
  induction turns generalizing c k t with
  | zero => omega
  | succ turns ih =>
    rw [splitLoop]
    cases hfirst : firstAt pat (str.drop c) with
    | none =>
      rw [find_none hfirst, if_pos (Or.inl Option.isNone_none),
        if_neg (fun h => Bool.false_ne_true h.1)]
      refine ⟨[str.drop c], ?_, .free k (firstAt_none hfirst)⟩
      rw [Option.map_none, sub_rest]
    | some i =>
      obtain ⟨⟨rest, hrest⟩, hfree⟩ := firstAt_some hpat hfirst
      rw [find_some hfirst]
      cases k with
      | zero =>
        have hlast : ((0 : Nat) : Int) - 1 < 0 := by decide
        rw [if_pos (Or.inr hlast), if_pos ⟨Option.isSome_some, hlast⟩, sub_rest]
        exact ⟨[str.drop c], rfl, .rest _⟩
      | succ k =>
        have hsucc : ((k + 1 : Nat) : Int) - 1 = k := by omega
        have hmore : ¬(k : Int) < 0 := by omega
        have hlength := congrArg List.length hrest
        rw [List.length_append, List.length_append, List.length_take] at hlength
        have hpos : 0 < pat.length := List.length_pos_iff.mpr hpat
        have hbehind : str.drop (c + i + pat.length) = rest := by
          rw [Nat.add_assoc, ← List.drop_drop, hrest]
          apply List.drop_left'
          rw [List.length_append, List.length_take]
          omega
        obtain ⟨pieces, hloop, hcut⟩ := ih (c := c + i + pat.length) k
          (t ++ [(str.drop c).take i]) (by rw [hbehind]; omega)
        refine ⟨(str.drop c).take i :: pieces, ?_, ?_⟩
        · rw [hsucc, Option.isNone_some, if_neg (not_or.mpr ⟨Bool.false_ne_true, hmore⟩),
            if_neg (fun h => hmore h.2), Option.map_some, Option.map_some, sub_before, Option.getD_some,
            show c + 1 + i + pat.length - 1 + 1 = c + i + pat.length + 1 by omega, hloop,
            List.append_assoc]
          rfl
        · rw [hbehind] at hcut
          have hnext := Cut.next hfree hcut
          rw [← hrest] at hnext
          exact hnext

end Loop

theorem split_cut (str : List U8) {pat : List U8} {max : Nat} (hpat : pat ≠ []) (hmax : 1 ≤ max) :
    ∃ pieces, split str (some pat) (some max) = some (.table pieces) ∧ Cut pat max str pieces := by
  rw [split]
  dsimp only [Option.getD_some]
  by_cases hstr : str.length = 0
  · rw [List.length_eq_zero_iff] at hstr
    subst hstr
    refine ⟨[[]], rfl, .free max ?_⟩
    rw [List.infix_nil]
    exact hpat
  · have hturns : (str.drop 0).length < str.length + 1 := Nat.lt_succ_self str.length
    obtain ⟨pieces, hloop, hcut⟩ := splitLoop_cut (c := 0) hpat max [] hturns
    refine ⟨pieces, ?_, hcut⟩
    rw [if_neg hstr, if_neg (fun h => hpat (List.length_eq_zero_iff.mp h)), if_neg (by omega),
      hloop]
    rfl

theorem split_loses_nothing (str pat : List U8) (max : Nat) (hpat : pat ≠ []) (hmax : 1 ≤ max) :
    ∃ pieces, split str (some pat) (some max) = some (.table pieces) ∧
      pat.intercalate pieces = str ∧
      (∀ piece ∈ pieces.dropLast, ¬pat <:+: piece) ∧
      (∀ piece, pieces.getLast? = some piece → pat <:+: piece → pieces.length = max + 1) ∧
      pieces.length ≤ max + 1 := by
  obtain ⟨pieces, hsplit, hcut⟩ := split_cut str hpat hmax
  exact ⟨pieces, hsplit, hcut.join, hcut.free_dropLast, fun _ => hcut.free_getLast, hcut.length_le⟩

/-- `a----` at two dashes, once: what is left behind the first match holds a match too. -/
theorem split_loses_nothing_dashes :
    ∃ pieces, split [0x61, 0x2d, 0x2d, 0x2d, 0x2d] (some [0x2d, 0x2d]) (some (1 : Nat)) =
        some (.table pieces) ∧
      [0x2d, 0x2d].intercalate pieces = ([0x61, 0x2d, 0x2d, 0x2d, 0x2d] : List U8) ∧
      (∀ piece ∈ pieces.dropLast, ¬[0x2d, 0x2d] <:+: piece) ∧
      (∀ piece, pieces.getLast? = some piece → [0x2d, 0x2d] <:+: piece →
        pieces.length = 1 + 1) ∧
      pieces.length ≤ 1 + 1 :=
  split_loses_nothing [0x61, 0x2d, 0x2d, 0x2d, 0x2d] [0x2d, 0x2d] 1 (List.cons_ne_nil _ _)
    (Nat.le_refl 1)

end OpenwrtMtk.Luci.Util
