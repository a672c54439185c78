import Mathlib.Data.List.TakeWhile
import OpenwrtMtk.Lib.Utf8

/-!
# Sanitising UTF-8

`utf8` of `template_utils.c`. A pointer is the bytes from there to the end of the string, and a read
behind them has no result. Allocations succeed.
-/

namespace OpenwrtMtk.Luci

open Toolkit

set_option autoImplicit false

def byteIs (s : List U8) (i : Nat) (p : U8 → Bool) : Option Bool := (s[i]?).map p

/-- `&&`: the second operand is evaluated if the first one holds. -/
def both : Option Bool → Option Bool → Option Bool
  | some true, y => y
  | x, _ => x

/-- `mb_num_chars`. -/
def mbNumChars (c : U8) : Nat :=
  if c &&& 0xe0 = 0xc0 then 2
  else if c &&& 0xf0 = 0xe0 then 3
  else if c &&& 0xf8 = 0xf0 then 4
  else if c &&& 0xfc = 0xf8 then 5
  else if c &&& 0xfe = 0xfc then 6
  else 1

/-- `mb_is_cont`. -/
def mbIsCont (c : U8) : Bool := 0x80 ≤ c.toNat && c.toNat ≤ 0xbf

/-- `mb_is_shortest`. -/
def mbIsShortest (s : List U8) (n : Nat) : Option Bool :=
  let overlong : Option Bool :=
    match n with
    | 2 => both (byteIs s 0 (· >>> 1 = 0x60)) (byteIs s 1 (· >>> 6 = 0x02))
    | 3 => both (byteIs s 0 (· = 0xe0)) (both (byteIs s 1 (· >>> 5 = 0x04)) (byteIs s 2 (· >>> 6 = 0x02)))
    | 4 => both (byteIs s 0 (· = 0xf0)) (both (byteIs s 1 (· >>> 4 = 0x08))
        (both (byteIs s 2 (· >>> 6 = 0x02)) (byteIs s 3 (· >>> 6 = 0x02))))
    | 5 => both (byteIs s 0 (· = 0xf8)) (both (byteIs s 1 (· >>> 3 = 0x10))
        (both (byteIs s 2 (· >>> 6 = 0x02)) (both (byteIs s 3 (· >>> 6 = 0x02))
          (byteIs s 4 (· >>> 6 = 0x02)))))
    | 6 => both (byteIs s 0 (· = 0xf8)) (both (byteIs s 1 (· >>> 2 = 0x20))
        (both (byteIs s 2 (· >>> 6 = 0x02)) (both (byteIs s 3 (· >>> 6 = 0x02))
          (both (byteIs s 4 (· >>> 6 = 0x02)) (byteIs s 5 (· >>> 6 = 0x02))))))
    | _ => some false
  overlong.map not

/-- `mb_is_surrogate`. -/
def mbIsSurrogate (s : List U8) (n : Nat) : Option Bool :=
  both (some (n = 3)) (both (byteIs s 0 (· = 0xed)) (both (byteIs s 1 fun c => 0xa0 ≤ c.toNat)
    (byteIs s 1 fun c => c.toNat ≤ 0xbf)))

/-- `mb_is_illegal`. -/
def mbIsIllegal (s : List U8) (n : Nat) : Option Bool :=
  both (some (n = 3)) (both (byteIs s 0 (· = 0xef)) (both (byteIs s 1 (· = 0xbf))
    (both (byteIs s 2 fun c => 0xbe ≤ c.toNat) (byteIs s 2 fun c => c.toNat ≤ 0xbf))))

/-- The loop that counts valid characters, with `n + 1 - v` turns left. -/
def countChars (s : List U8) (l : Nat) : Nat → Nat → Option Nat
  | 0, v => some v
  | turns + 1, v =>
    if v < l then do
      if mbIsCont (← s[v]?) then countChars s l turns (v + 1) else some v
    else some v

def isAscii (c : U8) : Bool := 0x01 ≤ c.toNat && c.toNat ≤ 0x7f

/-- `_validate_utf8`: how far the pointer moves, and what is put into the buffer. -/
def validateUtf8 (s : List U8) (l : Nat) : Option (Nat × List U8) := do
  let c ← s[0]?
  if isAscii c then some (1, [c])
  else
    let n := mbNumChars c
    if 1 < n then do
      let v ← countChars s l n 1
      if n = 6 ∨ n = 5 then some (v, [0x3f])
      else do
        let legal ← both (some (v = n)) (both (mbIsShortest s n)
          (both ((mbIsSurrogate s n).map not) ((mbIsIllegal s n).map not)))
        if legal then
          if n ≤ s.length then some (v, s.take n) else none
        else some (v, [0x3f])
    else some (1, [0x3f])

/-- The loop of `utf8`. Each turn but the last takes a byte. -/
def utf8Loop (l : Nat) : Nat → List U8 → Nat → List U8 → Option (List U8)
  | 0, _, _, _ => none
  | turns + 1, s, o, buf =>
    if o < l then do
      let c ← s[0]?
      if isAscii c then utf8Loop l turns (s.drop 1) (o + 1) (buf ++ [c])
      else
        let (v, bytes) ← validateUtf8 s (l - o)
        utf8Loop l turns (s.drop v) (o + (v - 1) + 1) (buf ++ bytes)
    else some buf

def utf8 (s : List U8) (l : Nat) : Option (List U8) := utf8Loop l (l + 1) s 0 []

example : utf8 [0x61, 0xc3, 0xa4, 0x80, 0x00, 0xe2, 0x82] 7 = some [0x61, 0x3f, 0x3f, 0x3f] := by
  decide

end OpenwrtMtk.Luci

/-!
## What is taken for a character

A sequence is copied if it has the length that its first byte asks for, no continuation byte follows,
and it passes the three tests. Whatever else is found becomes a question mark, together with the
continuation bytes behind it.
-/

namespace OpenwrtMtk.Luci

open Toolkit

set_option autoImplicit false

/-- The sequences that are copied. Those of four bytes may stand for too large a number. -/
inductive Accepted : List U8 → Prop where
  | two {a b : U8} : 0xc2 ≤ a.toNat → a.toNat < 0xe0 → isCont b = true → Accepted [a, b]
  | three {a b d : U8} : 0xe0 ≤ a.toNat → a.toNat < 0xf0 → isCont b = true → isCont d = true →
      (a.toNat = 0xe0 → 0xa0 ≤ b.toNat) → (a.toNat = 0xed → b.toNat < 0xa0) →
      (a.toNat = 0xef → b.toNat = 0xbf → d.toNat < 0xbe) → Accepted [a, b, d]
  | four {a b d e : U8} : 0xf0 ≤ a.toNat → a.toNat < 0xf8 → isCont b = true → isCont d = true →
      isCont e = true → (a.toNat = 0xf0 → 0x90 ≤ b.toNat) → Accepted [a, b, d, e]

def Ends (r : List U8) : Prop := ∀ c ∈ r.head?, isCont c = false

section Bytes

theorem mbIsCont_eq : mbIsCont = isCont := by
  funext c
  rw [mbIsCont, isCont, decide_eq_decide.mpr (Nat.lt_succ_iff.symm : c.toNat ≤ 0xbf ↔ _)]

theorem numChars_eq : ∀ a : U8, mbNumChars a =
    if a.toNat < 0xc0 then 1 else if a.toNat < 0xe0 then 2 else if a.toNat < 0xf0 then 3
    else if a.toNat < 0xf8 then 4 else if a.toNat < 0xfc then 5 else if a.toNat < 0xfe then 6
    else 1 := by
  decide +kernel

theorem numChars_two (a : U8) : mbNumChars a = 2 ↔ 0xc0 ≤ a.toNat ∧ a.toNat < 0xe0 := by
  rw [numChars_eq]
  split_ifs <;> omega

theorem numChars_three (a : U8) : mbNumChars a = 3 ↔ 0xe0 ≤ a.toNat ∧ a.toNat < 0xf0 := by
  rw [numChars_eq]
  split_ifs <;> omega

theorem numChars_four (a : U8) : mbNumChars a = 4 ↔ 0xf0 ≤ a.toNat ∧ a.toNat < 0xf8 := by
  rw [numChars_eq]
  split_ifs <;> omega

theorem numChars_range (a : U8) : 1 ≤ mbNumChars a ∧ mbNumChars a ≤ 6 := by
  unfold mbNumChars
  split_ifs <;> decide

theorem shift_eq (a v : U8) (n : Nat) : a >>> n = v ↔ a.toNat / 2 ^ n = v.toNat := by
  rw [← BitVec.toNat_inj, BitVec.toNat_ushiftRight, Nat.shiftRight_eq_div_pow]

theorem shift_one (a : U8) : a >>> 1 = 0x60 ↔ a.toNat = 0xc0 ∨ a.toNat = 0xc1 := by
  rw [shift_eq]
  change a.toNat / 2 = 0x60 ↔ _
  omega

theorem shift_four (a : U8) : a >>> 4 = 0x08 ↔ 0x80 ≤ a.toNat ∧ a.toNat < 0x90 := by
  rw [shift_eq]
  change a.toNat / 16 = 0x08 ↔ _
  omega

theorem shift_five (a : U8) : a >>> 5 = 0x04 ↔ 0x80 ≤ a.toNat ∧ a.toNat < 0xa0 := by
  rw [shift_eq]
  change a.toNat / 32 = 0x04 ↔ _
  omega

theorem shift_six (a : U8) : a >>> 6 = 0x02 ↔ 0x80 ≤ a.toNat ∧ a.toNat < 0xc0 := by
  rw [shift_eq]
  change a.toNat / 64 = 0x02 ↔ _
  omega

theorem isAscii_iff {c : U8} : isAscii c = true ↔ 0x01 ≤ c.toNat ∧ c.toNat ≤ 0x7f := by
  rw [isAscii, Bool.and_eq_true, decide_eq_true_iff, decide_eq_true_iff]

end Bytes

section Count

theorem countChars_eq {s : List U8} (turns v : Nat) :
    countChars s s.length turns v = some (v + (((s.drop v).take turns).takeWhile isCont).length) := by
  induction turns generalizing v with
  | zero => rfl
  | succ turns ih =>
    rw [countChars]
    by_cases hin : v < s.length
    · rw [if_pos hin, List.drop_eq_getElem_cons hin, List.take_succ_cons, List.takeWhile_cons,
        List.getElem?_eq_getElem hin, mbIsCont_eq]
      dsimp only [Option.bind_eq_bind, Option.bind_some]
      by_cases hcont : isCont s[v] = true
      · rw [if_pos hcont, if_pos hcont, ih, List.length_cons]
        exact congrArg some (by omega)
      · rw [if_neg hcont, if_neg hcont]
        rfl
    · rw [if_neg hin, List.drop_eq_nil_of_le (Nat.not_lt.mp hin)]
      rfl

end Count

section Tests

variable {a b d e : U8} {r : List U8}

def passes (s : List U8) (n : Nat) : Option Bool :=
  both (mbIsShortest s n) (both ((mbIsSurrogate s n).map not) ((mbIsIllegal s n).map not))

theorem both_some (x y : Bool) : both (some x) (some y) = some (x && y) := by
  cases x <;> rfl

theorem byte_eq_iff {n : Nat} (h : n < 0x100) : a = BitVec.ofNat 8 n ↔ a.toNat = n := by
  rw [BitVec.toNat_eq, byte_toNat h]

theorem passes_two (hb : isCont b = true) (ha : 0xc0 ≤ a.toNat) :
    passes (a :: b :: r) 2 = some (decide (0xc2 ≤ a.toNat)) := by
  rw [isCont_iff] at hb
  have hsurrogate : mbIsSurrogate (a :: b :: r) 2 = some false := rfl
  have hillegal : mbIsIllegal (a :: b :: r) 2 = some false := rfl
  rw [passes, hsurrogate, hillegal]
  unfold mbIsShortest
  dsimp only [byteIs, List.getElem?_cons_zero, List.getElem?_cons_succ, Option.map_some]
  simp only [both_some, Option.map_some, shift_one, shift_six, hb.1, hb.2, and_self, decide_true,
    Bool.and_true, Bool.not_false]
  rw [Option.some.injEq, Bool.eq_iff_iff, Bool.not_eq_true', decide_eq_false_iff_not,
    decide_eq_true_iff]
  omega

theorem passes_three (hb : isCont b = true) (hd : isCont d = true) :
    passes (a :: b :: d :: r) 3 = some (decide ((a.toNat = 0xe0 → 0xa0 ≤ b.toNat) ∧
      (a.toNat = 0xed → b.toNat < 0xa0) ∧ (a.toNat = 0xef → b.toNat = 0xbf → d.toNat < 0xbe))) := by
  rw [isCont_iff] at hb hd
  have h1 : a = 0xe0 ↔ a.toNat = 0xe0 := byte_eq_iff (by decide)
  have h2 : a = 0xed ↔ a.toNat = 0xed := byte_eq_iff (by decide)
  have h3 : a = 0xef ↔ a.toNat = 0xef := byte_eq_iff (by decide)
  have h4 : b = 0xbf ↔ b.toNat = 0xbf := byte_eq_iff (by decide)
  unfold passes mbIsShortest mbIsSurrogate mbIsIllegal
  dsimp only [byteIs, List.getElem?_cons_zero, List.getElem?_cons_succ, Option.map_some]
  simp only [both_some, Option.map_some, shift_five, shift_six, hd.1, hd.2, and_self, decide_true,
    Bool.and_true, Bool.true_and, h1, h2, h3, h4]
  rw [Option.some.injEq, Bool.eq_iff_iff]
  simp only [Bool.not_and, Bool.and_eq_true, Bool.or_eq_true, Bool.not_eq_true', decide_eq_true_eq,
    decide_eq_false_iff_not]
  omega

theorem passes_four (hb : isCont b = true) (hd : isCont d = true) (he : isCont e = true) :
    passes (a :: b :: d :: e :: r) 4 = some (decide (a.toNat = 0xf0 → 0x90 ≤ b.toNat)) := by
  rw [isCont_iff] at hb hd he
  have h1 : a = 0xf0 ↔ a.toNat = 0xf0 := byte_eq_iff (by decide)
  have hsurrogate : mbIsSurrogate (a :: b :: d :: e :: r) 4 = some false := rfl
  have hillegal : mbIsIllegal (a :: b :: d :: e :: r) 4 = some false := rfl
  rw [passes, hsurrogate, hillegal]
  unfold mbIsShortest
  dsimp only [byteIs, List.getElem?_cons_zero, List.getElem?_cons_succ, Option.map_some]
  simp only [both_some, Option.map_some, shift_four, shift_six, hd.1, hd.2, he.1, he.2, and_self,
    decide_true, Bool.and_true, Bool.not_false, h1]
  rw [Option.some.injEq, Bool.eq_iff_iff]
  simp only [Bool.not_and, Bool.or_eq_true, Bool.not_eq_true', decide_eq_true_eq,
    decide_eq_false_iff_not]
  omega

end Tests

section Steps

variable {c : U8} {r w : List U8}

theorem takeWhile_ends (h : Ends r) (n : Nat) : (r.take n).takeWhile isCont = [] := by
  cases n with
  | zero => rfl
  | succ n =>
    cases r with
    | nil => rfl
    | cons e r =>
      have he : isCont e = false := h e rfl
      rw [List.take_succ_cons, List.takeWhile_cons, if_neg (Bool.eq_false_iff.mp he)]

theorem ends_of_short {n : Nat} {r' : List U8} (hr : r = w ++ r')
    (hw : (r.take n).takeWhile isCont = w) (hshort : w.length < n) : Ends r' := by
  have hall : ∀ b ∈ w, isCont b = true := by
    intro b hb
    rw [← hw] at hb
    exact List.mem_takeWhile_imp hb
  intro e he
  rw [Bool.eq_false_iff]
  intro hcont
  cases r' with
  | nil => cases he
  | cons e' r' =>
    cases he
    have hroom : n - w.length = (n - w.length - 1) + 1 := by omega
    rw [hr, List.take_append, List.take_of_length_le (by omega), hroom, List.take_succ_cons,
      List.takeWhile_append_of_pos hall, List.takeWhile_cons, if_pos hcont] at hw
    have hlen := congrArg List.length hw
    rw [List.length_append, List.length_cons] at hlen
    omega

theorem validate_wide {n : Nat} {r' : List U8} (hc : isAscii c = false) (hn : mbNumChars c = n)
    (hwide : 1 < n) (hfour : n ≤ 4) (hr : r = w ++ r') (hw : (r.take n).takeWhile isCont = w) :
    validateUtf8 (c :: r) (c :: r).length =
      (if w.length + 1 = n then passes (c :: r) n else some false).bind fun legal =>
        some (w.length + 1, if legal then c :: w else [0x3f]) := by
  have hnot : ¬ (n = 6 ∨ n = 5) := by omega
  rw [validateUtf8, List.getElem?_cons_zero]
  dsimp only [Option.bind_eq_bind, Option.bind_some]
  rw [hc, if_neg Bool.false_ne_true, hn, if_pos hwide, countChars_eq, List.drop_succ_cons,
    List.drop_zero, hw, Nat.add_comm 1]
  dsimp only [Option.bind_some]
  rw [if_neg hnot]
  by_cases hlen : w.length + 1 = n
  · have hboth : both (some (decide (w.length + 1 = n))) (passes (c :: r) n) =
        passes (c :: r) n := by
      rw [decide_eq_true hlen]
      rfl
    have htake : (c :: r).take n = c :: w := by
      rw [← hlen, List.take_succ_cons, hr, List.take_left]
    have hfits : n ≤ (c :: r).length := by
      rw [List.length_cons, hr, List.length_append]
      omega
    rw [if_pos hlen]
    unfold passes at hboth ⊢
    rw [hboth, htake, if_pos hfits]
    congr 1
    funext legal
    cases legal <;> rfl
  · rw [if_neg hlen, decide_eq_false hlen]
    rfl

theorem validate_accepted (hw : Accepted w) (hr : Ends r) :
    validateUtf8 (w ++ r) (w ++ r).length = some (w.length, w) := by
  have hwide {a : U8} (ha : 0xc0 ≤ a.toNat) : isAscii a = false := by
    rw [Bool.eq_false_iff, ne_eq, isAscii_iff]
    omega
  cases hw with
  | @two a b ha ha' hb =>
    have hfound : ((b :: r).take 2).takeWhile isCont = [b] := by
      rw [List.take_succ_cons, List.takeWhile_cons, if_pos hb, takeWhile_ends hr]
    have hstep := validate_wide (hwide (by omega)) ((numChars_two a).mpr ⟨by omega, ha'⟩)
      (by decide) (by decide) (List.singleton_append.symm : b :: r = [b] ++ r) hfound
    have hlen : [b].length + 1 = 2 := rfl
    rw [if_pos hlen, passes_two hb (by omega), decide_eq_true ha] at hstep
    exact hstep
  | @three a b d ha ha' hb hd h0 h1 h2 =>
    have hfound : ((b :: d :: r).take 3).takeWhile isCont = [b, d] := by
      rw [List.take_succ_cons, List.takeWhile_cons, if_pos hb, List.take_succ_cons,
        List.takeWhile_cons, if_pos hd, takeWhile_ends hr]
    have hstep := validate_wide (hwide (by omega)) ((numChars_three a).mpr ⟨ha, ha'⟩)
      (by decide) (by decide) (rfl : b :: d :: r = [b, d] ++ r) hfound
    have hlen : [b, d].length + 1 = 3 := rfl
    rw [if_pos hlen, passes_three hb hd, decide_eq_true ⟨h0, h1, h2⟩] at hstep
    exact hstep
  | @four a b d e ha ha' hb hd he h0 =>
    have hfound : ((b :: d :: e :: r).take 4).takeWhile isCont = [b, d, e] := by
      rw [List.take_succ_cons, List.takeWhile_cons, if_pos hb, List.take_succ_cons,
        List.takeWhile_cons, if_pos hd, List.take_succ_cons, List.takeWhile_cons, if_pos he,
        takeWhile_ends hr]
    have hstep := validate_wide (hwide (by omega)) ((numChars_four a).mpr ⟨ha, ha'⟩)
      (by decide) (by decide) (rfl : b :: d :: e :: r = [b, d, e] ++ r) hfound
    have hlen : [b, d, e].length + 1 = 4 := rfl
    rw [if_pos hlen, passes_four hb hd he, decide_eq_true h0] at hstep
    exact hstep

theorem passes_eq (hwide : 1 < mbNumChars c) (hfour : mbNumChars c ≤ 4)
    (hall : ∀ b ∈ w, isCont b = true) (hlen : w.length + 1 = mbNumChars c) (r' : List U8) :
    ∃ pass, passes (c :: (w ++ r')) (mbNumChars c) = some pass ∧
      (pass = true → Accepted (c :: w)) := by
  cases w with
  | nil =>
    rw [← hlen] at hwide
    exact absurd hwide (by decide)
  | cons b w =>
    have hb := hall b List.mem_cons_self
    cases w with
    | nil =>
      obtain ⟨hlow, hhigh⟩ := (numChars_two c).mp hlen.symm
      rw [← hlen]
      exact ⟨_, passes_two hb hlow, fun hpass => .two (of_decide_eq_true hpass) hhigh hb⟩
    | cons d w =>
      have hd := hall d (by simp)
      cases w with
      | nil =>
        obtain ⟨hlow, hhigh⟩ := (numChars_three c).mp hlen.symm
        rw [← hlen]
        refine ⟨_, passes_three hb hd, fun hpass => ?_⟩
        obtain ⟨h0, h1, h2⟩ := of_decide_eq_true hpass
        exact .three hlow hhigh hb hd h0 h1 h2
      | cons e w =>
        have he := hall e (by simp)
        cases w with
        | nil =>
          obtain ⟨hlow, hhigh⟩ := (numChars_four c).mp hlen.symm
          rw [← hlen]
          exact ⟨_, passes_four hb hd he,
            fun hpass => .four hlow hhigh hb hd he (of_decide_eq_true hpass)⟩
        | cons f w =>
          simp only [List.length_cons] at hlen
          omega

def StartsAccepted (s : List U8) : Prop := ∃ w r, s = w ++ r ∧ Accepted w ∧ Ends r

theorem validate_refused (hc : isAscii c = false) (hno : ¬ StartsAccepted (c :: r)) :
    ∃ w r', r = w ++ r' ∧ (∀ b ∈ w, isCont b = true) ∧
      validateUtf8 (c :: r) (c :: r).length = some (w.length + 1, [0x3f]) := by
  by_cases hwide : 1 < mbNumChars c
  · obtain ⟨w, hw⟩ : ∃ w, (r.take (mbNumChars c)).takeWhile isCont = w := ⟨_, rfl⟩
    have hall : ∀ b ∈ w, isCont b = true := by
      intro b hb
      rw [← hw] at hb
      exact List.mem_takeWhile_imp hb
    have hsplit : w <+: r := by
      rw [← hw]
      exact (List.takeWhile_prefix _).trans (List.take_prefix _ _)
    obtain ⟨r', hr'⟩ := hsplit
    refine ⟨w, r', hr'.symm, hall, ?_⟩
    by_cases hlong : mbNumChars c = 6 ∨ mbNumChars c = 5
    · rw [validateUtf8, List.getElem?_cons_zero]
      dsimp only [Option.bind_eq_bind, Option.bind_some]
      rw [hc, if_neg Bool.false_ne_true, if_pos hwide, countChars_eq, List.drop_succ_cons,
        List.drop_zero, hw, Nat.add_comm 1]
      dsimp only [Option.bind_some]
      rw [if_pos hlong]
    · have hrange := numChars_range c
      have hstep := validate_wide hc rfl hwide (by omega) hr'.symm hw
      rw [hstep]
      by_cases hlen : w.length + 1 = mbNumChars c
      · obtain ⟨pass, hpass, haccepted⟩ := passes_eq hwide (by omega) hall hlen r'
        have hends : Ends r' := ends_of_short hr'.symm hw (by omega)
        cases pass with
        | false =>
          rw [if_pos hlen, ← hr', hpass]
          rfl
        | true =>
          exact absurd ⟨c :: w, r', by rw [← hr']; rfl, haccepted rfl, hends⟩ hno
      · rw [if_neg hlen]
        rfl
  · refine ⟨[], r, rfl, fun b hb => absurd hb List.not_mem_nil, ?_⟩
    rw [validateUtf8, List.getElem?_cons_zero]
    dsimp only [Option.bind_eq_bind, Option.bind_some]
    rw [hc, if_neg Bool.false_ne_true, if_neg hwide]
    rfl

end Steps

end OpenwrtMtk.Luci
