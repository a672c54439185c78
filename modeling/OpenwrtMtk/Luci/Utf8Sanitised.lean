import OpenwrtMtk.Luci.Utf8

/-!
# What `utf8` returns

The result is the text with a question mark for each sequence that is refused. It is UTF-8 unless a
sequence of four bytes stands for a number above U+10FFFF: no test refuses these.
-/

namespace OpenwrtMtk.Luci

open Toolkit

set_option autoImplicit false

/-- A string and its result. -/
inductive Sanitised : List U8 → List U8 → Prop where
  | nil : Sanitised [] []
  | ascii {c : U8} {r out : List U8} : isAscii c = true → Sanitised r out →
      Sanitised (c :: r) (c :: out)
  | accepted {w r out : List U8} : Accepted w → Ends r → Sanitised r out →
      Sanitised (w ++ r) (w ++ out)
  | refused {c : U8} {w r out : List U8} : isAscii c = false → (∀ b ∈ w, isCont b = true) →
      ¬ StartsAccepted (c :: (w ++ r)) → Sanitised r out → Sanitised (c :: (w ++ r)) (0x3f :: out)

inductive Clean : List U8 → Prop where
  | nil : Clean []
  | ascii {c : U8} {r : List U8} : isAscii c = true → Clean r → Clean (c :: r)
  | accepted {w r : List U8} : Accepted w → Ends r → Clean r → Clean (w ++ r)

def startsAbove : List U8 → Bool
  | a :: b :: d :: e :: r =>
    decide (Above a b ∧ a.toNat < 0xf8) && isCont b && isCont d && isCont e &&
      r.head?.all fun c => !isCont c
  | _ => false

def HasAbove (s : List U8) : Prop := ∃ front t, s = front ++ t ∧ startsAbove t = true

section Loop

variable {c : U8} {r s w : List U8} {l turns o : Nat} {buf : List U8}

theorem loop_ascii (hc : isAscii c = true) (ho : o < l) :
    utf8Loop l (turns + 1) (c :: r) o buf = utf8Loop l turns r (o + 1) (buf ++ [c]) := by
  rw [utf8Loop, if_pos ho, List.getElem?_cons_zero]
  dsimp only [Option.bind_eq_bind, Option.bind_some]
  rw [if_pos hc]
  rfl

theorem loop_other {v : Nat} {bytes : List U8} (hc : isAscii c = false)
    (ho : o + (c :: r).length = l)
    (hv : validateUtf8 (c :: r) (c :: r).length = some (v + 1, bytes)) :
    utf8Loop l (turns + 1) (c :: r) o buf =
      utf8Loop l turns (r.drop v) (o + (v + 1)) (buf ++ bytes) := by
  have hin : o < l := by
    rw [List.length_cons] at ho
    omega
  have hleft : l - o = (c :: r).length := by omega
  rw [utf8Loop, if_pos hin, List.getElem?_cons_zero]
  dsimp only [Option.bind_eq_bind, Option.bind_some]
  rw [hc, if_neg Bool.false_ne_true, hleft, hv]
  rfl

theorem accepted_wide (hw : Accepted w) : ∃ c w', w = c :: w' ∧ 0xc0 ≤ c.toNat ∧
    ∀ b ∈ w', isCont b = true := by
  cases hw with
  | @two a b ha ha' hb => exact ⟨a, [b], rfl, by omega, by simp [hb]⟩
  | @three a b d ha ha' hb hd => exact ⟨a, [b, d], rfl, by omega, by simp [hb, hd]⟩
  | @four a b d e ha ha' hb hd he => exact ⟨a, [b, d, e], rfl, by omega, by simp [hb, hd, he]⟩

theorem isAscii_wide (hc : 0xc0 ≤ c.toNat) : isAscii c = false := by
  rw [Bool.eq_false_iff, ne_eq, isAscii_iff]
  omega

theorem isCont_wide (hc : 0xc0 ≤ c.toNat) : isCont c = false := by
  rw [Bool.eq_false_iff, ne_eq, isCont_iff]
  omega

theorem loop_accepted (hw : Accepted w) (hr : Ends r) (ho : o + (w ++ r).length = l) :
    utf8Loop l (turns + 1) (w ++ r) o buf = utf8Loop l turns r (o + w.length) (buf ++ w) := by
  have hv := validate_accepted hw hr
  obtain ⟨c, w', rfl, hc, -⟩ := accepted_wide hw
  rw [List.cons_append] at hv ho ⊢
  rw [loop_other (isAscii_wide hc) ho hv, List.drop_left]
  rfl

theorem accepted_pos (hw : Accepted w) : 0 < w.length := by
  cases hw <;> exact Nat.succ_pos _

theorem loop_sanitised (hturns : s.length < turns) (ho : o + s.length = l) :
    ∃ out, utf8Loop l turns s o buf = some (buf ++ out) ∧ Sanitised s out := by
  induction turns generalizing s o buf with
  | zero => omega
  | succ turns ih =>
    cases s with
    | nil =>
      refine ⟨[], ?_, .nil⟩
      rw [utf8Loop, if_neg (by rw [← ho]; exact Nat.lt_irrefl o), List.append_nil]
    | cons c r =>
      have hlen : (c :: r).length = r.length + 1 := rfl
      cases hc : isAscii c with
      | true =>
        obtain ⟨out, hout, hrest⟩ : ∃ out, utf8Loop l turns r (o + 1) (buf ++ [c]) =
            some (buf ++ [c] ++ out) ∧ Sanitised r out := ih (by omega) (by omega)
        refine ⟨c :: out, ?_, .ascii hc hrest⟩
        rw [loop_ascii hc (by omega), hout, List.append_assoc]
        rfl
      | false =>
        by_cases hstart : StartsAccepted (c :: r)
        · obtain ⟨w, r', heq, hw, hends⟩ := hstart
          have hpos := accepted_pos hw
          have hsum := congrArg List.length heq
          rw [List.length_append] at hsum
          obtain ⟨out, hout, hrest⟩ : ∃ out, utf8Loop l turns r' (o + w.length) (buf ++ w) =
              some (buf ++ w ++ out) ∧ Sanitised r' out := ih (by omega) (by omega)
          rw [heq] at ho ⊢
          refine ⟨w ++ out, ?_, .accepted hw hends hrest⟩
          rw [loop_accepted hw hends ho, hout, List.append_assoc]
        · obtain ⟨w, r', heq, hall, hv⟩ := validate_refused hc hstart
          have hsum := congrArg List.length heq
          rw [List.length_append] at hsum
          obtain ⟨out, hout, hrest⟩ : ∃ out, utf8Loop l turns r' (o + (w.length + 1))
              (buf ++ [0x3f]) = some (buf ++ [0x3f] ++ out) ∧ Sanitised r' out :=
            ih (by omega) (by omega)
          refine ⟨0x3f :: out, ?_, ?_⟩
          · rw [loop_other hc ho hv, heq, List.drop_left, hout, List.append_assoc]
            rfl
          · rw [heq] at hstart ⊢
            exact .refused hc hall hstart hrest

theorem loop_clean (hs : Clean s) (hturns : s.length < turns) (ho : o + s.length = l) :
    utf8Loop l turns s o buf = some (buf ++ s) := by
  induction hs generalizing turns o buf with
  | nil =>
    cases turns with
    | zero => omega
    | succ turns => rw [utf8Loop, if_neg (by rw [← ho]; exact Nat.lt_irrefl o), List.append_nil]
  | @ascii c r hc _ ih =>
    rw [List.length_cons] at hturns ho
    cases turns with
    | zero => omega
    | succ turns =>
      rw [loop_ascii hc (by omega), ih (by omega) (by omega), List.append_assoc]
      rfl
  | @accepted w r hw hends _ ih =>
    have hpos := accepted_pos hw
    rw [List.length_append] at hturns
    cases turns with
    | zero => omega
    | succ turns =>
      rw [loop_accepted hw hends ho, ih (by omega) (by rw [List.length_append] at ho; omega),
        List.append_assoc]

theorem utf8_sanitised (s : List U8) : ∃ out, utf8 s s.length = some out ∧ Sanitised s out :=
  loop_sanitised (Nat.lt_succ_self _) (Nat.zero_add _)

theorem utf8_clean (hs : Clean s) : utf8 s s.length = some s :=
  loop_clean hs (Nat.lt_succ_self _) (Nat.zero_add _)

end Loop

section Clean

variable {c : Char} {s out w : List U8}

theorem clean_ends (hs : Clean s) : Ends s := by
  cases hs with
  | nil => exact fun c hc => nomatch hc
  | @ascii c r hc =>
    rw [isAscii_iff] at hc
    intro d hd
    cases hd
    rw [Bool.eq_false_iff, ne_eq, isCont_iff]
    omega
  | @accepted w r hw =>
    obtain ⟨c, w', rfl, hc, -⟩ := accepted_wide hw
    intro d hd
    cases hd
    exact isCont_wide hc

theorem sanitised_clean (h : Sanitised s out) : Clean out := by
  induction h with
  | nil => exact .nil
  | ascii hc _ ih => exact .ascii hc ih
  | accepted hw _ _ ih => exact .accepted hw (clean_ends ih) ih
  | refused _ _ _ _ ih => exact .ascii rfl ih

theorem clean_no_null (hs : Clean s) : 0 ∉ s := by
  induction hs with
  | nil => exact List.not_mem_nil
  | @ascii c r hc _ ih =>
    rw [List.mem_cons, not_or]
    refine ⟨?_, ih⟩
    rintro rfl
    cases hc
  | @accepted w r hw _ _ ih =>
    obtain ⟨c, w', rfl, hc, hall⟩ := accepted_wide hw
    rw [List.mem_append, List.mem_cons, not_or, not_or]
    refine ⟨⟨?_, ?_⟩, ih⟩
    · rintro rfl
      exact absurd hc (by decide)
    · intro hmem
      exact absurd (hall 0 hmem) (by decide)

def Kept (c : Char) : Prop := c.toNat ≠ 0 ∧ c.toNat ≠ 0xfffe ∧ c.toNat ≠ 0xffff

theorem charBytes_accepted (hc : Kept c) (hwide : 0x80 ≤ c.toNat) : Accepted (charBytes c) := by
  have hscalar := scalar c
  obtain ⟨-, h1, h2⟩ := hc
  have hcont (n : Nat) : isCont (BitVec.ofNat 8 (0x80 + n % 64)) = true := by
    rw [isCont_iff, byte_toNat (by omega)]
    omega
  rw [charBytes_eq, if_neg (by omega)]
  split
  · refine .two ?_ ?_ (hcont _)
    · rw [byte_toNat (by omega)]
      omega
    · rw [byte_toNat (by omega)]
      omega
  · split
    · refine .three ?_ ?_ (hcont _) (hcont _) ?_ ?_ ?_
      · rw [byte_toNat (by omega)]
        omega
      · rw [byte_toNat (by omega)]
        omega
      · rw [byte_toNat (by omega), byte_toNat (by omega)]
        omega
      · rw [byte_toNat (by omega), byte_toNat (by omega)]
        omega
      · rw [byte_toNat (by omega), byte_toNat (by omega), byte_toNat (by omega)]
        omega
    · refine .four ?_ ?_ (hcont _) (hcont _) (hcont _) ?_
      · rw [byte_toNat (by omega)]
        omega
      · rw [byte_toNat (by omega)]
        omega
      · rw [byte_toNat (by omega), byte_toNat (by omega)]
        omega

theorem clean_text {cs : List Char} (h : ∀ c ∈ cs, Kept c) : Clean (textBytes cs) := by
  induction cs with
  | nil => exact .nil
  | cons c cs ih =>
    have hc := h c List.mem_cons_self
    have hrest := ih fun d hd => h d (List.mem_cons_of_mem _ hd)
    rw [textBytes_cons]
    by_cases hwide : 0x80 ≤ c.toNat
    · exact .accepted (charBytes_accepted hc hwide) (clean_ends hrest) hrest
    · have hone : charBytes c = [BitVec.ofNat 8 c.toNat] := by rw [charBytes_eq, if_pos (by omega)]
      rw [hone]
      apply Clean.ascii _ hrest
      rw [isAscii_iff, byte_toNat (by omega)]
      exact ⟨Nat.pos_of_ne_zero hc.1, by omega⟩

theorem accepted_char (hw : Accepted w) :
    (∃ c, charBytes c = w) ∨ ∃ a b d e, w = [a, b, d, e] ∧ Above a b := by
  cases hw with
  | two ha ha' hb => exact .inl (exists_char_two ⟨ha, ha'⟩ hb)
  | three ha ha' hb hd h0 h1 => exact .inl (exists_char_three ⟨ha, ha'⟩ hb hd h0 h1)
  | @four a b d e ha ha' hb hd he h0 =>
    by_cases habove : Above a b
    · exact .inr ⟨a, b, d, e, rfl, habove⟩
    · rw [Above] at habove
      exact .inl (exists_char_four ⟨ha, by omega⟩ hb hd he h0 (by omega))

end Clean

section Above

variable {a c : U8} {s r w out : List U8}

theorem startsAbove_cons (h : startsAbove (a :: s) = true) :
    ∃ b d e r, s = b :: d :: e :: r ∧ Above a b ∧ a.toNat < 0xf8 ∧ isCont b = true ∧
      isCont d = true ∧ isCont e = true ∧ Ends r := by
  match s, h with
  | b :: d :: e :: r, h =>
    simp only [startsAbove, Bool.and_eq_true, decide_eq_true_eq] at h
    obtain ⟨⟨⟨⟨⟨habove, hlt⟩, hb⟩, hd⟩, he⟩, hends⟩ := h
    refine ⟨b, d, e, r, rfl, habove, hlt, hb, hd, he, ?_⟩
    intro x hx
    cases r with
    | nil => cases hx
    | cons y r =>
      cases hx
      simpa using hends

theorem startsAbove_four {b d e : U8} (hw : Accepted [a, b, d, e]) (hends : Ends r)
    (habove : Above a b) : startsAbove ([a, b, d, e] ++ r) = true := by
  cases hw with
  | four _ hlt hb hd he _ =>
    have hrest : (r.head?.all fun c => !isCont c) = true := by
      cases r with
      | nil => rfl
      | cons y r =>
        have hy : isCont y = false := hends y rfl
        rw [List.head?_cons, Option.all_some, hy]
        rfl
    rw [List.cons_append, List.cons_append, List.cons_append, List.cons_append, List.nil_append,
      startsAbove, hb, hd, he, hrest, decide_eq_true ⟨habove, hlt⟩]
    rfl

theorem hasAbove_cons (h : HasAbove (c :: s)) : startsAbove (c :: s) = true ∨ HasAbove s := by
  obtain ⟨front, t, heq, ht⟩ := h
  cases front with
  | nil =>
    rw [heq]
    exact .inl ht
  | cons d front =>
    cases heq
    exact .inr ⟨front, t, rfl, ht⟩

theorem hasAbove_conts (hall : ∀ b ∈ w, isCont b = true) (h : HasAbove (w ++ r)) : HasAbove r := by
  induction w with
  | nil => exact h
  | cons b w ih =>
    cases hasAbove_cons h with
    | inl hstart =>
      obtain ⟨x, y, z, t, -, habove, -⟩ := startsAbove_cons hstart
      have hb := hall b List.mem_cons_self
      rw [isCont_iff] at hb
      rw [Above] at habove
      omega
    | inr hrest => exact ih (fun d hd => hall d (List.mem_cons_of_mem _ hd)) hrest

theorem hasAbove_append (h : HasAbove r) (w : List U8) : HasAbove (w ++ r) := by
  obtain ⟨front, t, rfl, ht⟩ := h
  exact ⟨w ++ front, t, (List.append_assoc _ _ _).symm, ht⟩

theorem startsAbove_starts (h : startsAbove s = true) : StartsAccepted s := by
  cases s with
  | nil => cases h
  | cons a s =>
    obtain ⟨b, d, e, r, rfl, habove, hlt, hb, hd, he, hends⟩ := startsAbove_cons h
    rw [Above] at habove
    exact ⟨[a, b, d, e], r, rfl, .four (by omega) hlt hb hd he (by omega), hends⟩

theorem sanitised_utf8 (h : Sanitised s out) (hs : ¬ HasAbove s) : IsUtf8 out := by
  induction h with
  | nil => exact .nil
  | @ascii c r out hc _ ih =>
    rw [isAscii_iff] at hc
    obtain ⟨x, -, hx⟩ := exists_char_one (by omega : c.toNat < 0x80)
    have hchar := IsUtf8.char x
    rw [hx] at hchar
    exact hchar.append (ih fun hr => hs (hasAbove_append hr [c]))
  | @accepted w r out hw hends _ ih =>
    have hrest := ih fun hr => hs (hasAbove_append hr w)
    cases accepted_char hw with
    | inl hchar =>
      obtain ⟨x, rfl⟩ := hchar
      exact (IsUtf8.char x).append hrest
    | inr hlarge =>
      obtain ⟨a, b, d, e, rfl, habove⟩ := hlarge
      exact absurd ⟨[], _, rfl, startsAbove_four hw hends habove⟩ hs
  | @refused c w r out _ _ _ _ ih =>
    obtain ⟨x, -, hx⟩ := exists_char_one (by decide : (0x3f : U8).toNat < 0x80)
    have hchar := IsUtf8.char x
    rw [hx] at hchar
    exact hchar.append (ih fun hr => hs (hasAbove_append hr (c :: w)))

theorem sanitised_not_utf8 (h : Sanitised s out) (hs : HasAbove s) :
    ¬ out.IsChain fun a b => ¬ Above a b := by
  induction h with
  | nil =>
    obtain ⟨front, t, heq, ht⟩ := hs
    cases List.append_eq_nil_iff.mp heq.symm with
    | intro _ hnil =>
      rw [hnil] at ht
      cases ht
  | @ascii c r out hc _ ih =>
    intro hchain
    cases hasAbove_cons hs with
    | inl hstart =>
      obtain ⟨x, y, z, t, -, habove, -⟩ := startsAbove_cons hstart
      rw [isAscii_iff] at hc
      rw [Above] at habove
      omega
    | inr hrest => exact ih hrest hchain.tail
  | @accepted w r out hw hends _ ih =>
    intro hchain
    rw [List.isChain_append] at hchain
    obtain ⟨c, w', rfl, -, hall⟩ := accepted_wide hw
    cases hasAbove_cons hs with
    | inl hstart =>
      obtain ⟨x, y, z, t, heq, habove, -⟩ := startsAbove_cons hstart
      cases hw with
      | two => rw [Above] at habove; omega
      | three => rw [Above] at habove; omega
      | four =>
        cases heq
        exact hchain.1.rel habove
    | inr hrest => exact ih (hasAbove_conts hall hrest) hchain.2.1
  | @refused c w r out _ hall hno _ ih =>
    intro hchain
    cases hasAbove_cons hs with
    | inl hstart => exact hno (startsAbove_starts hstart)
    | inr hrest => exact ih (hasAbove_conts hall hrest) hchain.tail

end Above

/-- No read leaves the string, the result has no null, a clean text is its own result, and so is every
result; the result is UTF-8 unless the string has a sequence for too large a number. -/
theorem utf8_sanitises_iff (s : List U8) :
    (∃ out, utf8 s s.length = some out ∧ IsUtf8 out ∧ 0 ∉ out ∧
      ((∃ cs, s = textBytes cs ∧ ∀ c ∈ cs, Kept c) → out = s) ∧ utf8 out out.length = some out) ↔
      ¬ HasAbove s := by
  obtain ⟨out, hout, hs⟩ := utf8_sanitised s
  have hclean := sanitised_clean hs
  constructor
  · rintro ⟨out', hout', hvalid, -⟩ habove
    cases hout.symm.trans hout'
    obtain ⟨cs, rfl⟩ := hvalid
    exact sanitised_not_utf8 hs habove (textBytes_chain cs)
  · intro hno
    refine ⟨out, hout, sanitised_utf8 hs hno, clean_no_null hclean, ?_, utf8_clean hclean⟩
    rintro ⟨cs, rfl, hkept⟩
    exact Option.some.inj (hout.symm.trans (utf8_clean (clean_text hkept)))

/-- The sequence for U+110000 is copied. -/
theorem too_large_is_copied :
    utf8 [0xf4, 0x90, 0x80, 0x80] 4 = some [0xf4, 0x90, 0x80, 0x80] ∧
      ¬ IsUtf8 [0xf4, 0x90, 0x80, 0x80] := by
  refine ⟨by decide, ?_⟩
  rintro ⟨cs, hcs⟩
  have hchain := textBytes_chain cs
  rw [← hcs] at hchain
  exact hchain.rel (.inr ⟨rfl, by decide⟩)

end OpenwrtMtk.Luci
