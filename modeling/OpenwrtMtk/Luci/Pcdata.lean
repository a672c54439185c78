import OpenwrtMtk.Luci.Characters
import OpenwrtMtk.Luci.Utf8Sanitised

/-!
# Escaping for XML

`pcdata` of `template_utils.c` is a second scanner beside `utf8`, with the same validator for the
sequences of more than one byte. Its result is that of `utf8` without the bytes that XML does not
allow and with character references for the bytes of markup.
-/

namespace OpenwrtMtk.Luci

open Toolkit

set_option autoImplicit false

def isMarkup (c : U8) : Bool := c = 0x26 || c = 0x27 || c = 0x22 || c = 0x3c || c = 0x3e

/-- `snprintf(esq, sizeof(esq), "&#%i;", c)`. -/
def charRef (c : U8) : List U8 := 0x26 :: 0x23 :: (digits c.toNat ++ [0x3b])

def markupByte (c : U8) : List U8 := if isMarkup c then charRef c else [c]

def isInvalidXml (c : U8) : Bool :=
  c.toNat ≤ 0x08 || (0x0b ≤ c.toNat && c.toNat ≤ 0x0c) || (0x0e ≤ c.toNat && c.toNat ≤ 0x1f) ||
    c = 0x7f

/-- The loop of `pcdata`. Each turn but the last takes a byte. -/
def pcdataLoop (l : Nat) : Nat → List U8 → Nat → List U8 → Option (List U8)
  | 0, _, _, _ => none
  | turns + 1, s, o, buf =>
    if o < l then do
      let c ← s[0]?
      if isInvalidXml c then pcdataLoop l turns (s.drop 1) (o + 1) buf
      else if isMarkup c then pcdataLoop l turns (s.drop 1) (o + 1) (buf ++ charRef c)
      else if c.toNat ≤ 0x7f then pcdataLoop l turns (s.drop 1) (o + 1) (buf ++ [c])
      else
        let (v, bytes) ← validateUtf8 s (l - o)
        pcdataLoop l turns (s.drop v) (o + (v - 1) + 1) (buf ++ bytes)
    else some buf

def pcdata (s : List U8) (l : Nat) : Option (List U8) := pcdataLoop l (l + 1) s 0 []

/-! ### Texts without markup -/

/-- A text that is inert in HTML: no brackets and no quotes, and every ampersand begins one of the
references of `charRef`. -/
structure Inert (out : List U8) : Prop where
  plain : ∀ c ∈ out, c ≠ 0x3c ∧ c ≠ 0x3e ∧ c ≠ 0x22 ∧ c ≠ 0x27
  refs : ∀ front rest, out = front ++ 0x26 :: rest → ∃ c, isMarkup c = true ∧
    charRef c <+: 0x26 :: rest

section Markup

variable {c : U8} {out rest w : List U8}

theorem isMarkup_iff : isMarkup c = true ↔
    c = 0x26 ∨ c = 0x27 ∨ c = 0x22 ∨ c = 0x3c ∨ c = 0x3e := by
  simp [isMarkup, or_assoc]

theorem charRef_tail : ∀ c, isMarkup c = true → ∀ d ∈ (charRef c).tail, isMarkup d = false := by
  intro c hc
  rcases isMarkup_iff.mp hc with rfl | rfl | rfl | rfl | rfl <;> decide

theorem not_isMarkup_plain (h : isMarkup c = false) :
    c ≠ 0x3c ∧ c ≠ 0x3e ∧ c ≠ 0x22 ∧ c ≠ 0x27 := by
  refine ⟨?_, ?_, ?_, ?_⟩
  all_goals
    rintro rfl
    cases h

theorem Inert.nil : Inert [] := by
  refine ⟨fun c hc => absurd hc List.not_mem_nil, ?_⟩
  intro front rest h
  cases front <;> cases h

theorem Inert.plain_cons (hc : isMarkup c = false) (h : Inert out) : Inert (c :: out) := by
  constructor
  · intro d hd
    rcases List.mem_cons.mp hd with rfl | hd
    · exact not_isMarkup_plain hc
    · exact h.plain d hd
  · intro front rest heq
    cases front with
    | nil =>
      cases heq
      cases hc
    | cons d front =>
      cases heq
      exact h.refs front rest rfl

theorem Inert.plain_append (hw : ∀ c ∈ w, isMarkup c = false) (h : Inert out) :
    Inert (w ++ out) := by
  induction w with
  | nil => exact h
  | cons c w ih =>
    exact .plain_cons (hw c List.mem_cons_self) (ih fun d hd => hw d (List.mem_cons_of_mem c hd))

theorem Inert.ref_append (hc : isMarkup c = true) (h : Inert out) : Inert (charRef c ++ out) := by
  have htail : Inert ((charRef c).tail ++ out) := .plain_append (charRef_tail c hc) h
  constructor
  · intro d hd
    rcases List.mem_cons.mp hd with rfl | hd
    · decide
    · exact htail.plain d hd
  · intro front rest heq
    cases front with
    | nil =>
      refine ⟨c, hc, ?_⟩
      rw [← List.nil_append (0x26 :: rest), ← heq]
      exact List.prefix_append _ _
    | cons d front =>
      have hrest : (charRef c).tail ++ out = front ++ 0x26 :: rest := (List.cons.inj heq).2
      exact htail.refs front rest hrest

theorem inert_markup (text : List U8) : Inert (text.flatMap markupByte) := by
  induction text with
  | nil => exact .nil
  | cons c text ih =>
    rw [List.flatMap_cons, markupByte]
    cases hc : isMarkup c with
    | true => exact .ref_append hc ih
    | false => exact .plain_cons hc ih

end Markup

/-! ### The two scanners -/

def isStripped (c : U8) : Bool :=
  (0x01 ≤ c.toNat && c.toNat ≤ 0x08) || c = 0x0b || c = 0x0c ||
    (0x0e ≤ c.toNat && c.toNat ≤ 0x1f) || c = 0x7f

/-- What `pcdata` makes of a text that `utf8` has sanitised. -/
def escapeXml (text : List U8) : List U8 :=
  (text.filter fun c => !isStripped c).flatMap markupByte

section Loop

variable {c : U8} {r s w : List U8} {l turns o : Nat} {buf : List U8}

theorem escapeXml_append (text rest : List U8) :
    escapeXml (text ++ rest) = escapeXml text ++ escapeXml rest := by
  rw [escapeXml, List.filter_append, List.flatMap_append]
  rfl

theorem wide_byte : ∀ c : U8, 0x80 ≤ c.toNat → isStripped c = false ∧ isMarkup c = false ∧
    isInvalidXml c = false := by
  decide +kernel

theorem isInvalidXml_eq : ∀ c : U8, c ≠ 0 → isInvalidXml c = isStripped c := by
  decide +kernel

theorem escapeXml_wide (hw : ∀ c ∈ w, 0x80 ≤ c.toNat) : escapeXml w = w := by
  induction w with
  | nil => rfl
  | cons c w ih =>
    obtain ⟨hstrip, hmarkup, _⟩ := wide_byte c (hw c List.mem_cons_self)
    have hrest := ih fun d hd => hw d (List.mem_cons_of_mem c hd)
    rw [escapeXml, List.filter_cons, hstrip, Bool.not_false, if_pos rfl, List.flatMap_cons,
      markupByte, hmarkup, if_neg Bool.false_ne_true, List.singleton_append]
    exact congrArg (c :: ·) hrest

theorem accepted_bytes (hw : Accepted w) : ∀ c ∈ w, 0x80 ≤ c.toNat := by
  obtain ⟨c, w', rfl, hc, hall⟩ := accepted_wide hw
  intro d hd
  rcases List.mem_cons.mp hd with rfl | hd
  · omega
  · exact (isCont_iff.mp (hall d hd)).1

theorem pcdata_ascii (hc : isAscii c = true) (ho : o < l) :
    pcdataLoop l (turns + 1) (c :: r) o buf =
      pcdataLoop l turns r (o + 1) (buf ++ escapeXml [c]) := by
  have hrange := isAscii_iff.mp hc
  have hzero : c ≠ 0 := by
    rintro rfl
    exact absurd hrange.1 (by decide)
  rw [pcdataLoop, if_pos ho, List.getElem?_cons_zero]
  dsimp only [Option.bind_eq_bind, Option.bind_some]
  rw [isInvalidXml_eq c hzero, escapeXml, List.filter_cons]
  cases hstrip : isStripped c with
  | true =>
    rw [if_pos rfl, Bool.not_true, if_neg Bool.false_ne_true]
    rw [List.filter_nil, List.flatMap_nil, List.append_nil]
    rfl
  | false =>
    rw [if_neg Bool.false_ne_true, Bool.not_false, if_pos rfl, List.filter_nil,
      List.flatMap_singleton, markupByte]
    cases hmarkup : isMarkup c with
    | true => rfl
    | false =>
      rw [if_neg Bool.false_ne_true, if_pos hrange.2]
      rfl

theorem pcdata_other {v : Nat} {bytes : List U8} (hc : 0x80 ≤ c.toNat)
    (ho : o + (c :: r).length = l)
    (hv : validateUtf8 (c :: r) (c :: r).length = some (v + 1, bytes)) :
    pcdataLoop l (turns + 1) (c :: r) o buf =
      pcdataLoop l turns (r.drop v) (o + (v + 1)) (buf ++ bytes) := by
  obtain ⟨_, hmarkup, hinvalid⟩ := wide_byte c hc
  have hin : o < l := by
    rw [List.length_cons] at ho
    omega
  have hleft : l - o = (c :: r).length := by omega
  rw [pcdataLoop, if_pos hin, List.getElem?_cons_zero]
  dsimp only [Option.bind_eq_bind, Option.bind_some]
  rw [hinvalid, if_neg Bool.false_ne_true, hmarkup, if_neg Bool.false_ne_true,
    if_neg (by omega), hleft, hv]
  rfl

theorem loops_agree (turns o : Nat) (buf out : List U8) (hzero : 0 ∉ s)
    (hturns : s.length < turns) (ho : o + s.length = l) :
    ∃ text, utf8Loop l turns s o buf = some (buf ++ text) ∧
      pcdataLoop l turns s o out = some (out ++ escapeXml text) := by
  induction turns generalizing s o buf out with
  | zero => omega
  | succ turns ih =>
    cases s with
    | nil =>
      have hend : ¬o < l := by
        rw [← ho]
        exact Nat.lt_irrefl o
      refine ⟨[], ?_, ?_⟩
      · rw [utf8Loop, if_neg hend, List.append_nil]
      · rw [pcdataLoop, if_neg hend]
        exact congrArg some (List.append_nil out).symm
    | cons c r =>
      have hlen : (c :: r).length = r.length + 1 := rfl
      have hrest : 0 ∉ r := fun hmem => hzero (List.mem_cons_of_mem c hmem)
      cases hc : isAscii c with
      | true =>
        obtain ⟨text, hutf8, hpcdata⟩ := ih (o + 1) (buf ++ [c])
          (out ++ escapeXml [c]) hrest (by omega) (by omega)
        refine ⟨c :: text, ?_, ?_⟩
        · rw [loop_ascii hc (by omega), hutf8, List.append_assoc]
          rfl
        · rw [pcdata_ascii hc (by omega), hpcdata, List.append_assoc, ← escapeXml_append]
          rfl
      | false =>
        have hc' : 0x80 ≤ c.toNat := by
          have hne : c ≠ 0 := fun heq => hzero (heq ▸ List.mem_cons_self)
          have hpos : c.toNat ≠ 0 := fun heq => hne (BitVec.eq_of_toNat_eq heq)
          rw [Bool.eq_false_iff, ne_eq, isAscii_iff] at hc
          omega
        by_cases hstart : StartsAccepted (c :: r)
        · obtain ⟨w, r', heq, hw, hends⟩ := hstart
          have hpos := accepted_pos hw
          have hsum := congrArg List.length heq
          rw [List.length_append] at hsum
          have hrest' : 0 ∉ r' := by
            intro hmem
            rw [heq] at hzero
            exact hzero (List.mem_append_right w hmem)
          obtain ⟨text, hutf8, hpcdata⟩ := ih (o + w.length) (buf ++ w) (out ++ w) hrest'
            (by omega) (by omega)
          refine ⟨w ++ text, ?_, ?_⟩
          · rw [heq] at ho ⊢
            rw [loop_accepted hw hends ho, hutf8, List.append_assoc]
          · have hv := validate_accepted hw hends
            obtain ⟨d, w', rfl, hd, -⟩ := accepted_wide hw
            rw [heq] at ho ⊢
            rw [List.cons_append] at hv ho ⊢
            rw [pcdata_other (by omega) ho hv, List.drop_left, escapeXml_append,
              escapeXml_wide (accepted_bytes hw), ← List.append_assoc]
            exact hpcdata
        · obtain ⟨w, r', heq, hall, hv⟩ := validate_refused hc hstart
          have hsum := congrArg List.length heq
          rw [List.length_append] at hsum
          have hrest' : 0 ∉ r' := by
            intro hmem
            rw [heq] at hrest
            exact hrest (List.mem_append_right w hmem)
          obtain ⟨text, hutf8, hpcdata⟩ := ih (o + (w.length + 1)) (buf ++ [0x3f])
            (out ++ [0x3f]) hrest' (by omega) (by omega)
          refine ⟨0x3f :: text, ?_, ?_⟩
          · rw [loop_other hc ho hv, heq, List.drop_left, hutf8, List.append_assoc]
            rfl
          · rw [pcdata_other hc' ho hv, heq, List.drop_left, hpcdata, List.append_assoc]
            rfl

end Loop

/-- `pcdata` is `utf8` followed by filtering and escaping, and its result is inert. -/
theorem pcdata_escapes_utf8 (s : List U8) (hs : 0 ∉ s) :
    ∃ text, utf8 s s.length = some text ∧ pcdata s s.length = some (escapeXml text) ∧
      Inert (escapeXml text) := by
  obtain ⟨text, hutf8, hpcdata⟩ :=
    loops_agree (s.length + 1) 0 [] [] hs (Nat.lt_succ_self _) (Nat.zero_add _)
  exact ⟨text, hutf8, hpcdata, inert_markup _⟩

/-- A tab, an escape, a bracket, an e acute and a byte that is no character. -/
theorem pcdata_escapes_utf8_mixed :
    ∃ text, utf8 [0x09, 0x1b, 0x3c, 0xc3, 0xa9, 0xff] 6 = some text ∧
      pcdata [0x09, 0x1b, 0x3c, 0xc3, 0xa9, 0xff] 6 = some (escapeXml text) ∧
      Inert (escapeXml text) :=
  pcdata_escapes_utf8 [0x09, 0x1b, 0x3c, 0xc3, 0xa9, 0xff] (by decide)

end OpenwrtMtk.Luci

/-!
## Stripping tags

`striptags` of `template_utils.c`. A tag that is not closed loses its bracket only. A read outside the
string has no result, and allocations succeed.
-/

namespace OpenwrtMtk.Luci

open Toolkit

set_option autoImplicit false

def isalpha (c : U8) : Bool :=
  (0x41 ≤ c.toNat && c.toNat ≤ 0x5a) || (0x61 ≤ c.toNat && c.toNat ≤ 0x7a)

/-- The test for a tag, of which the byte at `ptr` is `c`. -/
def startsTag (s : List U8) (l ptr : Nat) (c : U8) : Option Bool :=
  both (some (c = 0x3c)) (both (some (ptr + 2 < l))
    (byteIs s (ptr + 1) fun d => d = 0x2f || isalpha d))

def closeTag (s : List U8) : Nat → Nat → Option (Option Nat)
  | 0, _ => some none
  | turns + 1, tag => do
    let c ← s[tag]?
    if c = 0x3e then some (some tag) else closeTag s turns (tag + 1)

/-- A blank for a tag or a run of white space, unless there is one already. -/
def spaced (prev : U8) (c : U8) : List U8 := if isspace prev then [] else [c]

/-- The loop of `striptags`. -/
def striptagsLoop (s : List U8) (l : Nat) : Nat → Nat → U8 → List U8 → Option (List U8)
  | 0, _, _, _ => none
  | turns + 1, ptr, prev, buf =>
    if ptr < l then do
      let c ← s[ptr]?
      if ← startsTag s l ptr c then
        match ← closeTag s (l - ptr) ptr with
        | some tag => striptagsLoop s l turns (tag + 1) 0x20 (buf ++ spaced prev 0x20)
        | none => striptagsLoop s l turns (ptr + 1) prev buf
      else if isspace c then striptagsLoop s l turns (ptr + 1) c (buf ++ spaced prev c)
      else striptagsLoop s l turns (ptr + 1) c (buf ++ markupByte c)
    else some buf

/-- What is put into the buffer that `striptags` returns. -/
def striptags (s : List U8) (l : Nat) : Option (List U8) := striptagsLoop s l (l + 1) 0 0x20 []

example : striptags (latin "a <b c='>'>d</b> & <e") 21 = some (latin "a &#39;&#62;d &#38; &#60;e") := by
  decide

section Loop

variable {s buf : List U8} {turns ptr tag : Nat} {prev c : U8}

theorem closeTag_within (s : List U8) (turns ptr : Nat) (h : ptr + turns ≤ s.length) :
    ∃ close, closeTag s turns ptr = some close ∧
      ∀ tag, close = some tag → ptr ≤ tag ∧ tag < s.length := by
  induction turns generalizing ptr with
  | zero => exact ⟨none, rfl, nofun⟩
  | succ turns ih =>
    have hin : ptr < s.length := by omega
    rw [closeTag, List.getElem?_eq_getElem hin]
    dsimp only [Option.bind_eq_bind, Option.bind_some]
    by_cases hclose : s[ptr] = 0x3e
    · rw [if_pos hclose]
      refine ⟨some ptr, rfl, ?_⟩
      intro tag heq
      cases heq
      exact ⟨Nat.le_refl _, hin⟩
    · rw [if_neg hclose]
      obtain ⟨close, heq, hrange⟩ := ih (ptr + 1) (by omega)
      refine ⟨close, heq, ?_⟩
      intro tag htag
      have hbounds := hrange tag htag
      omega

theorem startsTag_within (s : List U8) (ptr : Nat) (c : U8) :
    ∃ starts, startsTag s s.length ptr c = some starts ∧ (starts = true → c = 0x3c) := by
  unfold startsTag
  by_cases hc : c = 0x3c
  · rw [decide_eq_true hc]
    by_cases hroom : ptr + 2 < s.length
    · have hin : ptr + 1 < s.length := by omega
      rw [decide_eq_true hroom, byteIs, List.getElem?_eq_getElem hin]
      exact ⟨_, rfl, fun _ => hc⟩
    · rw [decide_eq_false hroom]
      exact ⟨_, rfl, fun _ => hc⟩
  · rw [decide_eq_false hc]
    exact ⟨false, rfl, nofun⟩

theorem space_not_markup : ∀ c : U8, isspace c = true → markupByte c = [c] := by
  decide +kernel

theorem flatMap_spaced (hc : isspace c = true) : (spaced prev c).flatMap markupByte =
    spaced prev c := by
  unfold spaced
  split
  · rfl
  · rw [List.flatMap_singleton, space_not_markup c hc]

theorem filter_spaced (hc : isspace c = true) :
    (spaced prev c).filter (fun d => !isspace d) = [] := by
  unfold spaced
  split
  · rfl
  · rw [List.filter_cons, hc]
    rfl

/-- What is put into the buffer is made of bytes of text, and these are those of the string but for
its white space where it has no tags. -/
theorem loop_strips (turns ptr : Nat) (prev : U8) (buf : List U8) (hptr : ptr ≤ s.length) (hturns : s.length < turns + ptr) :
    ∃ text : List U8,
      striptagsLoop s s.length turns ptr prev buf = some (buf ++ text.flatMap markupByte) ∧
      (0x3c ∉ s → text.filter (fun d => !isspace d) = (s.drop ptr).filter fun d => !isspace d) := by
  induction turns generalizing ptr prev buf with
  | zero => omega
  | succ turns ih =>
    rw [striptagsLoop]
    by_cases hin : ptr < s.length
    · obtain ⟨starts, hstarts, hbracket⟩ := startsTag_within s ptr s[ptr]
      rw [if_pos hin, List.getElem?_eq_getElem hin, List.drop_eq_getElem_cons hin]
      dsimp only [Option.bind_eq_bind, Option.bind_some]
      rw [hstarts]
      dsimp only [Option.bind_some]
      cases starts with
      | true =>
        have hmem : 0x3c ∈ s := hbracket rfl ▸ List.getElem_mem hin
        obtain ⟨close, hclose, hrange⟩ :=
          closeTag_within s (s.length - ptr) ptr (by omega)
        rw [if_pos rfl, hclose]
        cases close with
        | none =>
          obtain ⟨text, hloop, -⟩ := ih (ptr + 1) prev buf
            (by omega) (by omega)
          exact ⟨text, hloop, fun hno => absurd hmem hno⟩
        | some tag =>
          have hbounds := hrange tag rfl
          obtain ⟨text, hloop, -⟩ := ih (tag + 1) 0x20
            (buf ++ spaced prev 0x20) (by omega) (by omega)
          refine ⟨spaced prev 0x20 ++ text, ?_, fun hno => absurd hmem hno⟩
          rw [List.flatMap_append, flatMap_spaced rfl, ← List.append_assoc]
          exact hloop
      | false =>
        rw [if_neg Bool.false_ne_true]
        cases hspace : isspace s[ptr] with
        | true =>
          obtain ⟨text, hloop, hkept⟩ := ih (ptr + 1) s[ptr]
            (buf ++ spaced prev s[ptr]) (by omega) (by omega)
          refine ⟨spaced prev s[ptr] ++ text, ?_, ?_⟩
          · rw [if_pos rfl, List.flatMap_append, flatMap_spaced hspace, ← List.append_assoc]
            exact hloop
          · intro hno
            rw [List.filter_append, filter_spaced hspace, List.filter_cons, hspace, hkept hno]
            rfl
        | false =>
          obtain ⟨text, hloop, hkept⟩ := ih (ptr + 1) s[ptr]
            (buf ++ markupByte s[ptr]) (by omega) (by omega)
          refine ⟨s[ptr] :: text, ?_, ?_⟩
          · rw [if_neg Bool.false_ne_true, List.flatMap_cons, ← List.append_assoc]
            exact hloop
          · intro hno
            rw [List.filter_cons, hspace, List.filter_cons, hspace, hkept hno]
    · rw [if_neg hin, List.drop_of_length_le (by omega)]
      refine ⟨[], ?_, fun _ => rfl⟩
      rw [List.flatMap_nil, List.append_nil]

end Loop

theorem charRef_no_null (c : U8) : 0 ∉ charRef c := by
  unfold charRef
  intro hmem
  rcases List.mem_cons.mp hmem with heq | hmem
  · cases heq
  rcases List.mem_cons.mp hmem with heq | hmem
  · cases heq
  rcases List.mem_append.mp hmem with hmem | hmem
  · exact absurd (digits_isdigit c.toNat 0 hmem) (by decide)
  · rcases List.mem_singleton.mp hmem with heq
    cases heq

theorem markup_before_null (text : List U8) :
    (text.flatMap markupByte).takeWhile (fun c => c != 0) =
      (text.takeWhile fun c => c != 0).flatMap markupByte := by
  induction text with
  | nil => rfl
  | cons c text ih =>
    by_cases hc : c = 0
    · subst hc
      rfl
    · have hplain : ∀ d ∈ markupByte c, (d != 0) = true := by
        intro d hd
        rw [bne_iff_ne]
        rintro rfl
        unfold markupByte at hd
        split at hd
        · exact charRef_no_null c hd
        · exact hc (List.mem_singleton.mp hd).symm
      rw [List.flatMap_cons, List.takeWhile_append_of_pos hplain, ih, List.takeWhile_cons,
        bne_iff_ne.mpr hc, if_pos rfl, List.flatMap_cons]

/-- The buffer that `striptags` returns, and the string that ends at the first null in it. -/
theorem striptags_inert (s : List U8) : ∃ out, striptags s s.length = some out ∧
    Inert out ∧ Inert (out.takeWhile fun c => c != 0) ∧
    (0x3c ∉ s → ∃ text : List U8, out = text.flatMap markupByte ∧
      text.filter (fun c => !isspace c) = s.filter fun c => !isspace c) := by
  obtain ⟨text, hloop, hkept⟩ := loop_strips (s := s) (s.length + 1) 0 0x20 []
    (Nat.zero_le _) (Nat.lt_succ_self _)
  refine ⟨text.flatMap markupByte, hloop, inert_markup text, ?_, ?_⟩
  · rw [markup_before_null]
    exact inert_markup _
  · intro hno
    exact ⟨text, rfl, hkept hno⟩

end OpenwrtMtk.Luci
