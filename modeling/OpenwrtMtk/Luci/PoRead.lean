import Mathlib.Algebra.GroupWithZero.Nat
import Mathlib.Data.List.Forall2
import OpenwrtMtk.Luci.LmoLookup

/-!
# PO files

The entries of a PO file, what their strings say, and how they are written. `Stored` is which entries
an archive is meant to hold: not the header, which has an empty msgid, and not what is untranslated.
-/

namespace OpenwrtMtk.Luci

open Toolkit

set_option autoImplicit false

inductive PoChar where
  | plain (c : U8) (h : c ≠ 0 ∧ c ≠ 0x0a ∧ c ≠ 0x22 ∧ c ≠ 0x5c)
  | escaped (c : U8) (h : c ≠ 0 ∧ c ≠ 0x0a)

def PoChar.written : PoChar → List U8
  | plain c _ => [c]
  | escaped c _ => [0x5c, c]

def PoChar.unescaped : PoChar → List U8
  | plain c _ => [c]
  | escaped c _ => if c = 0x22 ∨ c = 0x5c then [c] else [0x5c, c]

abbrev PoString := List PoChar

namespace PoString

def written (s : PoString) : List U8 := s.flatMap PoChar.written

def unescaped (s : PoString) : List U8 := s.flatMap PoChar.unescaped

def quoted (s : PoString) : List U8 := 0x22 :: (s.written ++ [0x22])

end PoString

/-- A msgid and a msgstr, each with its continuation lines. -/
structure PoEntry where
  msgid : PoString
  msgidMore : List PoString
  msgstr : PoString
  msgstrMore : List PoString

namespace PoEntry

def key (e : PoEntry) : List U8 := e.msgid.unescaped ++ e.msgidMore.flatMap PoString.unescaped

def val (e : PoEntry) : List U8 := e.msgstr.unescaped ++ e.msgstrMore.flatMap PoString.unescaped

def lines (e : PoEntry) : List (List U8) :=
  (latin "msgid " ++ e.msgid.quoted) :: e.msgidMore.map PoString.quoted ++
    (latin "msgstr " ++ e.msgstr.quoted) :: e.msgstrMore.map PoString.quoted

def text (e : PoEntry) : List U8 := e.lines.flatMap (· ++ [0x0a])

def Fits (e : PoEntry) : Prop :=
  (∀ l ∈ e.lines, l.length + 1 < poBuffer) ∧ e.key.length < poBuffer ∧ e.val.length < poBuffer

instance (e : PoEntry) : Decidable e.Fits := inferInstanceAs (Decidable (_ ∧ _))

def Whole (e : PoEntry) : Prop :=
  e.msgid.unescaped = [] ∨ e.msgidMore.flatMap PoString.unescaped = []

instance (e : PoEntry) : Decidable e.Whole := inferInstanceAs (Decidable (_ ∨ _))

def Stored (e : PoEntry) : Prop := e.key ≠ [] ∧ e.val ≠ [] ∧ sfhHash e.key ≠ sfhHash e.val

instance (e : PoEntry) : Decidable e.Stored := inferInstanceAs (Decidable (_ ∧ _))

def room (e : PoEntry) : Nat := e.val.length + (4 - e.val.length % 4) % 4

end PoEntry

def IsBlankLine (b : List U8) : Prop :=
  b.length + 1 < poBuffer ∧ ∀ c ∈ b, isspace c ∧ c ≠ 0x0a

/-- The file with these entries: a blank line between them, and perhaps more. The last line need not
end in a newline. -/
inductive PoFile : List PoEntry → List U8 → Prop where
  | empty : PoFile [] []
  | last (e : PoEntry) (h : e.Fits) : PoFile [e] e.text
  | cut (e : PoEntry) (h : e.Fits) : PoFile [e] e.text.dropLast
  | next {es : List PoEntry} {rest : List U8} (e : PoEntry) (b : List U8) (h : e.Fits)
      (hb : IsBlankLine b) (hrest : PoFile es rest) : PoFile (e :: es) (e.text ++ b ++ 0x0a :: rest)
  | blank {es : List PoEntry} {rest : List U8} (b : List U8) (hb : IsBlankLine b)
      (hrest : PoFile es rest) : PoFile es (b ++ 0x0a :: rest)

def archiveSize (entries : List PoEntry) : Nat :=
  ((entries.filter (·.Stored)).map fun e => e.room + 16).sum + 4

namespace PoString

theorem length_unescaped_le (s : PoString) : s.unescaped.length ≤ s.written.length := by
  induction s with
  | nil => exact le_refl 0
  | cons x s ih =>
    have hx : x.unescaped.length ≤ x.written.length := by
      cases x with
      | plain c h => exact le_refl 1
      | escaped c h =>
        rw [PoChar.unescaped, PoChar.written]
        split <;> simp
    simpa [unescaped, written] using Nat.add_le_add hx ih

theorem zero_not_mem_unescaped (s : PoString) : 0 ∉ s.unescaped := by
  intro h
  obtain ⟨x, -, hx⟩ := List.mem_flatMap.mp h
  cases x with
  | plain c hc =>
    rw [PoChar.unescaped, List.mem_singleton] at hx
    exact hc.1 hx.symm
  | escaped c hc =>
    rw [PoChar.unescaped] at hx
    split at hx
    · rw [List.mem_singleton] at hx
      exact hc.1 hx.symm
    · rw [List.mem_cons, List.mem_singleton] at hx
      rcases hx with hx | hx
      · exact absurd hx (by decide)
      · exact hc.1 hx.symm

theorem mem_quoted {s : PoString} {c : U8} (h : c ∈ s.quoted) : c ≠ 0 ∧ c ≠ 0x0a := by
  rw [quoted, List.mem_cons, List.mem_append, List.mem_singleton] at h
  rcases h with rfl | h | rfl
  · decide
  · obtain ⟨x, -, hx⟩ := List.mem_flatMap.mp h
    cases x with
    | plain d hd =>
      rw [PoChar.written, List.mem_singleton] at hx
      subst hx
      exact ⟨hd.1, hd.2.1⟩
    | escaped d hd =>
      rw [PoChar.written, List.mem_cons, List.mem_singleton] at hx
      rcases hx with rfl | rfl
      · decide
      · exact hd
  · decide

end PoString

theorem mem_lines {e : PoEntry} {l : List U8} {c : U8} (hl : l ∈ e.lines) (hc : c ∈ l) :
    c ≠ 0 ∧ c ≠ 0x0a := by
  have hlatin : ∀ c, c ∈ latin "msgid " ∨ c ∈ latin "msgstr " → c ≠ 0 ∧ c ≠ 0x0a := by decide
  have hmore (ss : List PoString) (h : l ∈ ss.map PoString.quoted) : c ≠ 0 ∧ c ≠ 0x0a := by
    obtain ⟨s, -, rfl⟩ := List.mem_map.mp h
    exact PoString.mem_quoted hc
  rw [PoEntry.lines, List.mem_append, List.mem_cons, List.mem_cons] at hl
  rcases hl with (rfl | h) | (rfl | h)
  · rcases List.mem_append.mp hc with h | h
    · exact hlatin c (.inl h)
    · exact PoString.mem_quoted h
  · exact hmore e.msgidMore h
  · rcases List.mem_append.mp hc with h | h
    · exact hlatin c (.inr h)
    · exact PoString.mem_quoted h
  · exact hmore e.msgstrMore h

end OpenwrtMtk.Luci

/-!
## How po2lmo reads a PO file

What `extract_string` takes from a line, what a line does in each state of `main`, and from these what
the lines of an entry do: its msgid stands in `key` and its msgstr in `val` when the entry ends.
-/

namespace OpenwrtMtk.Luci

open Toolkit

set_option autoImplicit false

def Holds (buffer s : List U8) : Prop := buffer.length = poBuffer ∧ cstr buffer = some s

def Carries (l t : List U8) : Prop :=
  ∃ (pre : List U8) (s : PoString) (rest : List U8),
    l = pre ++ s.quoted ++ rest ∧ 0x22 ∉ pre ∧ s.unescaped = t ∧ l.length < poBuffer

section Strings

variable {pre l t dest : List U8} {len pos off : Nat}

theorem extractFrom_before (hpre : 0x22 ∉ pre) (hlen : pos + pre.length < len) (src dest : List U8) :
    extractFrom len pos (pre ++ 0x22 :: src) none false dest =
      extractFrom len (pos + pre.length + 1) src (some (pos + pre.length + 1)) false dest := by
  induction pre generalizing pos with
  | nil =>
    rw [List.length_nil] at hlen
    rw [List.nil_append, extractFrom, if_neg (by omega)]
    rfl
  | cons c pre ih =>
    rw [List.length_cons] at hlen
    rw [List.mem_cons, not_or] at hpre
    rw [List.cons_append, extractFrom, if_neg (by omega), if_neg (Ne.symm hpre.1), ih hpre.2 (by omega), List.length_cons,
      show pos + (pre.length + 1) + 1 = pos + 1 + pre.length + 1 by omega]

theorem extractFrom_string (s : PoString) (rest : List U8) (hoff : off ≤ pos)
    (hlen : pos + s.written.length < len) (hdest : pos - off + s.written.length < dest.length) :
    ∃ off', extractFrom len pos (s.written ++ 0x22 :: rest) (some off) false dest =
      (some off', overwrite dest (pos - off) (s.unescaped ++ [0])) := by
  induction s generalizing pos off dest with
  | nil =>
    refine ⟨off, ?_⟩
    have hd : pos - off < dest.length := by
      rw [PoString.written, List.flatMap_nil, List.length_nil] at hdest
      omega
    have hl : pos < len := by
      rw [PoString.written, List.flatMap_nil, List.length_nil] at hlen
      omega
    rw [show PoString.written [] = [] from rfl, List.nil_append, extractFrom, if_neg (by omega),
      set_eq_overwrite 0 hd]
    rfl
  | cons x s ih =>
    have hwritten : PoString.written (x :: s) = x.written ++ PoString.written s := List.flatMap_cons
    have hmeaning : PoString.unescaped (x :: s) = x.unescaped ++ PoString.unescaped s :=
      List.flatMap_cons
    have hless := PoString.length_unescaped_le s
    rw [hwritten, List.length_append] at hlen hdest
    rw [hwritten, hmeaning, List.append_assoc, List.append_assoc]
    cases x with
    | plain c hc =>
      rw [PoChar.written, List.length_singleton] at hlen hdest
      have hset := set_eq_overwrite c (show pos - off < dest.length by omega)
      have hlong : (overwrite dest (pos - off) [c]).length = dest.length :=
        length_overwrite (by rw [List.length_singleton]; omega)
      obtain ⟨off', h⟩ := @ih (overwrite dest (pos - off) [c]) (pos + 1) off (by omega) (by omega)
        (by rw [hlong]; omega)
      refine ⟨off', ?_⟩
      rw [PoChar.written, PoChar.unescaped, List.singleton_append, extractFrom, if_neg (by omega)]
      dsimp only
      rw [if_neg (by decide), if_neg hc.2.2.2, if_neg hc.2.2.1, hset, h,
        show pos + 1 - off = pos - off + [c].length by rw [List.length_singleton]; omega,
        overwrite_append]
      rw [List.length_append, List.length_singleton, List.length_singleton]
      omega
    | escaped c hc =>
      rw [PoChar.written, List.length_cons, List.length_singleton] at hlen hdest
      have hset := set_eq_overwrite 0x5c (show pos - off < dest.length by omega)
      rw [PoChar.written, PoChar.unescaped, List.cons_append, extractFrom, if_neg (by omega)]
      dsimp only
      rw [if_neg (by decide), if_pos rfl, List.singleton_append, extractFrom, if_neg (by omega)]
      dsimp only
      rw [if_pos rfl]
      by_cases hspecial : c = 0x22 ∨ c = 0x5c
      · -- the byte takes the place of the backslash
        have hset' := set_eq_overwrite c (show pos - off < dest.length by omega)
        have hlong : (overwrite dest (pos - off) [c]).length = dest.length :=
          length_overwrite (by rw [List.length_singleton]; omega)
        obtain ⟨off', h⟩ := @ih (overwrite dest (pos - off) [c]) (pos + 1 + 1) (off + 1) (by omega)
          (by omega) (by rw [hlong]; omega)
        refine ⟨off', ?_⟩
        rw [if_pos hspecial, if_pos hspecial, show pos + 1 - (off + 1) = pos - off by omega,
          List.set_set, hset', h,
          show pos + 1 + 1 - (off + 1) = pos - off + [c].length by
            rw [List.length_singleton]; omega,
          overwrite_append]
        rw [List.length_append, List.length_singleton, List.length_singleton]
        omega
      · have hlong : (overwrite dest (pos - off) [0x5c]).length = dest.length :=
          length_overwrite (by rw [List.length_singleton]; omega)
        have hset' := set_eq_overwrite c
          (show pos - off + 1 < (overwrite dest (pos - off) [0x5c]).length by rw [hlong]; omega)
        have hboth : overwrite (overwrite dest (pos - off) [0x5c]) (pos - off + 1) [c] =
            overwrite dest (pos - off) [0x5c, c] :=
          overwrite_append [0x5c] [c] (by
            rw [List.length_singleton, List.length_singleton]
            omega)
        have hlong' : (overwrite dest (pos - off) [0x5c, c]).length = dest.length :=
          length_overwrite (by rw [List.length_cons, List.length_singleton]; omega)
        obtain ⟨off', h⟩ := @ih (overwrite dest (pos - off) [0x5c, c]) (pos + 1 + 1) off (by omega)
          (by omega) (by rw [hlong']; omega)
        refine ⟨off', ?_⟩
        rw [if_neg hspecial, if_neg hspecial, show pos + 1 - off = pos - off + 1 by omega, hset,
          hset', hboth, h,
          show pos + 1 + 1 - off = pos - off + [0x5c, c].length by
            rw [List.length_cons, List.length_singleton]; omega,
          overwrite_append]
        rw [List.length_append, List.length_singleton, List.length_cons, List.length_singleton]
        omega

theorem bufferString_holds {buffer s : List U8} (h : Holds buffer s) :
    bufferString buffer = .ok s := by
  rw [bufferString, h.2]

theorem holds_zeros : Holds (List.replicate poBuffer 0) [] := by
  refine ⟨List.length_replicate, ?_⟩
  have h : List.replicate poBuffer (0 : U8) = [] ++ 0 :: List.replicate (poBuffer - 1) 0 := rfl
  rw [h]
  exact cstr_append _ (by simp)

theorem holds_overwrite {buffer r s : List U8} (hlen : buffer.length = poBuffer)
    (hr : buffer.take r.length = r) (hzero : 0 ∉ r ++ s) (hfits : r.length + s.length < poBuffer) :
    Holds (overwrite buffer r.length (s ++ [0])) (r ++ s) := by
  constructor
  · rw [length_overwrite, hlen]
    rw [List.length_append, List.length_singleton]
    omega
  · rw [overwrite, hr, ← List.append_assoc, List.append_assoc]
    exact cstr_append _ hzero

theorem extractString_carries (h : Carries l t) (hdest : dest.length = poBuffer) :
    ∃ dest', extractString l dest = .ok (some t.length, dest') ∧ Holds dest' t := by
  obtain ⟨pre, s, rest, rfl, hpre, rfl, hlen⟩ := h
  have hquoted : s.quoted.length = s.written.length + 2 := by
    rw [PoString.quoted, List.length_cons, List.length_append, List.length_singleton]
  have hless := s.length_unescaped_le
  rw [List.length_append, List.length_append, hquoted] at hlen
  obtain ⟨off', hoff⟩ := @extractFrom_string dest poBuffer (0 + pre.length + 1)
    (0 + pre.length + 1) s rest (Nat.le_refl _) (by omega) (by omega)
  have hholds : Holds (overwrite dest 0 (s.unescaped ++ [0])) s.unescaped :=
    @holds_overwrite dest [] s.unescaped hdest rfl s.zero_not_mem_unescaped
      (by rw [List.length_nil]; omega)
  refine ⟨_, ?_, hholds⟩
  have hscan : extractFrom poBuffer 0 (pre ++ s.quoted ++ rest) none false dest =
      (some off', overwrite dest 0 (s.unescaped ++ [0])) := by
    rw [List.append_assoc, PoString.quoted, List.cons_append, List.append_assoc,
      extractFrom_before hpre (by omega), List.singleton_append, hoff, Nat.sub_self]
  unfold extractString
  rw [hscan]
  simp only [bind, Except.bind, pure, Except.pure]
  rw [bufferString_holds hholds]

theorem extractString_none (h : 0x22 ∉ l) : extractString l dest = .ok (none, dest) := by
  have hscan (pos : Nat) : extractFrom poBuffer pos l none false dest = (none, dest) := by
    induction l generalizing pos with
    | nil => rfl
    | cons c l ih =>
      rw [List.mem_cons, not_or] at h
      rw [extractFrom]
      split
      · rfl
      · rw [if_neg (Ne.symm h.1)]
        exact ih h.2 (pos + 1)
  unfold extractString
  rw [hscan]
  rfl

theorem strcat_holds {r s d b : List U8} (hd : Holds d r) (hb : Holds b s)
    (hfits : r.length + s.length < poBuffer) : ∃ d', strcat d b = .ok d' ∧ Holds d' (r ++ s) := by
  obtain ⟨hr, rest, rfl⟩ := cstr_eq_some hd.2
  obtain ⟨hs, -, -⟩ := cstr_eq_some hb.2
  refine ⟨_, ?_, holds_overwrite hd.1 List.take_left
    (by rw [List.mem_append]; exact not_or.mpr ⟨hr, hs⟩) hfits⟩
  unfold strcat
  rw [bufferString_holds hd, bufferString_holds hb, hd.1]
  simp only [bind, Except.bind]
  rw [if_pos hfits]
  rfl

end Strings

/-- The state in the middle of an entry: `k` stands in `key`, `v` in `val`, and nothing is written
since `s₀`. -/
structure Reading (s₀ : Po2lmo) (state : PoState) (k v : List U8) (s : Po2lmo) : Prop where
  state : s.state = state
  key : Holds s.key k
  val : Holds s.val v
  tmp : s.tmp.length = poBuffer
  offset : s.offset = s₀.offset
  array : s.array = s₀.array
  out : s.out = s₀.out

/-- The loop of `main` over these lines. -/
def runLines (lines : List (List U8)) (s : Po2lmo) : Except PoExit Po2lmo :=
  lines.foldlM (fun s l => s.round l) s

theorem runLines_cons {l : List U8} {ls : List (List U8)} {s s' : Po2lmo} (h : s.round l = .ok s') :
    runLines (l :: ls) s = runLines ls s' := by
  rw [runLines, List.foldlM_cons, h]
  rfl

section Lines

variable {s₀ s : Po2lmo} {l k v t : List U8}

theorem round_of_scan {s' : Po2lmo} (hscan : s.scan l = .ok s') (h : s'.state ≠ .complete) :
    s.round l = .ok s' := by
  unfold Po2lmo.round
  rw [hscan]
  simp only [bind, Except.bind]
  rw [if_neg h]
  rfl

theorem round_msgid (hs : Reading s₀ .idle k v s) (hl : Carries l t)
    (hword : (latin "msgid \"").isPrefixOf l = true) :
    ∃ s', s.round l = .ok s' ∧ Reading s₀ (if t = [] then .emptyMsgid else .msgid) t v s' := by
  obtain ⟨key', hextract, hkey⟩ := extractString_carries hl hs.key.1
  have hscan : s.scan l = .ok { s with
      state := if t = [] then .emptyMsgid else .msgid
      key := key' } := by
    unfold Po2lmo.scan
    rw [hs.state]
    dsimp only
    rw [if_pos hword, hextract]
    cases t with
    | nil => rfl
    | cons c t => rfl
  refine ⟨_, round_of_scan hscan ?_, rfl, hkey, hs.val, hs.tmp, hs.offset, hs.array, hs.out⟩
  dsimp only
  split <;> decide

theorem round_continued_msgid (hs : Reading s₀ .emptyMsgid k v s) (hl : Carries l t)
    (hword : (latin "msgstr \"").isPrefixOf l = false) (hfits : k.length + t.length < poBuffer) :
    ∃ s', s.round l = .ok s' ∧ Reading s₀ .emptyMsgid (k ++ t) v s' := by
  obtain ⟨tmp', hextract, htmp⟩ := extractString_carries hl hs.tmp
  obtain ⟨key', hcat, hkey⟩ := strcat_holds hs.key htmp hfits
  have hscan : s.scan l = .ok { s with
      key := key'
      tmp := tmp' } := by
    unfold Po2lmo.scan
    rw [hs.state]
    dsimp only
    rw [if_neg (by rw [hword]; decide), hextract]
    simp only [bind, Except.bind]
    rw [if_neg (by simp), hcat]
    rfl
  refine ⟨_, round_of_scan hscan ?_, hs.state, hkey, hs.val, htmp.1, hs.offset, hs.array, hs.out⟩
  rw [hs.state]
  decide

theorem round_msgstr {st : PoState} (hs : Reading s₀ st k v s) (hl : Carries l t)
    (hst : st = .msgid ∨ st = .emptyMsgid ∧ (latin "msgstr \"").isPrefixOf l = true) :
    ∃ s', s.round l = .ok s' ∧ Reading s₀ .msgstr k t s' := by
  obtain ⟨val', hextract, hval⟩ := extractString_carries hl hs.val.1
  have hscan : s.scan l = .ok { s with
      state := .msgstr
      val := val' } := by
    unfold Po2lmo.scan
    rw [hs.state]
    rcases hst with rfl | ⟨rfl, hword⟩
    · dsimp only
      rw [hextract]
      rfl
    · dsimp only
      rw [if_pos hword, hextract]
      rfl
  exact ⟨_, round_of_scan hscan (by simp), rfl, hs.key, hval, hs.tmp, hs.offset, hs.array, hs.out⟩

theorem round_continued_msgstr (hs : Reading s₀ .msgstr k v s) (hl : Carries l t)
    (hfits : v.length + t.length < poBuffer) :
    ∃ s', s.round l = .ok s' ∧ Reading s₀ .msgstr k (v ++ t) s' := by
  obtain ⟨tmp', hextract, htmp⟩ := extractString_carries hl hs.tmp
  obtain ⟨val', hcat, hval⟩ := strcat_holds hs.val htmp hfits
  have hscan : s.scan l = .ok { s with
      val := val'
      tmp := tmp' } := by
    unfold Po2lmo.scan
    rw [hs.state]
    dsimp only
    rw [hextract]
    simp only [bind, Except.bind]
    rw [if_neg (by simp), hcat]
    rfl
  refine ⟨_, round_of_scan hscan ?_, hs.state, hs.key, hval, htmp.1, hs.offset, hs.array, hs.out⟩
  rw [hs.state]
  decide

end Lines

def Extends (l b : List U8) : Prop := b <+: l ∧ l.length < poBuffer

section Entry

variable {s₀ s : Po2lmo} {k v : List U8} {ls : List (List U8)} {ss : List PoString}

theorem carries_of_extends {l pre : List U8} {x : PoString} (h : Extends l (pre ++ x.quoted))
    (hpre : 0x22 ∉ pre) : Carries l x.unescaped := by
  obtain ⟨⟨rest, rfl⟩, hlen⟩ := h
  exact ⟨pre, x, rest, rfl, hpre, rfl, hlen⟩

theorem carries_quoted {l : List U8} {x : PoString} (h : Extends l x.quoted) :
    Carries l x.unescaped :=
  @carries_of_extends l [] x h (by simp)

theorem isPrefixOf_extends {l pre : List U8} {x : PoString} (h : Extends l (pre ++ x.quoted)) :
    (pre ++ [0x22]).isPrefixOf l = true := by
  obtain ⟨⟨rest, rfl⟩, -⟩ := h
  rw [PoString.quoted, List.isPrefixOf_iff_prefix]
  exact ⟨x.written ++ [0x22] ++ rest, by simp⟩

theorem not_isPrefixOf_quoted {l : List U8} {x : PoString} (h : Extends l x.quoted) :
    (latin "msgstr \"").isPrefixOf l = false := by
  obtain ⟨⟨rest, rfl⟩, -⟩ := h
  rfl

theorem runLines_msgid (hls : List.Forall₂ (fun l x => Extends l x.quoted) ls ss)
    (hs : Reading s₀ .emptyMsgid k v s)
    (hfits : k.length + (ss.flatMap PoString.unescaped).length < poBuffer) :
    ∃ s', runLines ls s = .ok s' ∧
      Reading s₀ .emptyMsgid (k ++ ss.flatMap PoString.unescaped) v s' := by
  induction hls generalizing s k with
  | nil => exact ⟨s, rfl, by rw [List.flatMap_nil, List.append_nil]; exact hs⟩
  | cons hl hrest ih =>
    rw [List.flatMap_cons, List.length_append] at hfits
    obtain ⟨s₁, hround, hs₁⟩ := round_continued_msgid hs (carries_quoted hl)
      (not_isPrefixOf_quoted hl) (by omega)
    obtain ⟨s', hrun, hs'⟩ := ih hs₁ (by rw [List.length_append]; omega)
    rw [List.append_assoc] at hs'
    exact ⟨s', by rw [runLines_cons hround, hrun], by rw [List.flatMap_cons]; exact hs'⟩

theorem runLines_msgstr (hls : List.Forall₂ (fun l x => Carries l x.unescaped) ls ss)
    (hs : Reading s₀ .msgstr k v s)
    (hfits : v.length + (ss.flatMap PoString.unescaped).length < poBuffer) :
    ∃ s', runLines ls s = .ok s' ∧
      Reading s₀ .msgstr k (v ++ ss.flatMap PoString.unescaped) s' := by
  induction hls generalizing s v with
  | nil => exact ⟨s, rfl, by rw [List.flatMap_nil, List.append_nil]; exact hs⟩
  | cons hl hrest ih =>
    rw [List.flatMap_cons, List.length_append] at hfits
    obtain ⟨s₁, hround, hs₁⟩ := round_continued_msgstr hs hl (by omega)
    obtain ⟨s', hrun, hs'⟩ := ih hs₁ (by rw [List.length_append]; omega)
    rw [List.append_assoc] at hs'
    exact ⟨s', by rw [runLines_cons hround, hrun], by rw [List.flatMap_cons]; exact hs'⟩

/-- The lines of an entry. Where the msgid stands on its own line, the line behind it is taken for the
msgstr; it says nothing unless it is. -/
theorem runLines_entry {e : PoEntry} (hwhole : e.Whole) (hfits : e.Fits)
    (hls : List.Forall₂ Extends ls e.lines) (hs : Reading s₀ .idle k v s) :
    ∃ s', runLines ls s = .ok s' ∧ Reading s₀ .msgstr e.key e.val s' := by
  obtain ⟨-, hkey, hval⟩ := hfits
  rw [PoEntry.key, List.length_append] at hkey
  rw [PoEntry.val, List.length_append] at hval
  have hno : ∀ w, w = latin "msgid " ∨ w = latin "msgstr " → 0x22 ∉ w := by
    rintro w (rfl | rfl) <;> decide
  have hmore (xs : List (List U8)) (zs : List PoString)
      (h : List.Forall₂ Extends xs (zs.map PoString.quoted)) :
      List.Forall₂ (fun l x => Carries l x.unescaped) xs zs :=
    (List.forall₂_map_right_iff.mp h).imp fun _ _ => carries_quoted
  obtain ⟨l, rest, hl, hrest, rfl⟩ := List.forall₂_cons_right_iff.mp hls
  have hbefore := List.forall₂_take_append _ _ _ hrest
  have hbehind := List.forall₂_drop_append _ _ _ hrest
  obtain ⟨l', ls', hl', hls', hdrop⟩ := List.forall₂_cons_right_iff.mp hbehind
  have hsplit := List.take_append_drop (e.msgidMore.map PoString.quoted).length rest
  rw [hdrop] at hsplit
  have hcarries' := carries_of_extends hl' (hno _ (.inr rfl))
  have htail := hmore _ _ hls'
  obtain ⟨s₁, hround, hs₁⟩ := round_msgid hs (carries_of_extends hl (hno _ (.inl rfl)))
    (isPrefixOf_extends hl)
  rw [runLines_cons hround, ← hsplit]
  generalize rest.take (e.msgidMore.map PoString.quoted).length = before at hbefore
  by_cases hempty : e.msgid.unescaped = []
  · -- the msgid goes on line by line until the word `msgstr`
    rw [if_pos hempty, hempty] at hs₁
    obtain ⟨s₂, hrun, hs₂⟩ := runLines_msgid (List.forall₂_map_right_iff.mp hbefore) hs₁
      (by rw [List.length_nil]; omega)
    obtain ⟨s₃, hround', hs₃⟩ := round_msgstr hs₂ hcarries' (.inr ⟨rfl, isPrefixOf_extends hl'⟩)
    obtain ⟨s', hrun', hs'⟩ := runLines_msgstr htail hs₃ hval
    refine ⟨s', ?_, ?_⟩
    · rw [runLines, List.foldlM_append, ← runLines, hrun]
      exact (runLines_cons hround').trans hrun'
    · rw [PoEntry.key, PoEntry.val, hempty]
      exact hs'
  · rw [if_neg hempty] at hs₁
    have hmsgid : e.msgidMore.flatMap PoString.unescaped = [] := hwhole.resolve_left hempty
    rw [PoEntry.key, hmsgid, List.append_nil, PoEntry.val]
    cases hm : e.msgidMore with
    | nil =>
      rw [hm, List.map_nil, List.forall₂_nil_right_iff] at hbefore
      obtain ⟨s₂, hround', hs₂⟩ := round_msgstr hs₁ hcarries' (.inl rfl)
      obtain ⟨s', hrun', hs'⟩ := runLines_msgstr htail hs₂ hval
      rw [hbefore, List.nil_append]
      exact ⟨s', (runLines_cons hround').trans hrun', hs'⟩
    | cons x xs =>
      rw [hm, List.map_cons] at hbefore
      rw [hm, List.flatMap_cons, List.append_eq_nil_iff] at hmsgid
      obtain ⟨lx, lxs, hlx, hlxs, rfl⟩ := List.forall₂_cons_right_iff.mp hbefore
      obtain ⟨s₂, hround', hs₂⟩ := round_msgstr hs₁ (carries_quoted hlx) (.inl rfl)
      have hall : List.Forall₂ (fun l x => Carries l x.unescaped) (lxs ++ l' :: ls')
          (xs ++ e.msgstr :: e.msgstrMore) :=
        List.rel_append (hmore _ _ hlxs) (.cons hcarries' htail)
      have hsum : (xs ++ e.msgstr :: e.msgstrMore).flatMap PoString.unescaped =
          e.msgstr.unescaped ++ e.msgstrMore.flatMap PoString.unescaped := by
        rw [List.flatMap_append, hmsgid.2, List.nil_append, List.flatMap_cons]
      obtain ⟨s', hrun', hs'⟩ := runLines_msgstr hall hs₂ (by
        rw [hmsgid.1, hsum, List.length_nil, List.length_append]
        omega)
      rw [hmsgid.1, hsum, List.nil_append] at hs'
      exact ⟨s', (runLines_cons hround').trans hrun', hs'⟩

end Entry

end OpenwrtMtk.Luci
