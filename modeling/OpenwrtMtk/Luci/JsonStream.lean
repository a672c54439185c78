import OpenwrtMtk.Lib.Settled
import OpenwrtMtk.Luci.JsonText
import Mathlib.Data.List.Basic

/-!
# The JSON decoder sees a stream

What each routine of the decoder does is a function of the bytes that are still to be read, however they
are cut: it fetches as much as it needs and leaves the rest. With more rounds than bytes no loop reaches
its bound.
-/

namespace OpenwrtMtk.Luci.Json

open Toolkit

set_option autoImplicit false

variable {ν : Type}

def Input.stream (s : Input) : List U8 := s.chunk ++ s.feeds.flatten

def Reads (l : List U8) (s : Input) : Prop := s.stream = l

/-- The chunk holds at least `n` of them. -/
def Holds (n : Nat) (l : List U8) (s : Input) : Prop := s.stream = l ∧ n ≤ s.chunk.length

def Ends (e : Fault) : Prop := e ≠ .exhausted

instance (e : Fault) : Decidable (Ends e) := inferInstanceAs (Decidable (e ≠ .exhausted))

/-- One outcome from all states of `P`, which leaves at most `n` bytes. -/
def Leaves {α : Type} (n : Nat) (P : Input → Prop) (m : Decoding α) : Prop :=
  Settles Input.stream P m (fun _ r => r.length ≤ n) Ends

section Primitives

variable {l r w : List U8} {c : U8} {n : Nat} {p : U8 → Bool} {s : Input}

theorem holds_take (h : Holds n l s) : s.chunk.take n = l.take n := by
  rw [← h.1, Input.stream, List.take_append_of_le_length h.2]

theorem upTo_gives (n : Nat) (l : List U8) : Gives (Holds n l) (upTo n) (l.take n) (Holds n l) := by
  intro s hs
  refine ⟨s, ?_, hs⟩
  rw [← holds_take hs]
  rfl

theorem sub_gives (n : Nat) (l : List U8) : Gives (Holds n l) (sub n) () (Reads (l.drop n)) := by
  intro s hs
  refine ⟨_, rfl, ?_⟩
  rw [Reads, ← hs.1, Input.stream, Input.stream, List.drop_append_of_le_length hs.2]

theorem fetchAtleastFrom_gives (chunk : List U8) (feeds : List (List U8))
    (h : n ≤ (chunk ++ feeds.flatten).length) :
    ∃ t, fetchAtleastFrom n chunk feeds = .ok ((), t) ∧ Holds n (chunk ++ feeds.flatten) t := by
  induction feeds generalizing chunk with
  | nil =>
    have hlen : ¬ chunk.length < n := by simpa using h
    exact ⟨⟨chunk, []⟩, by rw [fetchAtleastFrom, if_neg hlen], rfl, Nat.not_lt.mp hlen⟩
  | cons nchunk feeds ih =>
    by_cases hlen : chunk.length < n
    · rw [fetchAtleastFrom, if_pos hlen]
      rw [List.flatten_cons, ← List.append_assoc] at h ⊢
      exact ih (chunk ++ nchunk) h
    · exact ⟨⟨chunk, nchunk :: feeds⟩, by rw [fetchAtleastFrom, if_neg hlen], rfl, Nat.not_lt.mp hlen⟩

theorem fetchAtleastFrom_fails (chunk : List U8) (feeds : List (List U8))
    (h : (chunk ++ feeds.flatten).length < n) :
    fetchAtleastFrom n chunk feeds = .error .unexpectedEos := by
  induction feeds generalizing chunk with
  | nil =>
    have hlen : chunk.length < n := by simpa using h
    rw [fetchAtleastFrom, if_pos hlen]
  | cons nchunk feeds ih =>
    rw [List.flatten_cons, ← List.append_assoc] at h
    have hlen : chunk.length < n := by
      simp only [List.length_append] at h
      omega
    rw [fetchAtleastFrom, if_pos hlen]
    exact ih (chunk ++ nchunk) h

theorem fetchAtleast_gives (h : n ≤ l.length) :
    Gives (Reads l) (fetchAtleast n) () (Holds n l) := by
  rintro s rfl
  exact fetchAtleastFrom_gives s.chunk s.feeds h

theorem fetchAtleast_fails (h : l.length < n) :
    Fails (Reads l) (fetchAtleast n) .unexpectedEos := by
  rintro s rfl
  exact fetchAtleastFrom_fails s.chunk s.feeds h

theorem exists_first_byte (p : U8 → Bool) (l : List U8) :
    (∀ d ∈ l, p d = false) ∨ ∃ w c r, l = w ++ c :: r ∧ (∀ d ∈ w, p d = false) ∧ p c = true := by
  induction l with
  | nil => exact .inl (by simp)
  | cons d l ih =>
    cases hd : p d with
    | true => exact .inr ⟨[], d, l, rfl, by simp, hd⟩
    | false =>
      rcases ih with hl | ⟨w, c, r, rfl, hw, hc⟩
      · exact .inl (List.forall_mem_cons.mpr ⟨hd, hl⟩)
      · exact .inr ⟨d :: w, c, r, rfl, List.forall_mem_cons.mpr ⟨hd, hw⟩, hc⟩

theorem findIdx?_first (hw : ∀ d ∈ w, p d = false) (hc : p c = true) :
    (w ++ c :: r).findIdx? p = some w.length := by
  induction w with
  | nil => simp [List.findIdx?_cons, hc]
  | cons d w ih =>
    obtain ⟨hd, hw⟩ := List.forall_mem_cons.mp hw
    simp [List.findIdx?_cons, hd, ih hw]

theorem findIdx?_absent (hl : ∀ d ∈ l, p d = false) : l.findIdx? p = none := by
  rw [List.findIdx?_eq_none_iff]
  exact hl

/-- The first such byte of the input is in the chunk, or the chunk has none and the rest has it. -/
theorem first_in_chunk {chunk rest : List U8} (h : chunk ++ rest = w ++ c :: r)
    (hw : ∀ d ∈ w, p d = false) :
    (∃ r', chunk = w ++ c :: r' ∧ r' ++ rest = r) ∨
      ∃ w', w = chunk ++ w' ∧ rest = w' ++ c :: r ∧ ∀ d ∈ chunk, p d = false := by
  rcases List.append_eq_append_iff.mp h with ⟨w', rfl, hrest⟩ | ⟨r', hchunk, hr⟩
  · exact .inr ⟨w', rfl, hrest, fun d hd => hw d (List.mem_append_left w' hd)⟩
  · cases r' with
    | nil =>
      rw [List.append_nil] at hchunk
      rw [List.nil_append] at hr
      exact .inr ⟨[], by simp [hchunk], hr.symm, hchunk ▸ hw⟩
    | cons d r' =>
      obtain ⟨rfl, rfl⟩ := List.cons.inj hr
      exact .inl ⟨r', hchunk, rfl⟩

theorem fetchUntilFrom_gives (chunk : List U8) (feeds : List (List U8))
    (h : chunk ++ feeds.flatten = w ++ c :: r) (hw : ∀ d ∈ w, p d = false) (hc : p c = true) :
    ∃ t, fetchUntilFrom p chunk feeds = .ok (w.length, t) ∧ Holds w.length (w ++ c :: r) t := by
  induction feeds generalizing chunk with
  | nil =>
    obtain rfl : chunk = w ++ c :: r := by simpa using h
    refine ⟨⟨w ++ c :: r, []⟩, ?_, by simp [Input.stream], by simp⟩
    rw [fetchUntilFrom, findIdx?_first hw hc]
  | cons nchunk feeds ih =>
    rcases first_in_chunk h hw with ⟨r', rfl, hr⟩ | ⟨w', _, _, hchunk⟩
    · refine ⟨⟨w ++ c :: r', nchunk :: feeds⟩, ?_, ?_, by simp⟩
      · rw [fetchUntilFrom, findIdx?_first hw hc]
      · rw [Input.stream, ← hr, List.append_assoc, List.cons_append]
    · rw [fetchUntilFrom, findIdx?_absent hchunk]
      exact ih (chunk ++ nchunk) (by rw [← h, List.flatten_cons, List.append_assoc])

theorem fetchUntilFrom_fails (chunk : List U8) (feeds : List (List U8))
    (h : ∀ d ∈ chunk ++ feeds.flatten, p d = false) :
    fetchUntilFrom p chunk feeds = .error .unexpectedEos := by
  induction feeds generalizing chunk with
  | nil => rw [fetchUntilFrom, findIdx?_absent fun d hd => h d (by simp [hd])]
  | cons nchunk feeds ih =>
    rw [fetchUntilFrom, findIdx?_absent fun d hd => h d (by simp [hd])]
    exact ih (chunk ++ nchunk) fun d hd => h d (by simpa using hd)

theorem fetchUntil_gives (hw : ∀ d ∈ w, p d = false) (hc : p c = true) :
    Gives (Reads (w ++ c :: r)) (fetchUntil p) w.length (Holds w.length (w ++ c :: r)) :=
  fun s hs => fetchUntilFrom_gives s.chunk s.feeds hs hw hc

theorem fetchUntil_fails (h : ∀ d ∈ l, p d = false) :
    Fails (Reads l) (fetchUntil p) .unexpectedEos := by
  rintro s rfl
  exact fetchUntilFrom_fails s.chunk s.feeds h

theorem parseSpaceFrom_more (chunk : List U8) (feeds : List (List U8))
    (h : chunk ++ feeds.flatten = w ++ c :: r) (hw : ∀ d ∈ w, isspace d = true)
    (hc : isspace c = false) :
    ∃ t, parseSpaceFrom chunk feeds = .ok (true, t) ∧ Holds 1 (c :: r) t := by
  have hw' : ∀ d ∈ w, (!isspace d) = false := fun d hd => by rw [hw d hd]; rfl
  have hc' : (!isspace c) = true := by rw [hc]; rfl
  induction feeds generalizing chunk w with
  | nil =>
    obtain rfl : chunk = w ++ c :: r := by simpa using h
    refine ⟨⟨c :: r, []⟩, ?_, by simp [Input.stream], by simp⟩
    rw [parseSpaceFrom, findIdx?_first hw' hc']
    simp
  | cons nchunk feeds ih =>
    rcases first_in_chunk h hw' with ⟨r', rfl, hr⟩ | ⟨w', rfl, hrest, hchunk⟩
    · refine ⟨⟨c :: r', nchunk :: feeds⟩, ?_, ?_, by simp⟩
      · rw [parseSpaceFrom, findIdx?_first hw' hc']
        simp
      · rw [Input.stream, ← hr, List.cons_append]
    · rw [parseSpaceFrom, findIdx?_absent hchunk]
      exact ih nchunk hrest (fun d hd => hw d (List.mem_append_right chunk hd))
        fun d hd => hw' d (List.mem_append_right chunk hd)

theorem parseSpaceFrom_end (chunk : List U8) (feeds : List (List U8))
    (h : ∀ d ∈ chunk ++ feeds.flatten, isspace d = true) :
    parseSpaceFrom chunk feeds = .ok (false, ⟨[], []⟩) := by
  have hchunk : chunk.findIdx? (fun d => !isspace d) = none :=
    findIdx?_absent fun d hd => by simp [h d (List.mem_append_left _ hd)]
  induction feeds generalizing chunk with
  | nil => rw [parseSpaceFrom, hchunk]
  | cons nchunk feeds ih =>
    have hrest : ∀ d ∈ nchunk ++ feeds.flatten, isspace d = true := fun d hd =>
      h d (List.mem_append_right chunk (by simpa using hd))
    rw [parseSpaceFrom, hchunk]
    exact ih nchunk hrest
      (findIdx?_absent fun d hd => by simp [hrest d (List.mem_append_left _ hd)])

theorem parseSpace_more (hw : ∀ d ∈ w, isspace d = true) (hc : isspace c = false) :
    Gives (Reads (w ++ c :: r)) parseSpace true (Holds 1 (c :: r)) :=
  fun s hs => parseSpaceFrom_more s.chunk s.feeds hs hw hc

theorem parseSpace_end (h : ∀ d ∈ l, isspace d = true) :
    Gives (Reads l) parseSpace false (Reads []) := by
  rintro s rfl
  exact ⟨_, parseSpaceFrom_end s.chunk s.feeds h, rfl⟩

theorem fillFrom_cons (chunk : List U8) (feeds : List (List U8))
    (h : chunk ++ feeds.flatten = c :: r) :
    ∃ t, fillFrom chunk feeds = .ok (some c, t) ∧ Holds 1 (c :: r) t := by
  induction feeds generalizing chunk with
  | nil =>
    obtain rfl : chunk = c :: r := by simpa using h
    exact ⟨_, rfl, by simp [Input.stream], by simp⟩
  | cons nchunk feeds ih =>
    cases chunk with
    | nil => exact ih nchunk h
    | cons d chunk =>
      obtain ⟨rfl, hr⟩ := List.cons.inj h
      exact ⟨_, rfl, h, by simp⟩

theorem fillFrom_nil (chunk : List U8) (feeds : List (List U8))
    (h : chunk ++ feeds.flatten = []) : fillFrom chunk feeds = .ok (none, ⟨[], []⟩) := by
  induction feeds generalizing chunk with
  | nil =>
    obtain rfl : chunk = [] := by simpa using h
    rfl
  | cons nchunk feeds ih =>
    obtain ⟨rfl, hrest⟩ := List.append_eq_nil_iff.mp h
    exact ih nchunk hrest

theorem fill_cons (c : U8) (r : List U8) :
    Gives (Reads (c :: r)) fill (some c) (Holds 1 (c :: r)) :=
  fun s hs => fillFrom_cons s.chunk s.feeds hs

theorem fill_nil : Gives (Reads []) fill none (Reads []) :=
  fun s hs => ⟨_, fillFrom_nil s.chunk s.feeds hs, rfl⟩

theorem scanStringFrom_gives (str chunk : List U8) (feeds : List (List U8))
    (h : chunk ++ feeds.flatten = w ++ c :: r) (hw : ∀ d ∈ w, stops d = false)
    (hc : stops c = true) :
    ∃ t, scanStringFrom str chunk feeds = .ok (str ++ w, t) ∧ Holds 1 (c :: r) t := by
  induction feeds generalizing str chunk w with
  | nil =>
    obtain rfl : chunk = w ++ c :: r := by simpa using h
    refine ⟨⟨c :: r, []⟩, ?_, by simp [Input.stream], by simp⟩
    rw [scanStringFrom, findIdx?_first hw hc]
    simp
  | cons nchunk feeds ih =>
    rcases first_in_chunk h hw with ⟨r', rfl, hr⟩ | ⟨w', rfl, hrest, hchunk⟩
    · refine ⟨⟨c :: r', nchunk :: feeds⟩, ?_, ?_, by simp⟩
      · rw [scanStringFrom, findIdx?_first hw hc]
        simp
      · rw [Input.stream, ← hr, List.cons_append]
    · rw [scanStringFrom, findIdx?_absent hchunk, ← List.append_assoc]
      exact ih (str ++ chunk) nchunk hrest fun d hd => hw d (List.mem_append_right chunk hd)

theorem scanStringFrom_fails (str chunk : List U8) (feeds : List (List U8))
    (h : ∀ d ∈ chunk ++ feeds.flatten, stops d = false) :
    scanStringFrom str chunk feeds = .error .unexpectedEosInString := by
  induction feeds generalizing str chunk with
  | nil => rw [scanStringFrom, findIdx?_absent fun d hd => h d (by simp [hd])]
  | cons nchunk feeds ih =>
    rw [scanStringFrom, findIdx?_absent fun d hd => h d (by simp [hd])]
    exact ih (str ++ chunk) nchunk fun d hd => h d (List.mem_append_right chunk (by simpa using hd))

theorem scanString_gives (str : List U8) (hw : ∀ d ∈ w, stops d = false) (hc : stops c = true) :
    Gives (Reads (w ++ c :: r)) (scanString str) (str ++ w) (Holds 1 (c :: r)) :=
  fun s hs => scanStringFrom_gives str s.chunk s.feeds hs hw hc

theorem scanString_fails (str : List U8) (h : ∀ d ∈ l, stops d = false) :
    Fails (Reads l) (scanString str) .unexpectedEosInString := by
  rintro s rfl
  exact scanStringFrom_fails str s.chunk s.feeds h

end Primitives

section Routines

variable {l r : List U8} {c : U8} {n k : Nat} {fuel : Nat}

theorem leaves_pure {α : Type} (a : α) (hl : l.length ≤ n) : Leaves n (Reads l) (pure a : Decoding α) :=
  settles_pure (fun _ hs => hs) hl

theorem leaves_throw {α : Type} {P : Input → Prop} {e : Fault} (he : e ≠ .exhausted) :
    Leaves n P (throw e : Decoding α) :=
  settles_throw he

theorem parseLiteral_leaves {literal : List U8} (hliteral : literal ≠ []) (value : Value ν)
    (hl : l.length ≤ n + 1) : Leaves n (Reads l) (parseLiteral literal value) := by
  have hpos := List.length_pos_iff.mpr hliteral
  by_cases hlen : literal.length ≤ l.length
  · refine settles_step (fetchAtleast_gives hlen) (settles_step (upTo_gives _ _) ?_)
    split
    · refine settles_step (sub_gives _ _) (leaves_pure value ?_)
      rw [List.length_drop]
      omega
    · exact leaves_throw (by decide)
  · exact settles_fails (fails_first (fetchAtleast_fails (Nat.lt_of_not_le hlen))) (by decide)

theorem parseNumber_leaves (tonumber : List U8 → Option ν) (hc : numeric c = true)
    (hr : r.length ≤ n) : Leaves n (Reads (c :: r)) (parseNumber tonumber) := by
  rcases exists_first_byte (fun d => !numeric d) (c :: r) with hall | ⟨w, d, rest, hl, hw, hd⟩
  · exact settles_fails (fails_first (fetchUntil_fails hall)) (by decide)
  · rw [hl]
    refine settles_step (fetchUntil_gives hw hd) (settles_step (upTo_gives _ _) ?_)
    split
    · refine settles_step (sub_gives _ _) (leaves_pure _ ?_)
      have hlen := congrArg List.length hl
      cases w with
      | nil =>
        obtain ⟨rfl, _⟩ := List.cons.inj hl
        rw [hc] at hd
        cases hd
      | cons _ w =>
        simp only [List.length_drop, List.length_append, List.length_cons] at hlen ⊢
        omega
    · exact leaves_throw (by decide)

theorem parseUnicode_leaves (hl : l.length ≤ n) : Leaves n (Reads l) parseUnicode := by
  by_cases hlen : 4 ≤ l.length
  · refine settles_step (fetchAtleast_gives hlen) (settles_step (upTo_gives _ _) ?_)
    split
    · refine settles_step (sub_gives _ _) (leaves_pure _ ?_)
      rw [List.length_drop]
      omega
    · exact leaves_throw (by decide)
  · exact settles_fails (fails_first (fetchAtleast_fails (Nat.lt_of_not_le hlen))) (by decide)

theorem parseEscape_leaves (hr : r.length ≤ n) : Leaves n (Holds 1 (c :: r)) parseEscape := by
  refine settles_step (sub_gives 1 (c :: r)) ?_
  cases r with
  | nil => exact settles_fails (fails_first (fetchAtleast_fails (by simp))) (by decide)
  | cons d r =>
    have hshort : r.length ≤ n := by
      rw [List.length_cons] at hr
      omega
    refine settles_step (fetchAtleast_gives (by simp)) (settles_step (upTo_gives _ _)
      (settles_step (sub_gives _ _) ?_))
    simp only [List.drop_succ_cons, List.drop_zero, List.take_succ_cons, List.take_zero]
    split
    · exact parseUnicode_leaves hshort
    · split
      · exact leaves_pure _ hshort
      · exact leaves_throw (by simp)

theorem stringLoop_leaves (str : List U8) (hfuel : l.length < fuel) (hl : l.length ≤ n) :
    Leaves n (Reads l) (stringLoop fuel str) := by
  induction fuel generalizing l str with
  | zero => omega
  | succ fuel ih =>
    rcases exists_first_byte stops l with hall | ⟨w, c, r, rfl, hw, hc⟩
    · exact settles_fails (fails_first (scanString_fails str hall)) (by decide)
    · simp only [List.length_append, List.length_cons] at hfuel hl
      refine settles_step (scanString_gives str hw hc) (settles_step (upTo_gives _ _) ?_)
      split
      · exact settles_step (sub_gives _ _) (leaves_pure _ (by simp; omega))
      · refine settles_bind (parseEscape_leaves (Nat.le_refl r.length)) fun object rest hrest => ?_
        exact ih (str ++ w ++ object) (by omega) (by omega)

theorem parseString_leaves (hfuel : r.length < fuel) (hr : r.length ≤ n) :
    Leaves n (Holds 1 (c :: r)) (parseString fuel) := by
  refine settles_step (upTo_gives _ _) ?_
  split
  · exact settles_step (sub_gives _ _) (stringLoop_leaves [] hfuel hr)
  · exact leaves_throw (by decide)

theorem delimiterLoop_found {delimiter : List U8} (hc : isspace c = false) (hmem : c ∈ delimiter) :
    Gives (Reads (c :: r)) (delimiterLoop delimiter (k + 1)) (some c) (Reads r) := by
  refine gives_bind (fetchAtleast_gives (by simp)) (gives_bind (upTo_gives _ _) ?_)
  have hchoice : Gives (Holds 1 (c :: r))
      (if isspace c then do
          let more ← parseSpace
          if more then delimiterLoop delimiter k else throw .unexpectedEos
        else if c ∈ delimiter then do
          sub 1
          pure (some c)
        else pure none : Decoding (Option U8)) (some c) (Reads r) := by
    rw [if_neg (by rw [hc]; decide), if_pos hmem]
    exact gives_bind (sub_gives _ _) (gives_pure fun _ hs => hs)
  exact hchoice

theorem delimiterLoop_other {delimiter : List U8} (hc : isspace c = false) (hmem : c ∉ delimiter) :
    Gives (Reads (c :: r)) (delimiterLoop delimiter (k + 1)) none (Reads (c :: r)) := by
  refine gives_bind (fetchAtleast_gives (by simp)) (gives_bind (upTo_gives _ _) ?_)
  have hchoice : Gives (Holds 1 (c :: r))
      (if isspace c then do
          let more ← parseSpace
          if more then delimiterLoop delimiter k else throw .unexpectedEos
        else if c ∈ delimiter then do
          sub 1
          pure (some c)
        else pure none : Decoding (Option U8)) none (Reads (c :: r)) := by
    rw [if_neg (by rw [hc]; decide), if_neg hmem]
    exact gives_pure fun _ hs => hs.1
  exact hchoice

theorem delimiterLoop_space {delimiter : List U8} (hc : isspace c = true)
    {R : Option U8 → List U8 → Prop}
    (h : Settles Input.stream (Holds 1 (c :: r))
      (do
        let more ← parseSpace
        if more then delimiterLoop delimiter k else throw .unexpectedEos) R Ends) :
    Settles Input.stream (Reads (c :: r)) (delimiterLoop delimiter (k + 1)) R Ends := by
  refine settles_step (fetchAtleast_gives (by simp)) (settles_step (upTo_gives _ _) ?_)
  have hchoice : Settles Input.stream (Holds 1 (c :: r))
      (if isspace c then do
          let more ← parseSpace
          if more then delimiterLoop delimiter k else throw .unexpectedEos
        else if c ∈ delimiter then do
          sub 1
          pure (some c)
        else pure none : Decoding (Option U8)) R Ends := by
    rw [if_pos hc]
    exact h
  exact hchoice

theorem parseDelimiter_settles (delimiter : List U8) (l : List U8) :
    Settles Input.stream (Reads l) (parseDelimiter delimiter)
      (fun d r => r.length + d.toList.length ≤ l.length) Ends := by
  have hround : ∀ (k : Nat) (c : U8) (r : List U8), isspace c = false →
      Settles Input.stream (Reads (c :: r)) (delimiterLoop delimiter (k + 1))
        (fun d rest => rest.length + d.toList.length ≤ (c :: r).length) Ends := by
    intro k c r hc
    by_cases hmem : c ∈ delimiter
    · exact settles_gives (delimiterLoop_found hc hmem) (by simp)
    · exact settles_gives (delimiterLoop_other hc hmem) (by simp)
  cases l with
  | nil => exact settles_fails (fails_first (fetchAtleast_fails (by simp))) (by decide)
  | cons c r =>
    cases hc : isspace c with
    | false => exact hround 1 c r hc
    | true =>
      refine delimiterLoop_space hc ?_
      rcases exists_first_byte (fun d => !isspace d) (c :: r) with hall | ⟨w, d, r', hl, hw, hd⟩
      · have hend := parseSpace_end (l := c :: r) fun d hd => by simpa using hall d hd
        exact settles_step (hend.pre fun _ hs => hs.1) (settles_throw (by decide))
      · have hd' : isspace d = false := by simpa using hd
        have hmore := parseSpace_more (w := w) (r := r') (fun x hx => by simpa using hw x hx) hd'
        have hlen := congrArg List.length hl
        simp only [List.length_append, List.length_cons] at hlen
        refine settles_step (hmore.pre fun _ hs => hs.1.trans hl) ?_
        refine Settles.pre ((hround 0 d r' hd').mono fun x rest hrest => ?_) fun _ hs => hs.1
        simp only [List.length_cons] at hrest ⊢
        omega

/-- What the loops need of the decoding of one value: with fewer than `n` bytes it reads one at least. -/
def ReadsOne (n : Nat) (dispatch : Decoding (Value ν)) : Prop :=
  ∀ l : List U8, l.length < n →
    Settles Input.stream (Reads l) dispatch (fun _ r => r.length + 1 ≤ l.length) Ends

theorem arrayLoop_leaves {dispatch : Decoding (Value ν)} (hone : ReadsOne n dispatch)
    (nextp : Nat) (array : List (Key × Value ν)) (hfuel : l.length < fuel) (hn : l.length < n)
    (hl : l.length ≤ k) : Leaves k (Reads l) (arrayLoop dispatch fuel nextp array) := by
  induction fuel generalizing l nextp array with
  | zero => omega
  | succ fuel ih =>
    refine settles_bind (hone l hn) fun object r hr => ?_
    refine settles_bind (parseDelimiter_settles _ r) fun delimiter rest hrest => ?_
    cases delimiter with
    | none => exact leaves_throw (by decide)
    | some c =>
      simp only [Option.toList_some, List.length_cons, List.length_nil] at hrest
      have hchoice : Leaves k (Reads rest)
          (if c = 0x5d then pure (.table (assign array (.index (nextp + 1)) object))
            else arrayLoop dispatch fuel (nextp + 1)
              (assign array (.index (nextp + 1)) object) : Decoding (Value ν)) := by
        split
        · exact leaves_pure _ (by omega)
        · exact ih _ _ (by omega) (by omega) (by omega)
      exact hchoice

theorem parseArray_leaves {dispatch : Decoding (Value ν)} (hone : ReadsOne n dispatch)
    (hfuel : r.length < fuel) (hn : r.length < n) :
    Leaves r.length (Holds 1 (c :: r)) (parseArray dispatch fuel) := by
  refine settles_step (sub_gives 1 (c :: r)) ?_
  refine settles_bind (parseDelimiter_settles _ r) fun close rest hrest => ?_
  cases close with
  | none => exact arrayLoop_leaves hone 0 [] (by omega) (by omega) (by omega)
  | some _ => exact leaves_pure _ (by omega)

theorem objectLoop_leaves {dispatch : Decoding (Value ν)} (hone : ReadsOne n dispatch)
    (array : List (Key × Value ν)) (hfuel : l.length < fuel) (hn : l.length < n)
    (hl : l.length ≤ k) : Leaves k (Reads l) (objectLoop dispatch fuel array) := by
  induction fuel generalizing l array with
  | zero => omega
  | succ fuel ih =>
    rcases exists_first_byte (fun d => !isspace d) l with hall | ⟨w, c, r, rfl, hw, hc⟩
    · have hend := parseSpace_end (l := l) fun d hd => by simpa using hall d hd
      exact settles_step hend (leaves_throw (by decide))
    · have hmore := parseSpace_more (w := w) (r := r) (fun x hx => by simpa using hw x hx)
        (by simpa using hc)
      simp only [List.length_append, List.length_cons] at hfuel hn hl
      refine settles_step hmore ?_
      refine settles_bind (parseString_leaves (by omega) (Nat.le_refl r.length))
        fun name r1 hr1 => ?_
      refine settles_bind (parseDelimiter_settles _ r1) fun separator r2 hr2 => ?_
      cases separator with
      | none => exact leaves_throw (by decide)
      | some _ =>
        simp only [Option.toList_some, List.length_cons, List.length_nil] at hr2
        refine settles_bind (hone r2 (by omega)) fun object r3 hr3 => ?_
        refine settles_bind (parseDelimiter_settles _ r3) fun delimiter r4 hr4 => ?_
        cases delimiter with
        | none => exact leaves_throw (by decide)
        | some d =>
          simp only [Option.toList_some, List.length_cons, List.length_nil] at hr4
          have hchoice : Leaves k (Reads r4)
              (if d = 0x7d then pure (.table (assign array (.name name) object))
                else objectLoop dispatch fuel
                  (assign array (.name name) object) : Decoding (Value ν)) := by
            split
            · exact leaves_pure _ (by omega)
            · exact ih _ (by omega) (by omega) (by omega)
          exact hchoice

theorem parseObject_leaves {dispatch : Decoding (Value ν)} (hone : ReadsOne n dispatch)
    (hfuel : r.length < fuel) (hn : r.length < n) :
    Leaves r.length (Holds 1 (c :: r)) (parseObject dispatch fuel) := by
  refine settles_step (sub_gives 1 (c :: r)) ?_
  refine settles_bind (parseDelimiter_settles _ r) fun close rest hrest => ?_
  cases close with
  | none => exact objectLoop_leaves hone [] (by omega) (by omega) (by omega)
  | some _ => exact leaves_pure _ (by omega)

theorem parse_leaves (tonumber : List U8 → Option ν) (cnull : Bool) {dispatch : Decoding (Value ν)}
    (hone : ReadsOne n dispatch) (hfuel : r.length < fuel) (hn : r.length < n) :
    Leaves r.length (Holds 1 (c :: r)) (parse tonumber cnull dispatch fuel c) := by
  have hreads : ∀ s, Holds 1 (c :: r) s → Reads (c :: r) s := fun _ hs => hs.1
  unfold parse
  split_ifs with hstring htrue hfalse hnull hcnull harray hobject hnumber
  · refine settles_bind (parseString_leaves hfuel (Nat.le_refl r.length)) fun s rest hrest => ?_
    exact leaves_pure _ hrest
  · exact Settles.pre (parseLiteral_leaves (by decide) _ (by simp)) hreads
  · exact Settles.pre (parseLiteral_leaves (by decide) _ (by simp)) hreads
  · exact Settles.pre (parseLiteral_leaves (by decide) _ (by simp)) hreads
  · exact Settles.pre (parseLiteral_leaves (by decide) _ (by simp)) hreads
  · exact parseArray_leaves hone hfuel hn
  · exact parseObject_leaves hone hfuel hn
  · have hnumeric : numeric c = true := by
      simp only [numeric, Bool.or_eq_true, decide_eq_true_eq] at hnumber ⊢
      rcases hnumber with hdigit | hminus
      · simp [hdigit]
      · simp [hminus]
    exact Settles.pre (parseNumber_leaves tonumber hnumeric (Nat.le_refl _)) hreads
  · exact leaves_throw (by simp)

/-- All cuts of fewer than `fuel` bytes have one outcome, and a value takes at least one byte. -/
theorem dispatch_settles (tonumber : List U8 → Option ν) (cnull strict : Bool)
    (object : Option (Value ν)) (hfuel : l.length < fuel) :
    Settles Input.stream (Reads l) (dispatch tonumber cnull fuel strict object)
      (fun _ r => strict = true → r.length + 1 ≤ l.length) Ends := by
  induction fuel generalizing l strict object with
  | zero => omega
  | succ fuel ih =>
    have hfinish : ∀ {P : Input → Prop}, (∀ s, P s → s.stream = []) →
        (strict = true → 1 ≤ l.length) → Settles Input.stream P (finish object : Decoding (Value ν))
          (fun _ r => strict = true → r.length + 1 ≤ l.length) Ends := by
      intro P hP hpos
      cases object with
      | none => exact settles_throw (by decide)
      | some object => exact settles_pure hP (by simpa using hpos)
    cases l with
    | nil =>
      refine settles_step fill_nil ?_
      have hchoice : Settles Input.stream (Reads [])
          (if strict then throw .unexpectedEos else finish object : Decoding (Value ν))
          (fun _ r => strict = true → r.length + 1 ≤ ([] : List U8).length) Ends := by
        split
        · exact settles_throw (by decide)
        · rename_i hstrict
          exact hfinish (fun _ hs => hs) fun h => absurd h hstrict
      exact hchoice
    | cons c r =>
      have hr : r.length < fuel := by
        rw [List.length_cons] at hfuel
        omega
      refine settles_step (fill_cons c r) ?_
      cases hc : isspace c with
      | true =>
        have hspace : Settles Input.stream (Holds 1 (c :: r))
            (do
              let more ← parseSpace
              if more then dispatch tonumber cnull fuel strict object else finish object)
            (fun _ rest => strict = true → rest.length + 1 ≤ (c :: r).length) Ends := by
          rcases exists_first_byte (fun d => !isspace d) (c :: r) with hall | ⟨w, d, r', hl, hw, hd⟩
          · have hend := parseSpace_end (l := c :: r) fun d hd => by simpa using hall d hd
            exact settles_step (hend.pre fun _ hs => hs.1) (hfinish (fun _ hs => hs) (by simp))
          · have hmore := parseSpace_more (w := w) (r := r') (fun x hx => by simpa using hw x hx)
              (by simpa using hd)
            have hlen := congrArg List.length hl
            cases w with
            | nil =>
              obtain ⟨rfl, _⟩ := List.cons.inj hl
              simp [hc] at hd
            | cons x w =>
              simp only [List.length_append, List.length_cons] at hlen
              refine settles_step (hmore.pre fun _ hs => hs.1.trans hl) ?_
              have hshort : (d :: r').length < fuel := by
                rw [List.length_cons]
                omega
              refine Settles.pre ((ih strict object hshort).mono fun _ rest hrest hs => ?_)
                fun _ hs => hs.1
              have hle := hrest hs
              simp only [List.length_cons] at hle ⊢
              omega
        simpa only [hc, if_true] using hspace
      | false =>
        have hone : ReadsOne fuel (dispatch tonumber cnull fuel true none) :=
          fun l hl => (ih true none hl).mono fun _ _ hrest => hrest rfl
        have hobject : Settles Input.stream (Holds 1 (c :: r))
            (do
              let robject ← parse tonumber cnull (dispatch tonumber cnull fuel true none) fuel c
              if object.isSome then throw .tooManyObjects
              else if strict then pure robject
              else dispatch tonumber cnull fuel strict (some robject))
            (fun _ rest => strict = true → rest.length + 1 ≤ (c :: r).length) Ends := by
          refine settles_bind (parse_leaves tonumber cnull hone hr hr) fun robject rest hrest => ?_
          split
          · exact settles_throw (by decide)
          · split
            · exact settles_pure (fun _ hs => hs) fun _ => by simpa using hrest
            · rename_i hstrict
              have hshort : rest.length < fuel := by omega
              exact (ih strict (some robject) hshort).mono fun _ _ _ hs => absurd hs hstrict
        simpa only [hc, Bool.false_eq_true, if_false] using hobject

end Routines

/-- Feeding the chunks of an input to the sink, each followed by the next and the last by nil, has the
outcome of feeding it whole, and it is an outcome of the decoder's own. -/
theorem feedSink_uncut (tonumber : List U8 → Option ν) (cnull : Bool) (chunks : List (List U8)) :
    feedSink tonumber cnull chunks = feedSink tonumber cnull [chunks.flatten] ∧
      feedSink tonumber cnull chunks ≠ .error .exhausted := by
  cases chunks with
  | nil =>
    have hempty : feedSink tonumber cnull [[]] = .error .unexpectedEos := rfl
    exact ⟨hempty.symm, by simp [feedSink]⟩
  | cons chunk feeds =>
    let l := (chunk :: feeds).flatten
    have hwhole : [l].flatten = l := by simp
    have hcut : Reads l ⟨chunk, feeds⟩ := rfl
    have huncut : Reads l ⟨l, []⟩ := by simp [Reads, Input.stream]
    obtain ⟨hsame, hends⟩ := (dispatch_settles tonumber cnull false none
      (Nat.lt_succ_self l.length)).agree hcut huncut
    refine ⟨?_, ?_⟩
    · rw [feedSink, feedSink, hwhole]
      exact hsame
    · intro h
      cases hrun : dispatch tonumber cnull (l.length + 1) false none ⟨chunk, feeds⟩ with
      | ok x =>
        rw [feedSink, hrun] at h
        cases h
      | error e =>
        rw [feedSink, hrun] at h
        obtain rfl : e = .exhausted := Except.error.inj h
        exact hends _ hrun rfl

end OpenwrtMtk.Luci.Json
