import OpenwrtMtk.Luci.HttpRoundTrip
import OpenwrtMtk.Luci.Multipart

/-!
# Reading a multipart body back

The sections of a body come back, however its source cuts it, where no piece but the last is shorter
than the closing delimiter: what is left in `lchunk` never reaches behind the section it began in.
-/

namespace OpenwrtMtk.Luci.Http

open Toolkit

set_option autoImplicit false

/-- A section: its headers and its content. -/
structure Part where
  headers : List (List U8 × List U8)
  value : List U8

def headerText (headers : List (List U8 × List U8)) : List U8 :=
  headers.flatMap fun h => h.1 ++ [0x3a, 0x20] ++ h.2 ++ crlf

def Part.text (p : Part) : List U8 := headerText p.headers ++ crlf ++ p.value

section Delimiters

variable {boundary x y data r : List U8} {ps : List Part} {j : Nat}

def delimiterStart (boundary : List U8) : List U8 := crlf ++ [0x2d, 0x2d] ++ boundary

/-- The delimiter in front of the sections `ps`. -/
def nextDelimiter (boundary : List U8) : List Part → List U8
  | [] => closeDelimiter boundary
  | _ :: _ => delimiter boundary

def behindNext (boundary : List U8) : List Part → List U8
  | [] => []
  | p :: ps => p.text ++ (nextDelimiter boundary ps ++ behindNext boundary ps)

/-- The sections `ps` with their delimiters. -/
def restOf (boundary : List U8) (ps : List Part) : List U8 :=
  nextDelimiter boundary ps ++ behindNext boundary ps

theorem delimiter_start (boundary : List U8) : delimiterStart boundary <+: delimiter boundary :=
  List.prefix_append _ _

theorem closeDelimiter_start (boundary : List U8) :
    delimiterStart boundary <+: closeDelimiter boundary :=
  (List.prefix_append _ _).trans (List.prefix_append _ _)

theorem next_start (boundary : List U8) (ps : List Part) :
    delimiterStart boundary <+: nextDelimiter boundary ps := by
  cases ps with
  | nil => exact closeDelimiter_start boundary
  | cons p ps => exact delimiter_start boundary

theorem length_delimiter_lt (boundary : List U8) :
    (closeDelimiter boundary).length = (delimiter boundary).length + 2 := by
  simp [closeDelimiter, delimiter, crlf]

theorem restOf_cr (boundary : List U8) (ps : List Part) :
    ∃ y, restOf boundary ps = 0x0d :: y := by
  obtain ⟨y, hy⟩ := next_start boundary ps
  exact ⟨_, by rw [restOf, ← hy]; rfl⟩

theorem length_le_of_start (hb : 0x0d ∉ boundary) (hx : ¬delimiterStart boundary <:+: x)
    (h : delimiterStart boundary <+: (x ++ 0x0d :: y).drop j) : x.length ≤ j := by
  by_contra hlt
  have hj : j < x.length := Nat.lt_of_not_le hlt
  rw [List.drop_append_of_le_length hj.le] at h
  rcases Nat.lt_or_ge (x.drop j).length (delimiterStart boundary).length with hlen | hlen
  · -- it would reach over the carriage return, of which it has only one at its start
    have hcr : x.drop j ++ [0x0d] <+: delimiterStart boundary := by
      refine List.prefix_of_prefix_length_le ?_ h ?_
      · exact ⟨y, by simp⟩
      · rw [List.length_append, List.length_singleton]
        exact hlen
    cases hdrop : x.drop j with
    | nil =>
      have hzero := congrArg List.length hdrop
      simp at hzero
      omega
    | cons c cs =>
      rw [hdrop] at hcr
      have hmem : (0x0d : U8) ∈ [0x0a, 0x2d, 0x2d] ++ boundary := by
        have htail : cs ++ [0x0d] <+: [0x0a, 0x2d, 0x2d] ++ boundary :=
          (List.cons_prefix_cons.mp hcr).2
        exact htail.subset (by simp)
      exact hb (by simpa using hmem)
  · have hpre := List.prefix_of_prefix_length_le h (List.prefix_append _ _) hlen
    exact hx (hpre.isInfix.trans (List.drop_suffix j x).isInfix)

theorem length_le_of_delimiter (hb : 0x0d ∉ boundary) (hx : ¬delimiterStart boundary <:+: x)
    (hdata : data <+: x ++ restOf boundary ps) {pat : List U8}
    (hpat : delimiterStart boundary <+: pat) (h : pat <+: data.drop j) :
    x.length ≤ j ∧ j + pat.length ≤ data.length := by
  constructor
  · obtain ⟨y, hy⟩ := restOf_cr boundary ps
    rw [hy] at hdata
    exact length_le_of_start hb hx (hpat.trans (h.trans (hdata.drop j)))
  · have hlen := h.length_le
    have hpos : 0 < pat.length := Nat.lt_of_lt_of_le (by simp [delimiterStart, crlf]) hpat.length_le
    rw [List.length_drop] at hlen
    omega

theorem not_delimiter_in_close {k : Nat} (hk : k ≤ 2) :
    ¬delimiter boundary <+: (closeDelimiter boundary).drop k := by
  intro h
  have hshape : ∀ tail, delimiter boundary ++ tail = 0x0d :: 0x0a :: 0x2d :: 0x2d ::
      (boundary ++ crlf ++ tail) := by
    intro tail
    simp [delimiter, crlf]
  obtain ⟨tail, htail⟩ := h
  rw [hshape] at htail
  match k, hk with
  | 0, _ => simp [closeDelimiter, crlf] at htail
  | 1, _ => simp [closeDelimiter, crlf] at htail
  | 2, _ => simp [closeDelimiter, crlf] at htail

theorem firstAt_delimiter_last (hb : 0x0d ∉ boundary) (hx : ¬delimiterStart boundary <:+: x)
    (hdata : data <+: x ++ restOf boundary []) : firstAt (delimiter boundary) data = none := by
  apply firstAt_eq_none
  intro j h
  obtain ⟨hle, hlen⟩ := length_le_of_delimiter hb hx hdata (delimiter_start boundary) h
  obtain ⟨k, rfl⟩ := Nat.exists_eq_add_of_le hle
  have hrest : restOf boundary [] = closeDelimiter boundary := List.append_nil _
  have hshort := hdata.length_le
  rw [hrest, List.length_append, length_delimiter_lt] at hshort
  have hk : k ≤ 2 := by omega
  have hdrop := h.trans (hdata.drop (x.length + k))
  rw [hrest, List.drop_length_add_append] at hdrop
  exact not_delimiter_in_close hk hdrop

theorem findDelimiter_found (hb : 0x0d ∉ boundary) (hx : ¬delimiterStart boundary <:+: x)
    (hdata : data ++ r = x ++ restOf boundary ps)
    (hlen : x.length + (nextDelimiter boundary ps).length ≤ data.length) :
    findDelimiter boundary data =
        some (x.length, x.length + (nextDelimiter boundary ps).length) ∧
      data.take x.length = x ∧
      data.drop (x.length + (nextDelimiter boundary ps).length) ++ r = behindNext boundary ps := by
  have hpre : data <+: x ++ restOf boundary ps := ⟨r, hdata⟩
  have hfront : x ++ nextDelimiter boundary ps <+: data := by
    refine List.prefix_of_prefix_length_le ?_ hpre (by simpa using hlen)
    exact ⟨behindNext boundary ps, by rw [restOf, List.append_assoc]⟩
  obtain ⟨rest, rfl⟩ := hfront
  have hhere : nextDelimiter boundary ps <+:
      (x ++ nextDelimiter boundary ps ++ rest).drop x.length := by
    rw [List.append_assoc, List.drop_left]
    exact List.prefix_append _ _
  have hfirst : ∀ pat, delimiterStart boundary <+: pat → ∀ j < x.length,
      ¬pat <+: (x ++ nextDelimiter boundary ps ++ rest).drop j := by
    intro pat hpat j hj h
    have hle := (length_le_of_delimiter hb hx hpre hpat h).1
    omega
  have hne : ∀ pat, delimiterStart boundary <+: pat → pat ≠ [] := by
    rintro _ hpat rfl
    cases List.prefix_nil.mp hpat
  refine ⟨?_, ?_, ?_⟩
  · cases ps with
    | cons p ps =>
      have hat := firstAt_eq_some (hne _ (delimiter_start boundary)) hhere
        (hfirst _ (delimiter_start boundary))
      rw [findDelimiter, hat]
      rfl
    | nil =>
      have hat := firstAt_eq_some (hne _ (closeDelimiter_start boundary)) hhere
        (hfirst _ (closeDelimiter_start boundary))
      rw [findDelimiter, firstAt_delimiter_last hb hx hpre, hat]
      rfl
  · rw [List.append_assoc, List.take_left]
  · rw [← List.length_append, List.drop_left]
    rw [restOf, List.append_assoc, List.append_assoc] at hdata
    exact List.append_cancel_left (List.append_cancel_left hdata)

end Delimiters

/-! ## Headers -/

section Headers

/-- A header as `parse_headers` knows it. -/
structure WellHeader (h : List U8 × List U8) : Prop where
  name : ∃ c t, h.1 = c :: t ∧ isUpper c = true ∧ t ≠ [] ∧ ∀ b ∈ t, headerChar b = true
  value : ∃ b t, h.2 = b :: t ∧ b ≠ 0x20
  line : ∀ b ∈ h.2, inLine b = true

variable {h : List U8 × List U8} {hs headers : List (List U8 × List U8)} {data r z : List U8}

end Headers

/-! ## Sections -/

section Sections

variable {filecb : Bool} {boundary data r x y z : List U8} {p : Part} {ps : List Part}
  {s s' : MimeParse} {params : Params} {files : List (MimeField × List U8)}

def Part.field (p : Part) : MimeField :=
  MimeField.finish
    ⟨p.headers.foldl (fun headers h => setHeader headers h.1 h.2) [], none, none⟩

def FileCall.join (out : List (MimeField × List U8) × List U8) (c : FileCall) :
    List (MimeField × List U8) × List U8 :=
  if c.eof then (out.1 ++ [(c.field, out.2 ++ c.buf)], []) else (out.1, out.2 ++ c.buf)

def received (calls : List FileCall) : List (MimeField × List U8) × List U8 :=
  calls.foldl FileCall.join ([], [])

abbrev Stored := Params × List (MimeField × List U8)

def storePart (filecb : Bool) (out : Stored) (p : Part) : Stored :=
  match p.field.name, (if filecb then p.field.file else none) with
  | some name, some file => (storeParam out.1 name file, out.2 ++ [(p.field, p.value)])
  | some name, none => (storeParam out.1 name p.value, out.2)
  | none, _ => out

/-- A section that the decoder reads: its headers are well formed and give it a name, and no
delimiter starts in it. -/
structure Part.Well (boundary : List U8) (p : Part) : Prop where
  headers : ∀ h ∈ p.headers, WellHeader h
  name : p.field.name ≠ none
  free : ¬delimiterStart boundary <:+: p.text

inductive Open (filecb : Bool) (s : MimeParse) : List U8 → Stored → Prop where
  | start {files : List (MimeField × List U8)} : s.inhdr = false → s.store = .none →
      received s.calls = (files, []) → Open filecb s [] (s.params, files)
  | header {files : List (MimeField × List U8)} (p : Part) (taken left : List (List U8 × List U8)) :
      s.inhdr = true → (∀ h ∈ p.headers, WellHeader h) → p.field.name ≠ none →
      p.headers = taken ++ left →
      s.field = ⟨taken.foldl (fun headers h => setHeader headers h.1 h.2) [], none, none⟩ →
      received s.calls = (files, []) →
      Open filecb s (headerText left ++ crlf ++ p.value) (storePart filecb (s.params, files) p)
  | param {files : List (MimeField × List U8)} {name v : List U8} {params : Params} :
      s.inhdr = false → s.store = .param name → received s.calls = (files, []) →
      appendval s.params name v = some params → Open filecb s v (params, files)
  | file {files : List (MimeField × List U8)} {v w : List U8} :
      s.inhdr = false → s.store = .filecb → received s.calls = (files, w) →
      Open filecb s v (s.params, files ++ [(s.field, w ++ v)])

/-- The text `u` is to come, and what it stores is `out`. -/
structure Awaits (filecb : Bool) (boundary : List U8) (s : MimeParse) (u : List U8)
    (out : Stored) : Prop where
  rest : ∃ x ps now, u = x ++ restOf boundary ps ∧ ¬delimiterStart boundary <:+: x ∧
    Open filecb s x now ∧ (∀ p ∈ ps, p.Well boundary) ∧ out = ps.foldl (storePart filecb) now

theorem Awaits.short {out : Stored} (hb : 0x0d ∉ boundary)
    (h : Awaits filecb boundary s (data ++ r) out) (hnone : findDelimiter boundary data = none) :
    ∃ x ps now, data ++ r = x ++ restOf boundary ps ∧ ¬delimiterStart boundary <:+: x ∧
      Open filecb s x now ∧ (∀ p ∈ ps, p.Well boundary) ∧ out = ps.foldl (storePart filecb) now ∧
      data.length < x.length + (closeDelimiter boundary).length ∧ r ≠ [] := by
  obtain ⟨x, ps, now, hdata, hx, hopen, hps, hout⟩ := h.rest
  have hlt : data.length < x.length + (nextDelimiter boundary ps).length := by
    by_contra hge
    obtain ⟨hfind, -⟩ := findDelimiter_found hb hx hdata (Nat.le_of_not_lt hge)
    rw [hnone] at hfind
    cases hfind
  have hnext : (nextDelimiter boundary ps).length ≤ (closeDelimiter boundary).length := by
    cases ps with
    | nil => exact le_rfl
    | cons p ps =>
      rw [length_delimiter_lt]
      exact Nat.le_add_right _ 2
  refine ⟨x, ps, now, hdata, hx, hopen, hps, hout, by omega, ?_⟩
  rintro rfl
  have hlen := congrArg List.length hdata
  rw [List.append_nil, List.length_append, restOf, List.length_append] at hlen
  omega

end Sections

end OpenwrtMtk.Luci.Http
