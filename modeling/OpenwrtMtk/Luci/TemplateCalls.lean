import OpenwrtMtk.Lib.Pull
import OpenwrtMtk.Luci.TemplateParser

/-!
# The calls of `template_reader`

One call takes the parser past a text or past a tag, and formats the chunk of the call before. Each
kind of call has one lemma: where it leaves the parser, which chunk it marks and what it hands out.
-/

namespace OpenwrtMtk.Luci

open Toolkit

set_option autoImplicit false

def beginsDash (c : List U8) : Bool := c.head? = some 0x2d

def endsDash (c : List U8) : Bool := c.getLast? = some 0x2d

def lstripIf (strip : Bool) (t : List U8) : List U8 := if strip then t.dropWhile isspace else t

def rstripIf (strip : Bool) (t : List U8) : List U8 := if strip then t.rdropWhile isspace else t

def textCode (t : List U8) : List U8 :=
  if t = [] then latin " "
  else latin "write(\"" ++ luastrEscape false t ++ latin "\")"

/-- The parser has read `pre`, not yet `rest`, and the chunk it marked last lies in the file. -/
structure Ready (p : Parser) (pre rest : List U8) : Prop where
  file : p.file = pre ++ rest
  off : p.off = pre.length
  cur_le : p.cur.s ≤ p.cur.e
  cur_in : p.cur.e ≤ p.size

/-- Before a text that follows the tag `c`, or begins the file where `c` is empty. -/
structure BeforeText (p : Parser) (pre rest c : List U8) : Prop extends Ready p pre rest where
  inExpr : p.inExpr = false
  stripBefore : p.stripBefore = beginsDash c
  stripAfter : p.stripAfter = endsDash c
  open_ : p.cur.type ≠ .eof

structure BeforeTag (p : Parser) (pre rest : List U8) : Prop extends Ready p pre rest where
  inExpr : p.inExpr = true
  marker : pre.getLast? = some 0x25
  open_ : p.cur.type ≠ .eof

/-- The call hands out the chunk that was marked before. -/
structure HandsOut (p q : Parser) (reply : Reply) : Prop where
  file : q.file = p.file
  type : q.prv.type = p.cur.type
  text : p.cur.type = .text →
    q.content q.prv = rstripIf q.stripBefore (p.content p.cur) ∧
      reply = .chunk (textCode (q.content q.prv))
  isLast : reply.isLast = decide (p.cur.type = .eof)

section Format

variable {p : Parser}

theorem trimBack_chunk {file : List U8} {s e : Nat} (hle : s ≤ e) (hin : e ≤ file.length) :
    trimBack file isspace s e =
      some (s + ((slice file s (e - s)).rdropWhile isspace).length) := by
  have hlen : (slice file s (e - s)).length = e - s := length_slice (by omega)
  have hfile : file = file.take s ++ (slice file s (e - s) ++ file.drop e) := by
    have htail := drop_eq_slice_append file s (e - s)
    rw [Nat.add_sub_cancel' hle] at htail
    rw [← htail, List.take_append_drop]
  have htrim := trimBack_eq isspace (file.take s) (slice file s (e - s)) (file.drop e)
  rw [← hfile, List.length_take, hlen, Nat.min_eq_left (by omega), Nat.add_sub_cancel' hle] at htrim
  exact htrim

theorem slice_prefix {file l : List U8} {s n : Nat} (h : l <+: slice file s n) :
    slice file s l.length = l := by
  obtain ⟨r, hr⟩ := h
  have htake : (slice file s n).take l.length = l := by rw [← hr, List.take_left]
  have hlen : l.length ≤ n := by
    have hle := congrArg List.length hr
    rw [List.length_append] at hle
    have hslice : (slice file s n).length ≤ n := List.length_take_le _ _
    omega
  rwa [slice, List.take_take, Nat.min_eq_left hlen] at htake

theorem templateFormatChunk_in (lmoTranslate : List U8 → Translation) (hle : p.prv.s ≤ p.prv.e) (hin : p.prv.e ≤ p.size)
    (heof : p.prv.type = .eof → p.prv.s = p.prv.e) :
    ∃ prv line reply, p.templateFormatChunk lmoTranslate =
        some ({ p with prv := prv, line := line }, reply) ∧
      prv.type = p.prv.type ∧
      (p.prv.type = .text → p.content prv = rstripIf p.stripBefore (p.content p.prv) ∧
        reply = .chunk (textCode (p.content prv))) ∧
      reply.isLast = decide (p.prv.type = .eof) := by
  have hlen : (p.content p.prv).length = p.prv.e - p.prv.s := length_slice (by
    rw [Nat.add_sub_cancel' hle]
    exact hin)
  let kept := if p.stripBefore ∧ p.prv.type = .text then (p.content p.prv).rdropWhile isspace
    else p.content p.prv
  have hprefix : kept <+: p.content p.prv := by
    unfold kept
    split
    · exact List.rdropWhile_prefix isspace _
    · exact List.prefix_rfl
  have hshort : kept.length ≤ p.prv.e - p.prv.s := hlen ▸ hprefix.length_le
  have htrim : (if p.stripBefore ∧ p.prv.type = .text then
      trimBack p.file isspace p.prv.s p.prv.e else some p.prv.e) =
        some (p.prv.s + kept.length) := by
    unfold kept
    split
    · exact trimBack_chunk hle hin
    · rw [hlen, Nat.add_sub_cancel' hle]
  let prv : Chunk := { p.prv with e := p.prv.s + kept.length }
  have hcontent : p.content prv = kept := by
    have hlong : slice p.file p.prv.s (p.prv.s + kept.length - p.prv.s) = kept := by
      rw [Nat.add_sub_cancel_left]
      exact slice_prefix hprefix
    exact hlong
  have htext : p.prv.type = .text → kept = rstripIf p.stripBefore (p.content p.prv) := by
    intro ht
    simp [kept, ht, rstripIf]
  by_cases hempty : kept = []
  · refine ⟨prv, p.line, if p.prv.type = .eof then .null else .chunk (latin " "), ?_, rfl, ?_, ?_⟩
    · simp only [Parser.templateFormatChunk, htrim, Option.bind_eq_bind, Option.bind_some, prv,
        hempty, List.length_nil, Nat.add_zero, if_true]
    · intro ht
      rw [hcontent, htext ht]
      simp [ht, textCode, ← htext ht, hempty]
    · split <;> simp_all [Reply.isLast]
  · have hpos : 0 < kept.length := List.length_pos_iff.mpr hempty
    have hnotEof : p.prv.type ≠ .eof := fun h => by
      have := heof h
      omega
    refine ⟨prv, p.line + p.newlines prv, .chunk (p.formatted lmoTranslate prv), ?_, rfl, ?_, ?_⟩
    · have hne : p.prv.s ≠ p.prv.s + kept.length := by omega
      have hbounds : p.prv.s < p.prv.s + kept.length ∧ p.prv.s + kept.length ≤ p.size := by omega
      simp only [Parser.templateFormatChunk, htrim, Option.bind_eq_bind, Option.bind_some, prv,
        if_neg hne, if_pos hbounds]
    · intro ht
      refine ⟨by rw [hcontent, htext ht], ?_⟩
      have htype : prv.type = .text := ht
      simp only [Parser.formatted, Parser.body, genCode, htype, hcontent, textCode, if_neg hempty,
        Parser.orBlank]
      rw [if_neg]
      simp [latin]
    · simp [Reply.isLast, hnotEof]

end Format

section Tag

def tagStart (c : List U8) : Nat :=
  if beginsDash c then 1 + (c.tail.takeWhile isblank).length else 0

def tagEnd (c : List U8) : Nat := if endsDash c then c.length - 1 else c.length

variable {c : List U8}

theorem beginsDash_iff : beginsDash c = true ↔ ∃ r, c = 0x2d :: r := by
  simp [beginsDash, List.head?_eq_some_iff]

theorem endsDash_iff : endsDash c = true ↔ ∃ r, c = r ++ [0x2d] := by
  simp [endsDash, List.getLast?_eq_some_iff]

theorem length_takeWhile_lt {p : U8 → Bool} {l : List U8} {d : U8} (hd : d ∈ l)
    (hnot : p d = false) : (l.takeWhile p).length < l.length := by
  have hprefix := List.takeWhile_prefix p (l := l)
  rcases Nat.lt_or_eq_of_le hprefix.length_le with hlt | heq
  · exact hlt
  · rw [← hprefix.eq_of_length heq] at hd
    rw [List.mem_takeWhile_imp hd] at hnot
    cases hnot

theorem tagStart_le (c : List U8) : tagStart c ≤ c.length := by
  unfold tagStart
  split
  · obtain ⟨r, rfl⟩ := beginsDash_iff.mp ‹_›
    have hle := (List.takeWhile_prefix isblank (l := r)).length_le
    simp only [List.tail_cons, List.length_cons]
    omega
  · omega

theorem tagEnd_le (c : List U8) : tagEnd c ≤ c.length := by
  unfold tagEnd
  split <;> omega

theorem tagStart_le_tagEnd (hc : c ≠ [0x2d]) : tagStart c ≤ tagEnd c := by
  unfold tagEnd
  by_cases hend : endsDash c = true
  · rw [if_pos hend]
    unfold tagStart
    split
    · obtain ⟨r, rfl⟩ := beginsDash_iff.mp ‹_›
      obtain ⟨r', hr'⟩ := endsDash_iff.mp hend
      cases r' with
      | nil => exact absurd hr' hc
      | cons d r' =>
        obtain ⟨rfl, hr⟩ := List.cons.inj hr'
        -- the dash at the end is no blank, so the loop stops before it
        have hstop : (r.takeWhile isblank).length < r.length :=
          length_takeWhile_lt (d := 0x2d) (by simp [hr]) (by decide)
        simp only [List.tail_cons, List.length_cons]
        omega
    · omega
  · rw [if_neg hend]
    exact tagStart_le c

theorem getElem?_tagEnd (c r : List U8) :
    (c ++ 0x25 :: r)[tagEnd c]? = some (if endsDash c then 0x2d else 0x25) := by
  unfold tagEnd
  by_cases hend : endsDash c = true
  · obtain ⟨r', rfl⟩ := endsDash_iff.mp hend
    rw [if_pos hend, if_pos hend]
    simp
  · rw [if_neg hend, if_neg hend]
    simp

theorem tagType_width (d : U8) : (Parser.tagType d).2 ≤ 1 := by
  unfold Parser.tagType
  split_ifs <;> decide

theorem tagType_other (d : U8) :
    (Parser.tagType d).1 ≠ .text ∧ (Parser.tagType d).1 ≠ .eof := by
  unfold Parser.tagType
  split_ifs <;> decide

theorem tag_within {d : U8} {r : List U8} (hc : c ≠ [0x2d])
    (hd : (c ++ 0x25 :: r)[tagStart c]? = some d) :
    tagStart c + (Parser.tagType d).2 ≤ tagEnd c := by
  have hle := tagStart_le_tagEnd hc
  rcases Nat.lt_or_ge (tagStart c) (tagEnd c) with hlt | hge
  · have hwidth := tagType_width d
    omega
  · have heq : tagStart c = tagEnd c := by omega
    rw [heq, getElem?_tagEnd] at hd
    obtain rfl := Option.some.inj hd
    have hcode : Parser.tagType (if endsDash c = true then 0x2d else 0x25) = (.code, 0) := by
      split <;> rfl
    rw [heq, hcode]
    exact Nat.le_refl _

theorem tag_crosses {d : U8} :
    ¬ tagStart [0x2d] + (Parser.tagType d).2 ≤ tagEnd [0x2d] := by
  have hstart : tagStart [0x2d] = 1 := by decide
  have hend : tagEnd [0x2d] = 0 := by decide
  omega

end Tag

section Reader

variable {lmoTranslate : List U8 → Translation} {p : Parser} {pre t post c : List U8}

theorem exists_handsOut (lmoTranslate : List U8 → Translation) {q : Parser} (hprv : q.prv = p.cur) (hfile : q.file = p.file)
    (hle : p.cur.s ≤ p.cur.e) (hin : p.cur.e ≤ p.size)
    (heof : p.cur.type = .eof → p.cur.s = p.cur.e) :
    ∃ prv line reply, q.templateFormatChunk lmoTranslate =
        some ({ q with prv := prv, line := line }, reply) ∧
      HandsOut p { q with prv := prv, line := line } reply := by
  have hsize : q.size = p.size := by rw [Parser.size, Parser.size, hfile]
  obtain ⟨prv, line, reply, hrun, htype, htext, hlast⟩ :=
    templateFormatChunk_in lmoTranslate (p := q) (by rw [hprv]; exact hle)
      (by rw [hprv, hsize]; exact hin) (by rw [hprv]; exact heof)
  rw [hprv] at htype htext hlast
  have hcontent : q.content p.cur = p.content p.cur := by
    rw [Parser.content, Parser.content, hfile]
  rw [hcontent] at htext
  exact ⟨prv, line, reply, hrun, hfile, htype, htext, hlast⟩

theorem templateReader_text {q : Parser} {tag : Nat} (hexpr : p.inExpr = false)
    (hfind : strfind p.file [0x3c, 0x25] (p.size - p.off) p.off = some (some tag))
    (hmark : { p with prv := p.cur }.templateText tag = some q) :
    p.templateReader lmoTranslate =
      { q with off := tag + 2, inExpr := true }.templateFormatChunk lmoTranslate := by
  have hout : ¬ p.inExpr = true := by simp [hexpr]
  refine (if_neg hout).trans ?_
  refine (congrArg (Option.bind · _) hfind).trans ?_
  exact congrArg (Option.bind · _) hmark

theorem templateReader_rest {q : Parser} (hexpr : p.inExpr = false)
    (hfind : strfind p.file [0x3c, 0x25] (p.size - p.off) p.off = some none)
    (hmark : { p with prv := p.cur }.templateText p.size = some q) :
    p.templateReader lmoTranslate =
      { q with off := q.size }.templateFormatChunk lmoTranslate := by
  have hout : ¬ p.inExpr = true := by simp [hexpr]
  refine (if_neg hout).trans ?_
  refine (congrArg (Option.bind · _) hfind).trans ?_
  exact congrArg (Option.bind · _) hmark

theorem slice_between (pre t post : List U8) (k : Nat) :
    slice (pre ++ (t ++ post)) (pre.length + k) (pre.length + t.length - (pre.length + k)) =
      t.drop k := by
  rw [slice, ← List.drop_drop, List.drop_left, Nat.add_sub_add_left]
  rcases Nat.le_total k t.length with hk | hk
  · rw [List.drop_append_of_le_length hk, List.take_append_of_le_length (by simp),
      List.take_of_length_le (by simp)]
  · rw [Nat.sub_eq_zero_of_le hk, List.take_zero, List.drop_of_length_le hk]

theorem drop_takeWhile (p : U8 → Bool) (t : List U8) :
    t.drop (t.takeWhile p).length = t.dropWhile p := by
  calc t.drop (t.takeWhile p).length
      = (t.takeWhile p ++ t.dropWhile p).drop (t.takeWhile p).length := by
        rw [List.takeWhile_append_dropWhile]
    _ = t.dropWhile p := List.drop_left

def textStart (strip : Bool) (t : List U8) : Nat :=
  if strip then (t.takeWhile isspace).length else 0

theorem textStart_le (strip : Bool) (t : List U8) : textStart strip t ≤ t.length := by
  unfold textStart
  split
  · exact (List.takeWhile_prefix isspace).length_le
  · omega

theorem drop_textStart (strip : Bool) (t : List U8) :
    t.drop (textStart strip t) = lstripIf strip t := by
  unfold textStart lstripIf
  split
  · exact drop_takeWhile isspace t
  · rfl

theorem reader_text (lmoTranslate : List U8 → Translation)
    (h : BeforeText p pre (t ++ 0x3c :: 0x25 :: post) c)
    (ht : Without 0x3c 0x25 t) :
    ∃ q reply, p.templateReader lmoTranslate = some (q, reply) ∧ HandsOut p q reply ∧
      q.stripBefore = beginsDash c ∧ BeforeTag q (pre ++ t ++ [0x3c, 0x25]) post ∧
      q.cur.type = .text ∧ q.content q.cur = lstripIf (endsDash c) t := by
  have hsize : p.size = pre.length + (t.length + (post.length + 2)) := by
    rw [Parser.size, h.file]
    simp [Nat.add_assoc]
  have hrem : p.size - p.off = (t ++ 0x3c :: 0x25 :: post).length := by
    rw [hsize, h.off]
    simp
  have hfind : strfind p.file [0x3c, 0x25] (p.size - p.off) p.off =
      some (some (pre.length + t.length)) := by
    rw [hrem, h.file, h.off]
    exact strfind_hit (by decide) ht
  have hskip : (if p.stripAfter then skip p.file isspace p.off (pre.length + t.length)
      else some p.off) = some (pre.length + textStart (endsDash c) t) := by
    rw [h.stripAfter, h.off, h.file]
    unfold textStart
    split
    · rw [skip, show pre.length + t.length + 1 - pre.length = t.length + 1 by omega]
      exact skipFrom_over (by decide) (by omega)
    · rfl
  let cur : Chunk := ⟨pre.length + textStart (endsDash c) t, pre.length + t.length, .text, p.line⟩
  have hmark : { p with prv := p.cur }.templateText (pre.length + t.length) =
      some { p with prv := p.cur, cur := cur } := by
    have hoff : p.off < p.size := by
      rw [h.off, hsize]
      omega
    have hmark' : (if p.stripAfter then skip p.file isspace p.off (pre.length + t.length)
        else some p.off).map (fun s => { p with
          prv := p.cur, cur := ⟨s, pre.length + t.length, .text, p.line⟩ }) =
          some { p with prv := p.cur, cur := cur } := by
      rw [hskip]
      rfl
    exact (if_pos hoff).trans hmark'
  obtain ⟨prv, line, reply, hrun, hands⟩ := exists_handsOut lmoTranslate (p := p)
    (q := { p with prv := p.cur, cur := cur, off := pre.length + t.length + 2, inExpr := true })
    rfl rfl h.cur_le h.cur_in fun heof => absurd heof h.open_
  have hstart := textStart_le (endsDash c) t
  refine ⟨_, reply, ?_, hands, h.stripBefore, ?_, rfl, ?_⟩
  · rw [templateReader_text h.inExpr hfind hmark]
    exact hrun
  · refine ⟨⟨?_, ?_, ?_, ?_⟩, rfl, ?_, ?_⟩
    · simpa using h.file
    · simp [Nat.add_assoc]
    · exact Nat.add_le_add_left hstart _
    · have hcur : pre.length + t.length ≤ p.size := by omega
      exact hcur
    · simp
    · simp [cur]
  · have hcontent : slice p.file (pre.length + textStart (endsDash c) t)
        (pre.length + t.length - (pre.length + textStart (endsDash c) t)) =
          lstripIf (endsDash c) t := by
      rw [h.file, slice_between, drop_textStart]
    exact hcontent

theorem reader_atEnd (lmoTranslate : List U8 → Translation)
    (hoff : p.off = p.size) (hexpr : p.inExpr = false)
    (hle : p.cur.s ≤ p.cur.e) (hin : p.cur.e ≤ p.size)
    (heof : p.cur.type = .eof → p.cur.s = p.cur.e) :
    ∃ q reply, p.templateReader lmoTranslate = some (q, reply) ∧ HandsOut p q reply ∧
      q.stripBefore = p.stripBefore ∧ q.off = q.size ∧ q.inExpr = false ∧
      q.cur = ⟨q.size, q.size, .eof, p.line⟩ := by
  have hfind : strfind p.file [0x3c, 0x25] (p.size - p.off) p.off = some none := by
    rw [hoff, Nat.sub_self]
    rfl
  have hmark : { p with prv := p.cur }.templateText p.size =
      some { p with prv := p.cur, cur := ⟨p.size, p.size, .eof, p.line⟩ } := by
    have hpast : ¬ p.off < p.size := by omega
    refine (if_neg hpast).trans ?_
    rw [hoff]
  obtain ⟨prv, line, reply, hrun, hands⟩ := exists_handsOut lmoTranslate (p := p)
    (q := { p with prv := p.cur, cur := ⟨p.size, p.size, .eof, p.line⟩, off := p.size })
    rfl rfl hle hin heof
  refine ⟨_, reply, ?_, hands, rfl, rfl, hexpr, rfl⟩
  rw [templateReader_rest hexpr hfind hmark]
  exact hrun

theorem strfind_rest (h : BeforeText p pre t c) (ht : Without 0x3c 0x25 t) :
    strfind p.file [0x3c, 0x25] (p.size - p.off) p.off = some none := by
  have hrem : p.size - p.off = t.length := by
    rw [Parser.size, h.file, h.off, List.length_append]
    omega
  rw [hrem, h.file, h.off]
  exact strfind_miss ht

theorem reader_rest (lmoTranslate : List U8 → Translation)
    (h : BeforeText p pre t c) (ht : Without 0x3c 0x25 t) (hne : t ≠ [])
    (hover : ¬ (endsDash c = true ∧ ∀ d ∈ t, isspace d = true)) :
    ∃ q reply, p.templateReader lmoTranslate = some (q, reply) ∧ HandsOut p q reply ∧
      q.stripBefore = beginsDash c ∧ BeforeText q (pre ++ t) [] c ∧
      q.cur.type = .text ∧ q.content q.cur = lstripIf (endsDash c) t := by
  have hsize : p.size = pre.length + t.length := by
    rw [Parser.size, h.file, List.length_append]
  have hskip : (if p.stripAfter then skip p.file isspace p.off p.size
      else some p.off) = some (pre.length + textStart (endsDash c) t) := by
    rw [h.stripAfter, h.off, hsize, h.file]
    unfold textStart
    split
    · rename_i hends
      rw [skip]
      exact skipFrom_end (fun hall => hover ⟨hends, hall⟩) (by omega)
    · rfl
  let cur : Chunk := ⟨pre.length + textStart (endsDash c) t, p.size, .text, p.line⟩
  have hmark : { p with prv := p.cur }.templateText p.size =
      some { p with prv := p.cur, cur := cur } := by
    have hpos := List.length_pos_iff.mpr hne
    have hoff : p.off < p.size := by
      rw [h.off, hsize]
      omega
    have hmark' : (if p.stripAfter then skip p.file isspace p.off p.size
        else some p.off).map (fun s => { p with
          prv := p.cur, cur := ⟨s, p.size, .text, p.line⟩ }) =
          some { p with prv := p.cur, cur := cur } := by
      rw [hskip]
      rfl
    exact (if_pos hoff).trans hmark'
  obtain ⟨prv, line, reply, hrun, hands⟩ := exists_handsOut lmoTranslate (p := p)
    (q := { p with prv := p.cur, cur := cur, off := p.size })
    rfl rfl h.cur_le h.cur_in fun heof => absurd heof h.open_
  have hstart := textStart_le (endsDash c) t
  refine ⟨_, reply, ?_, hands, h.stripBefore, ?_, rfl, ?_⟩
  · rw [templateReader_rest h.inExpr (strfind_rest h ht) hmark]
    exact hrun
  · refine ⟨⟨?_, ?_, ?_, Nat.le_refl p.size⟩, h.inExpr, h.stripBefore, h.stripAfter, ?_⟩
    · simpa using h.file
    · simpa using hsize
    · have hcur : pre.length + textStart (endsDash c) t ≤ p.size := by omega
      exact hcur
    · simp [cur]
  · have hcontent : slice p.file (pre.length + textStart (endsDash c) t)
        (p.size - (pre.length + textStart (endsDash c) t)) = lstripIf (endsDash c) t := by
      have hbetween := slice_between pre t [] (textStart (endsDash c) t)
      rw [List.append_nil] at hbetween
      rw [h.file, hsize, hbetween, drop_textStart]
    exact hcontent

/-- The skipping of white space at the end of the file reads the byte behind it. -/
theorem reader_overruns (h : BeforeText p pre t c) (ht : Without 0x3c 0x25 t) (hne : t ≠ [])
    (hends : endsDash c = true) (hall : ∀ d ∈ t, isspace d = true) :
    p.templateReader lmoTranslate = none := by
  have hsize : p.size = pre.length + t.length := by
    rw [Parser.size, h.file, List.length_append]
  have hpos := List.length_pos_iff.mpr hne
  have hoff : p.off < p.size := by
    rw [h.off, hsize]
    omega
  have hskip : (if p.stripAfter then skip p.file isspace p.off p.size else some p.off) = none := by
    rw [if_pos (h.stripAfter.trans hends), h.off, hsize, h.file, skip]
    exact skipFrom_overruns hall (by omega)
  have hmark : { p with prv := p.cur }.templateText p.size = none := by
    have hmark' : (if p.stripAfter then skip p.file isspace p.off p.size
        else some p.off).map (fun s => { p with
          prv := p.cur, cur := ⟨s, p.size, .text, p.line⟩ }) = none := by
      rw [hskip]
      rfl
    exact (if_pos hoff).trans hmark'
  have hout : ¬ p.inExpr = true := by simp [h.inExpr]
  refine (if_neg hout).trans ?_
  refine (congrArg (Option.bind · _) (strfind_rest h ht)).trans ?_
  exact congrArg (Option.bind · _) hmark

theorem getElem?_at (pre r : List U8) (k : Nat) : (pre ++ r)[pre.length + k]? = r[k]? := by
  rw [List.getElem?_append_right (by omega), Nat.add_sub_cancel_left]

theorem last_read (c post : List U8) (hmarker : pre.getLast? = some 0x25) :
    ∃ last, (pre ++ (c ++ post))[pre.length + c.length - 1]? = some last ∧
      decide (last = 0x2d) = endsDash c := by
  rcases List.eq_nil_or_concat c with rfl | ⟨c, d, rfl⟩
  · obtain ⟨pre, rfl⟩ := List.getLast?_eq_some_iff.mp hmarker
    exact ⟨0x25, by simp, rfl⟩
  · have hindex : pre.length + (c.concat d).length - 1 = pre.length + c.length := by simp
    rw [hindex, getElem?_at]
    exact ⟨d, by simp, by simp [endsDash]⟩

theorem templateCode_eq {d : U8} (hfile : p.file = pre ++ (c ++ post)) (hoff : p.off = pre.length)
    (hmarker : pre.getLast? = some 0x25) (hpost : c = [] → post.head? = some 0x25)
    (hskip : beginsDash c = true → skip p.file isblank (p.off + 1) (pre.length + c.length) =
      some (pre.length + tagStart c))
    (hd : (c ++ post)[tagStart c]? = some d) :
    p.templateCode (pre.length + c.length) = some { p with
      stripBefore := beginsDash c
      stripAfter := endsDash c
      cur := ⟨pre.length + tagStart c + (Parser.tagType d).2, pre.length + tagEnd c,
        (Parser.tagType d).1, p.line⟩ } := by
  obtain ⟨first, hfirst, hbegins⟩ : ∃ first, p.file[p.off]? = some first ∧
      decide (first = 0x2d) = beginsDash c := by
    rw [hfile, hoff]
    cases c with
    | nil =>
      obtain ⟨r, rfl⟩ := List.head?_eq_some_iff.mp (hpost rfl)
      exact ⟨0x25, by simp, rfl⟩
    | cons x r => exact ⟨x, by simp, by simp [beginsDash]⟩
  obtain ⟨last, hlast, hends⟩ := last_read c post hmarker
  have hstart : (if first = 0x2d then skip p.file isblank (p.off + 1) (pre.length + c.length)
      else some p.off) = some (pre.length + tagStart c) := by
    by_cases hdash : first = 0x2d
    · rw [if_pos hdash]
      exact hskip (by simpa [hdash] using hbegins.symm)
    · have hnot : beginsDash c = false := hbegins.symm.trans (decide_eq_false hdash)
      rw [if_neg hdash, hoff, tagStart, hnot]
      rfl
  have hend : (if last = 0x2d then
      skipBack p.file isblank (pre.length + tagStart c) (pre.length + c.length - 1)
      else some (pre.length + c.length)) = some (pre.length + tagEnd c) := by
    by_cases hdash : last = 0x2d
    · have hyes : endsDash c = true := by simpa [hdash] using hends.symm
      obtain ⟨r, rfl⟩ := endsDash_iff.mp hyes
      have hback : skipBack p.file isblank (pre.length + tagStart (r ++ [0x2d]))
          (pre.length + (r ++ [0x2d]).length - 1) =
            some (pre.length + (r ++ [0x2d]).length - 1) := by
        rw [hfile]
        exact skipBack_at hlast (by rw [hdash]; decide)
      rw [if_pos hdash, hback, tagEnd, hyes]
      simp
    · have hnot : endsDash c = false := hends.symm.trans (decide_eq_false hdash)
      rw [if_neg hdash, tagEnd, hnot]
      rfl
  have htype : p.file[pre.length + tagStart c]? = some d := by
    rw [hfile, getElem?_at, hd]
  rw [← hfile] at hlast
  simp only [Parser.templateCode, hfirst, hlast, hstart, hend, htype, hbegins, hends,
    Option.bind_eq_bind, Option.bind_some]

theorem templateReader_tag {q : Parser} {tag : Nat} (hexpr : p.inExpr = true)
    (hfind : strfind p.file [0x25, 0x3e] (p.size - p.off) p.off = some (some tag))
    (hmark : { p with prv := p.cur }.templateCode tag = some q) :
    p.templateReader lmoTranslate =
      { q with off := tag + 2, inExpr := false }.templateFormatChunk lmoTranslate := by
  refine (if_pos hexpr).trans ?_
  refine (congrArg (Option.bind · _) hfind).trans ?_
  exact congrArg (Option.bind · _) hmark

theorem templateReader_unclosed (lmoTranslate : List U8 → Translation) (hexpr : p.inExpr = true)
    (hfind : strfind p.file [0x25, 0x3e] (p.size - p.off) p.off = some none) :
    p.templateReader lmoTranslate =
      ({ p with prv := p.cur }.templateCode p.size).bind fun q => some (q, .unexpectedEof) := by
  refine (if_pos hexpr).trans ?_
  exact congrArg (Option.bind · _) hfind

theorem reader_tag (lmoTranslate : List U8 → Translation)
    (h : BeforeTag p pre (c ++ 0x25 :: 0x3e :: post)) (hc : Without 0x25 0x3e c) :
    ∃ q reply, p.templateReader lmoTranslate = some (q, reply) ∧ HandsOut p q reply ∧
      q.stripBefore = beginsDash c ∧ q.cur.type ≠ .text ∧ (q.cur.s ≤ q.cur.e ↔ c ≠ [0x2d]) ∧
      q.cur.e ≤ p.size ∧
      (c ≠ [0x2d] → BeforeText q (pre ++ c ++ [0x25, 0x3e]) post c) := by
  have hsize : p.size = pre.length + (c.length + (post.length + 2)) := by
    rw [Parser.size, h.file]
    simp [Nat.add_assoc]
  have hfind : strfind p.file [0x25, 0x3e] (p.size - p.off) p.off =
      some (some (pre.length + c.length)) := by
    have hrem : p.size - p.off = (c ++ 0x25 :: 0x3e :: post).length := by
      rw [hsize, h.off]
      simp
    rw [hrem, h.file, h.off]
    exact strfind_hit (by decide) hc
  have hskip : beginsDash c = true → skip p.file isblank (p.off + 1) (pre.length + c.length) =
      some (pre.length + tagStart c) := by
    intro hbegins
    obtain ⟨r, rfl⟩ := beginsDash_iff.mp hbegins
    have hover : skipFrom ((pre ++ [0x2d]) ++ (r ++ 0x25 :: 0x3e :: post)) isblank (r.length + 1)
        (pre ++ [0x2d]).length = some ((pre ++ [0x2d]).length + (r.takeWhile isblank).length) :=
      skipFrom_over (by decide) (by omega)
    rw [h.file, h.off, skip, tagStart, if_pos hbegins]
    simp only [List.length_append, List.length_cons, List.length_nil, List.append_assoc,
      List.cons_append, List.nil_append, List.tail_cons] at hover ⊢
    rw [show pre.length + (r.length + 1) + 1 - (pre.length + 1) = r.length + 1 by omega, hover,
      Nat.add_assoc]
  have hstart : tagStart c < (c ++ 0x25 :: 0x3e :: post).length := by
    have hle := tagStart_le c
    simp only [List.length_append, List.length_cons]
    omega
  obtain ⟨d, hd⟩ : ∃ d, (c ++ 0x25 :: 0x3e :: post)[tagStart c]? = some d :=
    ⟨_, List.getElem?_eq_getElem hstart⟩
  have hmark := templateCode_eq (p := { p with prv := p.cur }) h.file h.off h.marker
    (fun _ => rfl) hskip hd
  let cur : Chunk := ⟨pre.length + tagStart c + (Parser.tagType d).2, pre.length + tagEnd c,
    (Parser.tagType d).1, p.line⟩
  obtain ⟨prv, line, reply, hrun, hands⟩ := exists_handsOut lmoTranslate (p := p)
    (q := { p with
      prv := p.cur, stripBefore := beginsDash c, stripAfter := endsDash c, cur := cur
      off := pre.length + c.length + 2, inExpr := false })
    rfl rfl h.cur_le h.cur_in fun heof => absurd heof h.open_
  have hend : cur.e ≤ p.size := by
    have hle := tagEnd_le c
    simp only [cur]
    omega
  have hwithin : c ≠ [0x2d] → cur.s ≤ cur.e := by
    intro hne
    have hle := tag_within hne hd
    simp only [cur]
    omega
  refine ⟨_, reply, (templateReader_tag h.inExpr hfind hmark).trans hrun, hands, rfl,
    (tagType_other d).1, ⟨?_, hwithin⟩, hend, ?_⟩
  · rintro hle rfl
    have hcross : pre.length + tagStart [0x2d] + (Parser.tagType d).2 ≤
      pre.length + tagEnd [0x2d] := hle
    exact tag_crosses (d := d) (by omega)
  · intro hne
    refine ⟨⟨?_, ?_, hwithin hne, hend⟩, rfl, rfl, rfl, (tagType_other d).2⟩
    · simpa using h.file
    · simp [Nat.add_assoc]

/-- The file ends inside a tag of which no byte but a dash and blanks is there. -/
def Cut (c : List U8) : Prop := c = [] ∨ ∃ r, c = 0x2d :: r ∧ ∀ d ∈ r, isblank d = true

theorem strfind_unclosed (h : BeforeTag p pre c) (hc : Without 0x25 0x3e c) :
    strfind p.file [0x25, 0x3e] (p.size - p.off) p.off = some none := by
  have hrem : p.size - p.off = c.length := by
    rw [Parser.size, h.file, h.off, List.length_append]
    omega
  rw [hrem, h.file, h.off]
  exact strfind_miss hc

theorem reader_cut (h : BeforeTag p pre c) (hc : Without 0x25 0x3e c) (hcut : Cut c) :
    p.templateReader lmoTranslate = none := by
  have hmark : { p with prv := p.cur }.templateCode p.size = none := by
    rcases hcut with rfl | ⟨r, rfl, hblank⟩
    · have hfirst : p.file[p.off]? = none := by
        rw [h.file, h.off, List.append_nil]
        exact List.getElem?_eq_none (Nat.le_refl _)
      simp only [Parser.templateCode, hfirst]
      rfl
    · have hfirst : p.file[p.off]? = some 0x2d := by
        rw [h.file, h.off]
        exact getElem?_next pre r 0x2d
      have hskip : skip p.file isblank (p.off + 1) p.size = none := by
        have hover : skipFrom ((pre ++ [0x2d]) ++ r) isblank (r.length + 1)
            (pre ++ [0x2d]).length = none := skipFrom_overruns hblank (by omega)
        rw [skip, h.off, Parser.size, h.file]
        simp only [List.length_append, List.length_cons, List.length_nil, List.append_assoc,
          List.cons_append, List.nil_append] at hover ⊢
        rw [show pre.length + (r.length + 1) + 1 - (pre.length + 1) = r.length + 1 by omega]
        exact hover
      simp only [Parser.templateCode, hfirst, hskip, Option.bind_eq_bind, Option.bind_some,
        if_true]
      rfl
  rw [templateReader_unclosed lmoTranslate h.inExpr (strfind_unclosed h hc), hmark]
  rfl

theorem reader_unclosed (lmoTranslate : List U8 → Translation)
    (h : BeforeTag p pre c) (hc : Without 0x25 0x3e c) (hcut : ¬ Cut c) :
    ∃ q, p.templateReader lmoTranslate = some (q, .unexpectedEof) ∧
      q.cur.s ≤ q.cur.e ∧ q.cur.e ≤ p.size := by
  have hsize : p.size = pre.length + c.length := by
    rw [Parser.size, h.file, List.length_append]
  have hstart : tagStart c < c.length := by
    unfold tagStart
    split
    · obtain ⟨r, rfl⟩ := beginsDash_iff.mp ‹_›
      have hother : ∃ d ∈ r, isblank d = false := by
        by_contra hnone
        push Not at hnone
        exact hcut (.inr ⟨r, rfl, fun d hd => by simpa using hnone d hd⟩)
      obtain ⟨d, hd, hnot⟩ := hother
      have hlt := length_takeWhile_lt hd hnot
      simp only [List.tail_cons, List.length_cons]
      omega
    · exact List.length_pos_iff.mpr fun hnil => hcut (.inl hnil)
  have hne : c ≠ [] := fun hnil => hcut (.inl hnil)
  have hskip : beginsDash c = true → skip p.file isblank (p.off + 1) (pre.length + c.length) =
      some (pre.length + tagStart c) := by
    intro hbegins
    have hother : ¬ ∀ d ∈ c.tail, isblank d = true := by
      obtain ⟨r, rfl⟩ := beginsDash_iff.mp hbegins
      exact fun hall => hcut (.inr ⟨r, rfl, hall⟩)
    obtain ⟨r, rfl⟩ := beginsDash_iff.mp hbegins
    have hstop : skipFrom ((pre ++ [0x2d]) ++ r) isblank (r.length + 1) (pre ++ [0x2d]).length =
        some ((pre ++ [0x2d]).length + (r.takeWhile isblank).length) :=
      skipFrom_end hother (by omega)
    rw [h.file, h.off, skip, tagStart, if_pos hbegins]
    simp only [List.length_append, List.length_cons, List.length_nil, List.append_assoc,
      List.cons_append, List.nil_append, List.tail_cons] at hstop ⊢
    rw [show pre.length + (r.length + 1) + 1 - (pre.length + 1) = r.length + 1 by omega, hstop,
      Nat.add_assoc]
  obtain ⟨d, hd⟩ : ∃ d, (c)[tagStart c]? = some d := ⟨_, List.getElem?_eq_getElem hstart⟩
  have hfile : p.file = pre ++ (c ++ []) := by rw [List.append_nil]; exact h.file
  have hmark := templateCode_eq (p := { p with prv := p.cur }) hfile h.off h.marker
    (fun hnil => absurd hnil hne) hskip (by rw [List.append_nil]; exact hd)
  have hwithin := tag_within (c := c) (d := d) (r := [])
    (fun h' => hcut (.inr ⟨[], h', by simp⟩)) (by rw [List.getElem?_append_left hstart]; exact hd)
  have hend := tagEnd_le c
  rw [← hsize] at hmark
  have hrun := templateReader_unclosed lmoTranslate h.inExpr (strfind_unclosed h hc)
  rw [hmark] at hrun
  have hle : pre.length + tagStart c + (Parser.tagType d).2 ≤ pre.length + tagEnd c := by omega
  have hin : pre.length + tagEnd c ≤ p.size := by omega
  exact ⟨_, hrun, hle, hin⟩

end Reader

end OpenwrtMtk.Luci

/-!
## Where the template parser stays inside the file

Every call reads and marks inside the file unless the body of a tag is a lone dash, the file ends
inside a tag that has begun with no more than a dash and blanks, or nothing but white space follows a
tag that ends in a dash.
-/

namespace OpenwrtMtk.Luci

open Toolkit

set_option autoImplicit false

variable {lmoTranslate : List U8 → Translation}

/-- The chunk that the call marked lies in a file of `n` bytes. -/
def InFile (n : Nat) (x : Parser × Reply) : Prop := x.1.cur.s ≤ x.1.cur.e ∧ x.1.cur.e ≤ n

def Bounded (lmoTranslate : List U8 → Translation) (file : List U8) : Prop :=
  EveryPull (Parser.templateReader lmoTranslate) Reply.isLast (InFile file.length)
    (templateOpen file)

def Tail.Overruns (strip : Bool) : Tail → Prop
  | .text t => strip = true ∧ t ≠ [] ∧ ∀ d ∈ t, isspace d = true
  | .unclosed _ c => Cut c

section Calls

variable {p q : Parser} {reply : Reply} {pre t post c : List U8} {n : Nat}

theorem handsOut_more (hands : HandsOut p q reply) (hopen : p.cur.type ≠ .eof) :
    reply.isLast = false := by
  rw [hands.isLast]
  exact decide_eq_false hopen

theorem everyPull_atEnd (lmoTranslate : List U8 → Translation) (h : BeforeText p pre [] c)
    (hn : p.size = n) :
    EveryPull (Parser.templateReader lmoTranslate) Reply.isLast (InFile n) p := by
  have hoff : p.off = p.size := by
    rw [h.off, Parser.size, h.file, List.append_nil]
  obtain ⟨q, reply, hrun, hands, _, hqoff, hqexpr, hcur⟩ :=
    reader_atEnd lmoTranslate hoff h.inExpr h.cur_le h.cur_in fun heof => absurd heof h.open_
  have hsize : q.size = n := by rw [Parser.size, hands.file, ← hn, Parser.size]
  obtain ⟨q', reply', hrun', hands', _, _, _, hcur'⟩ :=
    reader_atEnd lmoTranslate hqoff hqexpr (by rw [hcur]) (by rw [hcur]) fun _ => by rw [hcur]
  have hsize' : q'.size = n := by rw [Parser.size, hands'.file, ← hsize, Parser.size]
  refine (everyPull_cons hrun (handsOut_more hands h.open_)).mpr ⟨?_, ?_⟩
  · simp [InFile, hcur, hsize]
  · refine (everyPull_last hrun' ?_).mpr ?_
    · rw [hands'.isLast, hcur]
      rfl
    · simp [InFile, hcur', hsize']

theorem everyPull_text (lmoTranslate : List U8 → Translation) (h : BeforeText p pre t c)
    (ht : Without 0x3c 0x25 t) (hn : p.size = n) :
    EveryPull (Parser.templateReader lmoTranslate) Reply.isLast (InFile n) p ↔
      ¬ (Tail.text t).Overruns (endsDash c) := by
  by_cases hne : t = []
  · subst hne
    exact iff_of_true (everyPull_atEnd lmoTranslate h hn) fun hover => hover.2.1 rfl
  · by_cases hover : endsDash c = true ∧ ∀ d ∈ t, isspace d = true
    · refine iff_of_false (not_everyPull ?_) (not_not_intro ⟨hover.1, hne, hover.2⟩)
      exact reader_overruns h ht hne hover.1 hover.2
    · obtain ⟨q, reply, hrun, hands, _, hbefore, _⟩ := reader_rest lmoTranslate h ht hne hover
      have hsize : q.size = n := by rw [Parser.size, hands.file, ← hn, Parser.size]
      refine iff_of_true ?_ fun hover' => hover ⟨hover'.1, hover'.2.2⟩
      refine (everyPull_cons hrun (handsOut_more hands h.open_)).mpr ⟨⟨hbefore.cur_le, ?_⟩, ?_⟩
      · rw [← hsize]
        exact hbefore.cur_in
      · exact everyPull_atEnd lmoTranslate hbefore hsize

theorem everyPull_unclosed (lmoTranslate : List U8 → Translation) (h : BeforeTag p pre c)
    (hc : Without 0x25 0x3e c) (hn : p.size = n) :
    EveryPull (Parser.templateReader lmoTranslate) Reply.isLast (InFile n) p ↔ ¬ Cut c := by
  by_cases hcut : Cut c
  · exact iff_of_false (not_everyPull (reader_cut h hc hcut)) (not_not_intro hcut)
  · obtain ⟨q, hrun, hle, hin⟩ := reader_unclosed lmoTranslate h hc hcut
    refine iff_of_true ((everyPull_last hrun rfl).mpr ⟨hle, ?_⟩) hcut
    rw [← hn]
    exact hin

theorem everyPull_beforeTag (lmoTranslate : List U8 → Translation)
    (h : BeforeText p pre (t ++ 0x3c :: 0x25 :: post) c) (ht : Without 0x3c 0x25 t)
    (hn : p.size = n) :
    ∃ q pre', BeforeTag q pre' post ∧ q.size = n ∧
      (EveryPull (Parser.templateReader lmoTranslate) Reply.isLast (InFile n) p ↔
        EveryPull (Parser.templateReader lmoTranslate) Reply.isLast (InFile n) q) := by
  obtain ⟨q, reply, hrun, hands, _, hbefore, _⟩ := reader_text lmoTranslate h ht
  have hsize : q.size = n := by rw [Parser.size, hands.file, ← hn, Parser.size]
  refine ⟨q, _, hbefore, hsize, ?_⟩
  rw [everyPull_cons hrun (handsOut_more hands h.open_)]
  refine and_iff_right ⟨hbefore.cur_le, ?_⟩
  rw [← hsize]
  exact hbefore.cur_in

theorem everyPull_spell (lmoTranslate : List U8 → Translation) {ps : List Piece} {tail : Tail}
    (h : BeforeText p pre (spell ps tail.bytes) c) (hps : ∀ p ∈ ps, p.Clean) (htail : tail.Clean)
    (hn : p.size = n) :
    EveryPull (Parser.templateReader lmoTranslate) Reply.isLast (InFile n) p ↔
      (∀ p ∈ ps, p.tag ≠ [0x2d]) ∧ ¬ tail.Overruns (endsDash (lastTag c ps)) := by
  induction ps generalizing p pre c with
  | nil =>
    simp only [List.not_mem_nil, false_implies, implies_true, true_and]
    cases tail with
    | text t => exact everyPull_text lmoTranslate h htail hn
    | unclosed t c' =>
      obtain ⟨q, pre', hbefore, hsize, hiff⟩ := everyPull_beforeTag lmoTranslate h htail.1 hn
      rw [hiff]
      exact everyPull_unclosed lmoTranslate hbefore htail.2 hsize
  | cons x ps ih =>
    obtain ⟨hx, hps⟩ := List.forall_mem_cons.mp hps
    obtain ⟨q, pre', hbefore, hsize, hiff⟩ := everyPull_beforeTag lmoTranslate h hx.1 hn
    obtain ⟨q', reply, hrun, hands, _, _, hle, hin, hnext⟩ :=
      reader_tag lmoTranslate hbefore hx.2
    have hsize' : q'.size = n := by rw [Parser.size, hands.file, ← hsize, Parser.size]
    rw [hiff, everyPull_cons hrun (handsOut_more hands hbefore.open_), List.forall_mem_cons]
    by_cases hdash : x.tag = [0x2d]
    · exact iff_of_false (fun hall => hle.mp hall.1.1 hdash) fun hall => hall.1.1 hdash
    · have hin' : InFile n (q', reply) := ⟨hle.mpr hdash, hsize ▸ hin⟩
      rw [ih (hnext hdash) hps hsize', lastTag]
      exact ⟨fun hall => ⟨⟨hdash, hall.2.1⟩, hall.2.2⟩, fun hall => ⟨hin', hall.1.2, hall.2⟩⟩

end Calls

theorem templateOpen_before (file : List U8) : BeforeText (templateOpen file) [] file [] where
  file := rfl
  off := rfl
  cur_le := Nat.le_refl 0
  cur_in := Nat.zero_le _
  inExpr := rfl
  stripBefore := rfl
  stripAfter := rfl
  open_ := by simp [templateOpen]

/-- The files of which no byte outside is read or marked. -/
theorem bounded_iff (lmoTranslate : List U8 → Translation) (file : List U8) :
    Bounded lmoTranslate file ↔
      ∃ (ps : List Piece) (tail : Tail), (∀ p ∈ ps, p.Clean) ∧ tail.Clean ∧
        spell ps tail.bytes = file ∧
        (∀ p ∈ ps, p.tag ≠ [0x2d]) ∧ ¬ tail.Overruns (endsDash (lastTag [] ps)) := by
  have hall : ∀ (ps : List Piece) (tail : Tail), (∀ p ∈ ps, p.Clean) → tail.Clean →
      spell ps tail.bytes = file → (Bounded lmoTranslate file ↔
        (∀ p ∈ ps, p.tag ≠ [0x2d]) ∧ ¬ tail.Overruns (endsDash (lastTag [] ps))) := by
    intro ps tail hps htail hfile
    have hopen : BeforeText (templateOpen file) [] (spell ps tail.bytes) [] := by
      rw [hfile]
      exact templateOpen_before file
    exact everyPull_spell lmoTranslate hopen hps htail rfl
  constructor
  · intro hbounded
    obtain ⟨ps, tail, hps, htail, hfile⟩ := exists_pieces file
    exact ⟨ps, tail, hps, htail, hfile, (hall ps tail hps htail hfile).mp hbounded⟩
  · rintro ⟨ps, tail, hps, htail, hfile, hsound⟩
    exact (hall ps tail hps htail hfile).mpr hsound

/-- `<%a-%>` and a blank: the skipping of white space reads the byte after the blank. -/
theorem trailing_blank_unbounded :
    ¬ Bounded (fun _ => .noCatalog) [0x3c, 0x25, 0x61, 0x2d, 0x25, 0x3e, 0x20] := by
  intro hbounded
  obtain ⟨xs, hxs, _⟩ := hbounded 3
  cases hxs

end OpenwrtMtk.Luci
