import OpenwrtMtk.Luci.TemplateCalls

/-!
# Which texts the template parser hands out

Between two tags a text is handed out as the template says, one call late and under the flags of the
tags on its two sides. Behind the last tag the flag of that tag is still set when the text is formatted,
so a dash at the beginning of the last tag takes the white space at the end of the file.
-/

namespace OpenwrtMtk.Luci

open Toolkit

set_option autoImplicit false

/-- The texts as the template says, where `c` is the tag before them. -/
def literal (c : List U8) : List Piece → List U8 → List (List U8)
  | [], t => if t = [] then [] else [lstripIf (endsDash c) t]
  | p :: ps, t =>
    rstripIf (beginsDash p.tag) (lstripIf (endsDash c) p.text) :: literal p.tag ps t

def handedOut (c : List U8) : List Piece → List U8 → List (List U8)
  | [], t => if t = [] then [] else [rstripIf (beginsDash c) (lstripIf (endsDash c) t)]
  | p :: ps, t =>
    rstripIf (beginsDash p.tag) (lstripIf (endsDash c) p.text) :: handedOut p.tag ps t

def formattedTexts (xs : List (Parser × Reply)) : List (List U8 × Reply) :=
  xs.filterMap fun x =>
    if x.1.prv.type = .text then some (x.1.content x.1.prv, x.2) else none

def Reproduces (lmoTranslate : List U8 → Translation) (p : Parser) (texts : List (List U8)) : Prop :=
  ∃ xs, PullsAll (Parser.templateReader lmoTranslate) Reply.isLast p xs ∧
    formattedTexts xs = texts.map fun t => (t, Reply.chunk (textCode t))

def KeepsLast (c t : List U8) : Prop :=
  t = [] ∨
    (endsDash c = true → ∃ d ∈ t, isspace d = false) ∧
      (beginsDash c = true → ∀ d, t.getLast? = some d → isspace d = false)

section Calls

variable {lmoTranslate : List U8 → Translation} {p q : Parser} {reply : Reply}
  {pre t post c : List U8} {texts : List (List U8)}

theorem reproduces_skip (hrun : p.templateReader lmoTranslate = some (q, reply))
    (hands : HandsOut p q reply) (hopen : p.cur.type ≠ .eof) (htype : p.cur.type ≠ .text) :
    Reproduces lmoTranslate p texts ↔ Reproduces lmoTranslate q texts := by
  have hlast := handsOut_more hands hopen
  have hprv : q.prv.type ≠ .text := by rw [hands.type]; exact htype
  constructor
  · rintro ⟨xs, hall, htexts⟩
    obtain ⟨ys, rfl, hrest⟩ := (pullsAll_cons hrun hlast).mp hall
    refine ⟨ys, hrest, ?_⟩
    simpa [formattedTexts, hprv] using htexts
  · rintro ⟨ys, hrest, htexts⟩
    refine ⟨(q, reply) :: ys, .cons hrun hlast hrest, ?_⟩
    simpa [formattedTexts, hprv] using htexts

theorem reproduces_text (hrun : p.templateReader lmoTranslate = some (q, reply))
    (hands : HandsOut p q reply) (htype : p.cur.type = .text) :
    Reproduces lmoTranslate p texts ↔
      ∃ rest, texts = rstripIf q.stripBefore (p.content p.cur) :: rest ∧
        Reproduces lmoTranslate q rest := by
  have hlast : reply.isLast = false := handsOut_more hands (by rw [htype]; decide)
  have hprv : q.prv.type = .text := by rw [hands.type, htype]
  obtain ⟨hcontent, rfl⟩ := hands.text htype
  constructor
  · rintro ⟨xs, hall, htexts⟩
    obtain ⟨ys, rfl, hrest⟩ := (pullsAll_cons hrun hlast).mp hall
    cases texts with
    | nil => simp [formattedTexts, hprv] at htexts
    | cons t rest =>
      have hboth : (q.content q.prv = t ∧ textCode (q.content q.prv) = textCode t) ∧
          formattedTexts ys = rest.map fun t => (t, Reply.chunk (textCode t)) := by
        simpa [formattedTexts, hprv] using htexts
      exact ⟨rest, by rw [← hcontent, hboth.1.1], ys, hrest, hboth.2⟩
  · rintro ⟨rest, rfl, ys, hrest, htexts⟩
    refine ⟨_, .cons hrun hlast hrest, ?_⟩
    have hys : List.filterMap (fun x : Parser × Reply =>
        if x.1.prv.type = .text then some (x.1.content x.1.prv, x.2) else none) ys =
          rest.map fun t => (t, Reply.chunk (textCode t)) := htexts
    simp [formattedTexts, hprv, hcontent, hys]

theorem reproduces_null (hoff : p.off = p.size) (hexpr : p.inExpr = false) {line : Nat}
    (hcur : p.cur = ⟨p.size, p.size, .eof, line⟩) :
    Reproduces lmoTranslate p texts ↔ texts = [] := by
  obtain ⟨q, reply, hrun, hands, _⟩ := reader_atEnd lmoTranslate hoff hexpr (by rw [hcur])
    (by rw [hcur]) fun _ => by rw [hcur]
  have hlast : reply.isLast = true := by
    rw [hands.isLast, hcur]
    rfl
  have hprv : q.prv.type = .eof := by rw [hands.type, hcur]
  constructor
  · rintro ⟨xs, hall, htexts⟩
    obtain rfl := (pullsAll_last hrun hlast).mp hall
    simpa [formattedTexts, hprv] using htexts
  · rintro rfl
    exact ⟨_, .last hrun hlast, by simp [formattedTexts, hprv]⟩

theorem reproduces_end (h : BeforeText p pre [] c) (htype : p.cur.type ≠ .text) :
    Reproduces lmoTranslate p texts ↔ texts = [] := by
  have hoff : p.off = p.size := by
    rw [h.off, Parser.size, h.file, List.append_nil]
  obtain ⟨q, reply, hrun, hands, _, hqoff, hqexpr, hcur⟩ :=
    reader_atEnd lmoTranslate hoff h.inExpr h.cur_le h.cur_in fun heof => absurd heof h.open_
  rw [reproduces_skip hrun hands h.open_ htype]
  exact reproduces_null hqoff hqexpr hcur

theorem reproduces_last (h : BeforeText p pre [] c) (htype : p.cur.type = .text) :
    Reproduces lmoTranslate p texts ↔
      texts = [rstripIf (beginsDash c) (p.content p.cur)] := by
  have hoff : p.off = p.size := by
    rw [h.off, Parser.size, h.file, List.append_nil]
  obtain ⟨q, reply, hrun, hands, hstrip, hqoff, hqexpr, hcur⟩ :=
    reader_atEnd lmoTranslate hoff h.inExpr h.cur_le h.cur_in fun heof => absurd heof h.open_
  rw [reproduces_text hrun hands htype, hstrip, h.stripBefore]
  constructor
  · rintro ⟨rest, rfl, hrest⟩
    rw [(reproduces_null hqoff hqexpr hcur).mp hrest]
  · rintro rfl
    exact ⟨[], rfl, (reproduces_null hqoff hqexpr hcur).mpr rfl⟩

theorem reproduces_rest (h : BeforeText p pre t c) (ht : Without 0x3c 0x25 t)
    (htype : p.cur.type ≠ .text) :
    Reproduces lmoTranslate p texts ↔
      texts = handedOut c [] t ∧ ¬ (Tail.text t).Overruns (endsDash c) := by
  by_cases hne : t = []
  · subst hne
    rw [reproduces_end h htype]
    exact ⟨fun h' => ⟨h', fun hover => hover.2.1 rfl⟩, fun h' => h'.1⟩
  · by_cases hover : endsDash c = true ∧ ∀ d ∈ t, isspace d = true
    · refine iff_of_false ?_ fun h' => h'.2 ⟨hover.1, hne, hover.2⟩
      rintro ⟨xs, hall, _⟩
      exact not_pullsAll (reader_overruns h ht hne hover.1 hover.2) hall
    · obtain ⟨q, reply, hrun, hands, _, hbefore, hcur, hcontent⟩ :=
        reader_rest lmoTranslate h ht hne hover
      rw [reproduces_skip hrun hands h.open_ htype, reproduces_last hbefore hcur, hcontent,
        handedOut, if_neg hne]
      exact ⟨fun h' => ⟨h', fun hover' => hover ⟨hover'.1, hover'.2.2⟩⟩, fun h' => h'.1⟩

/-- The texts handed out, by induction on the tags. -/
theorem reproduces_iff {ps : List Piece} (h : BeforeText p pre (spell ps t) c)
    (hps : ∀ p ∈ ps, p.Clean) (ht : Without 0x3c 0x25 t) (hdash : ∀ p ∈ ps, p.tag ≠ [0x2d])
    (htype : p.cur.type ≠ .text) :
    Reproduces lmoTranslate p texts ↔
      texts = handedOut c ps t ∧ ¬ (Tail.text t).Overruns (endsDash (lastTag c ps)) := by
  induction ps generalizing p pre c texts with
  | nil => exact reproduces_rest h ht htype
  | cons x ps ih =>
    obtain ⟨hx, hps⟩ := List.forall_mem_cons.mp hps
    obtain ⟨hxdash, hdash⟩ := List.forall_mem_cons.mp hdash
    obtain ⟨q, reply, hrun, hands, _, hbefore, hcur, hcontent⟩ := reader_text lmoTranslate h hx.1
    obtain ⟨q', reply', hrun', hands', hstrip, htype', _, _, hnext⟩ :=
      reader_tag lmoTranslate hbefore hx.2
    rw [reproduces_skip hrun hands h.open_ htype, reproduces_text hrun' hands' hcur, hstrip,
      hcontent, handedOut, lastTag]
    constructor
    · rintro ⟨rest, rfl, hrest⟩
      obtain ⟨rfl, hover⟩ := (ih (hnext hxdash) hps hdash htype').mp hrest
      exact ⟨rfl, hover⟩
    · rintro ⟨rfl, hover⟩
      exact ⟨_, rfl, (ih (hnext hxdash) hps hdash htype').mpr ⟨rfl, hover⟩⟩

end Calls

section Last

variable {c t : List U8} {ps : List Piece}

theorem getLast?_lstripIf {strip : Bool} (hne : lstripIf strip t ≠ []) :
    (lstripIf strip t).getLast? = t.getLast? := by
  obtain ⟨front, hfront⟩ : ∃ front, front ++ lstripIf strip t = t := by
    unfold lstripIf
    split
    · exact List.dropWhile_suffix isspace
    · exact ⟨[], rfl⟩
  conv_rhs => rw [← hfront]
  rw [List.getLast?_append_of_ne_nil front hne]

theorem rstripIf_eq_self {strip : Bool} :
    rstripIf strip t = t ↔ (strip = true → ∀ d, t.getLast? = some d → isspace d = false) := by
  unfold rstripIf
  cases strip with
  | false => simp
  | true =>
    simp only [if_true, true_implies, List.rdropWhile_eq_self_iff]
    constructor
    · intro h d hd
      have hne : t ≠ [] := by
        rintro rfl
        cases hd
      rw [List.getLast?_eq_some_getLast hne] at hd
      obtain rfl := Option.some.inj hd
      simpa using h hne
    · intro h hne
      simpa using h _ (List.getLast?_eq_some_getLast hne)

theorem lstripIf_ne_nil {strip : Bool} (hne : t ≠ [])
    (hover : strip = true → ∃ d ∈ t, isspace d = false) : lstripIf strip t ≠ [] := by
  unfold lstripIf
  split
  · rename_i hstrip
    obtain ⟨d, hd, hnot⟩ := hover hstrip
    intro hnil
    have hspace := List.dropWhile_eq_nil_iff.mp hnil d hd
    rw [hspace] at hnot
    cases hnot
  · exact hne

theorem literal_eq_handedOut :
    literal c ps t = handedOut c ps t ↔
      t = [] ∨ rstripIf (beginsDash (lastTag c ps)) (lstripIf (endsDash (lastTag c ps)) t) =
        lstripIf (endsDash (lastTag c ps)) t := by
  induction ps generalizing c with
  | nil =>
    by_cases hne : t = []
    · simp [literal, handedOut, hne]
    · simp [literal, handedOut, lastTag, hne, eq_comm]
  | cons p ps ih => simp [literal, handedOut, lastTag, ih]

theorem keepsLast_iff :
    KeepsLast c t ↔
      (t = [] ∨ rstripIf (beginsDash c) (lstripIf (endsDash c) t) = lstripIf (endsDash c) t) ∧
        ¬ (Tail.text t).Overruns (endsDash c) := by
  unfold KeepsLast Tail.Overruns
  by_cases hne : t = []
  · simp [hne]
  · have hover : (endsDash c = true → ∃ d ∈ t, isspace d = false) ↔
        ¬ (endsDash c = true ∧ t ≠ [] ∧ ∀ d ∈ t, isspace d = true) := by
      simp [hne]
    simp only [hne, false_or]
    rw [← hover, and_comm]
    refine and_congr_left fun hsome => ?_
    have hlast := getLast?_lstripIf (lstripIf_ne_nil hne hsome)
    rw [rstripIf_eq_self, hlast]

end Last

/-- The texts of a template are handed out as it says if and only if its last text is one that the flags
left over from the last tag do not touch. -/
theorem literal_text_iff (lmoTranslate : List U8 → Translation) (ps : List Piece) (t : List U8)
    (hps : ∀ p ∈ ps, p.Clean) (ht : Without 0x3c 0x25 t) (hdash : ∀ p ∈ ps, p.tag ≠ [0x2d]) :
    Reproduces lmoTranslate (templateOpen (spell ps t)) (literal [] ps t) ↔
      KeepsLast (lastTag [] ps) t := by
  rw [reproduces_iff (templateOpen_before _) hps ht hdash (by simp [templateOpen]),
    literal_eq_handedOut, keepsLast_iff]

/-- `<%-abc%>`, alone. -/
def dashedTag : List Piece := [⟨[], latin "-abc"⟩]

theorem dashedTag_clean : ∀ p ∈ dashedTag, p.Clean := by
  intro p hp
  obtain rfl := List.mem_singleton.mp hp
  constructor
  · unfold Without
    decide
  · unfold Without
    decide

theorem literal_text_example :
    Reproduces (fun _ => .noCatalog) (templateOpen (spell dashedTag (latin " x")))
      [[], latin " x"] := by
  have ht : Without 0x3c 0x25 (latin " x") := by
    unfold Without
    decide
  have hlast : (latin " x").getLast? = some 0x78 := by decide
  have hkeeps : KeepsLast (lastTag [] dashedTag) (latin " x") := by
    refine .inr ⟨by decide, fun _ d hd => ?_⟩
    obtain rfl := Option.some.inj (hlast.symm.trans hd)
    decide
  exact (literal_text_iff (fun _ => .noCatalog) dashedTag (latin " x") dashedTag_clean ht
    (by decide)).mpr hkeeps

/-- `<%-abc%>x` and a blank: the blank is lost though no tag follows it. -/
theorem last_blank_lost :
    ¬ Reproduces (fun _ => .noCatalog) (templateOpen (spell dashedTag (latin "x ")))
      (literal [] dashedTag (latin "x ")) := by
  have ht : Without 0x3c 0x25 (latin "x ") := by
    unfold Without
    decide
  rw [reproduces_iff (templateOpen_before _) dashedTag_clean ht (by decide)
    (by simp [templateOpen])]
  exact fun h => absurd h.1 (by decide)

end OpenwrtMtk.Luci
