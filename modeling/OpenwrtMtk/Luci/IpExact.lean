import OpenwrtMtk.Luci.IpForms

/-!
# Which texts are addresses

The readings of `IPv6` that do not deviate are the text forms that are not refused, and `IPv4` reads
dotted quads and nothing else. So the parsers return objects for addresses and for nothing else, but
for the texts that this module names.
-/

namespace OpenwrtMtk.Luci.Ip

open Toolkit

set_option autoImplicit false

section Tails

variable {R : Reals} {n : Nat} {chunk : List U8} {us : List Nat} {xs : List Rat}

theorem LastPiece.lengths (h : LastPiece chunk us) :
    us.length = 0 ∧ chunk = [] ∨ us.length = 1 ∧ chunk.length ≤ 4 ∨ us.length = 2 := by
  cases h with
  | none => exact Or.inl ⟨rfl, rfl⟩
  | hextet h => exact Or.inr (Or.inl ⟨rfl, h.2.1⟩)
  | quad h => exact Or.inr (Or.inr h.length_ge.2)

theorem LastPiece.nil (h : LastPiece [] us) : us = [] := by
  cases h with
  | none => rfl
  | hextet h => exact absurd rfl h.1
  | quad h => exact absurd h.length_ge.1 (by decide)

theorem LastPiece.tail (h : LastPiece chunk us) (hfits : chunk.length ≤ 15)
    (hn : n + us.length ≤ 8) : Tail R n chunk (rats us) := by
  cases h with
  | none => exact .none
  | hextet h => exact .group h.2.1 h.read
  | quad h =>
    obtain ⟨hlong, htwo⟩ := h.length_ge
    exact .quad (by omega) hfits (by omega) h.cut

theorem LastPiece.tail_eq (h : LastPiece chunk us) (htail : Tail R n chunk xs) :
    xs = rats us := by
  cases h with
  | none =>
    cases htail with
    | none => rfl
    | group _ hread =>
      rw [group16_nil] at hread
      cases hread
    | quad hlong => exact absurd hlong (by decide)
  | hextet h =>
    cases htail with
    | none => exact absurd rfl h.1
    | group _ hread =>
      rw [h.value hread]
      rfl
    | quad hlong => exact absurd h.2.1 (Nat.not_le.mpr hlong)
  | quad h =>
    have hlong := h.length_ge.1
    cases htail with
    | none => exact absurd hlong (by decide)
    | group hshort => omega
    | quad _ _ _ hquad => exact Option.some.inj (hquad.symm.trans h.cut)

theorem Tail.fits (h : Tail R n chunk xs) : chunk.length ≤ 15 := by
  cases h with
  | none => exact Nat.zero_le _
  | group hshort => omega
  | quad _ hfits => exact hfits

end Tails

section Proper

variable {R : Reals} {a : List U8} {ws : List Nat} {xs : List Rat} {p : Rat} {rd : Reading}
  {text : Option (List U8)} {l : Groups}

/-- A reading of the text forms. -/
structure Proper (rd : Reading) : Prop where
  left : AreHextets rd.left
  gap : ∀ g r, rd.gap = some (g, r) → g = []
  leading : rd.address.head? = some 0x3a → rd.gap ≠ none ∧ rd.left = []
  ending : ∃ us, Ending rd.right rd.chunk us

theorem proper_of_not_deviates (h : ¬Deviates rd) : Proper rd := by
  have hgroups : ∀ g ∈ rd.left ++ rd.right, Hextet g.1 g.2 := by
    intro g hg
    by_contra hnot
    exact h (.group hg hnot)
  have hright : AreHextets rd.right := fun g hg => hgroups g (List.mem_append_right _ hg)
  have htrailing : rd.chunk = [] → rd.right = [] := by
    intro hnil
    by_contra hnot
    exact h (.trailingColon hnil hnot)
  refine ⟨fun g hg => hgroups g (List.mem_append_left _ hg), ?_, ?_, ?_⟩
  · intro g r hgap
    by_contra hnot
    exact h (.gap hgap hnot)
  · intro hhead
    by_contra hnot
    rw [not_and_or, not_not] at hnot
    exact h (.leadingColon hhead hnot)
  · by_cases hnil : rd.chunk = []
    · rw [hnil] at htrailing ⊢
      exact ⟨[], hright, .none, htrailing⟩
    · by_cases hgroup : ∃ v, Hextet rd.chunk v
      · obtain ⟨v, hv⟩ := hgroup
        exact ⟨[v], hright, .hextet hv, htrailing⟩
      · by_cases hquad : ∃ us, Quad rd.chunk us
        · obtain ⟨us, hus⟩ := hquad
          exact ⟨us, hright, .quad hus, htrailing⟩
        · exact absurd (.tail hnil (not_exists.mp hgroup) (not_exists.mp hquad)) h

theorem Proper.not_deviates (h : Proper rd) (hnumber : ∀ t, rd.text = some t → isNumber t = true) :
    ¬Deviates rd := by
  obtain ⟨us, hright, hlast, htrailing⟩ := h.ending
  intro hdev
  cases hdev with
  | prefixLength htext hnot =>
    rw [hnumber _ htext] at hnot
    cases hnot
  | group hg hnot =>
    rcases List.mem_append.mp hg with hg | hg
    · exact hnot (h.left _ hg)
    · exact hnot (hright _ hg)
  | gap hgap hnot => exact hnot (h.gap _ _ hgap)
  | leadingColon hhead hor =>
    obtain ⟨hgap, hl⟩ := h.leading hhead
    exact hor.elim hgap (fun hnot => hnot hl)
  | trailingColon hnil hnot => exact hnot (htrailing hnil)
  | tail hne hgroup hquad =>
    generalize rd.chunk = chunk at hlast hne hgroup hquad
    cases hlast with
    | none => exact hne rfl
    | hextet hv => exact hgroup _ hv
    | quad hus => exact hquad _ hus

theorem Proper.form (h : Proper rd) (hreads : Reads (bodyOf rd.address) rd.left rd.gap rd.chunk)
    (haccepted : Accepted R rd p xs) : ∃ ws, Form rd.address ws ∧ xs = rats ws := by
  obtain ⟨us, hending⟩ := h.ending
  obtain ⟨-, -, tail, htail, hcomplete, rfl⟩ := haccepted
  rw [hending.last.tail_eq htail, length_rats] at hcomplete ⊢
  obtain ⟨address, text, l, gap, chunk⟩ := rd
  dsimp only [Reading.right] at *
  generalize hbody : bodyOf address = body at hreads
  cases hreads with
  | plain hl hstop =>
    rw [Complete, if_neg (by decide), behind, List.length_nil, Nat.add_zero] at hcomplete
    have hhead : ¬address.head? = some 0x3a := fun hhead => (h.leading hhead).1 rfl
    rw [bodyOf, if_neg hhead] at hbody
    have hwhole : Ending l chunk us := by
      refine ⟨h.left, hending.last, ?_⟩
      rintro rfl
      have hle : l.length ≤ 7 := by
        rcases hstop with hstop | ⟨hstop, -⟩ <;> omega
      rw [hending.last.nil, List.length_nil] at hcomplete
      omega
    refine ⟨l.values ++ us, hbody ▸ Form.full hwhole hcomplete, ?_⟩
    rw [behind, List.length_nil, Nat.add_zero, hcomplete, rats_append]
    simp only [Nat.sub_self, List.replicate_zero, List.append_nil]
    rfl
  | @gap _ r g _ hl hless hg hshort hnone hr hstop =>
    rw [Complete, if_pos Option.isSome_some, behind, Nat.add_assoc] at hcomplete
    have hnil : g = [] := h.gap g r rfl
    subst hnil
    have haddress := opening_of_body hbody fun hhead => (h.leading hhead).2
    rw [haddress]
    refine ⟨_, Form.compressed h.left hending (Nat.le_of_lt_succ hcomplete), ?_⟩
    rw [rats_append, rats_append, rats_append, behind, Nat.add_assoc, rats, rats, rats, rats,
      List.map_replicate, Nat.cast_zero]

theorem text_concat (hne : l ≠ []) (x : List U8) :
    ∃ pre, l.text ++ x = pre ++ 0x3a :: x := by
  refine ⟨joined 0x3a (l.map Prod.fst), ?_⟩
  rw [joined_colon, opening, if_neg hne]

theorem rats_words (vs us : List Nat) (m : Nat) :
    rats (vs ++ List.replicate m 0 ++ us) = rats vs ++ List.replicate m 0 ++ rats us := by
  rw [rats_append, rats_append, rats, rats, rats, List.map_replicate, Nat.cast_zero]

theorem Ending.lengths {r : Groups} {chunk : List U8} {us : List Nat} (h : Ending r chunk us) :
    us.length = 0 ∧ chunk = [] ∧ r = [] ∨ us.length = 1 ∧ chunk.length ≤ 4 ∨ us.length = 2 := by
  rcases h.last.lengths with ⟨hzero, hnil⟩ | hone | htwo
  · exact Or.inl ⟨hzero, hnil, h.trailing hnil⟩
  · exact Or.inr (Or.inl hone)
  · exact Or.inr (Or.inr htwo)

theorem full_reading {r : Groups} {chunk : List U8} {us : List Nat} (hending : Ending r chunk us)
    (height : r.length + us.length = 8) (hfits : chunk.length ≤ 15)
    (hmask : readPrefix R text 128 = some p) :
    ∃ rd, rd.address = r.text ++ chunk ∧ rd.text = text ∧
      Reads (bodyOf rd.address) rd.left rd.gap rd.chunk ∧ Proper rd ∧
      Accepted R rd p (rats (r.values ++ us)) := by
  have htext := length_text hending.hextets
  have hlengths := hending.lengths
  have hne : r ≠ [] := by
    rintro rfl
    rw [List.length_nil] at height
    omega
  have hhead := head_text hending.hextets hne chunk
  have hstop : Stops r.length chunk := by
    by_cases hseven : r.length = 7
    · exact Or.inl hseven
    · rcases hlengths with ⟨-, -, hnil⟩ | ⟨hone, -⟩ | htwo
      · exact absurd hnil hne
      · omega
      · exact Or.inr ⟨by omega, hending.last.no_colon⟩
  refine ⟨⟨r.text ++ chunk, text, r, none, chunk⟩, rfl, rfl, ?_, ?_, ?_⟩
  · rw [bodyOf, if_neg hhead]
    exact .plain hending.hextets.isGroups hstop
  · refine ⟨hending.hextets, ?_, fun h => absurd h hhead, us, ?_, hending.last, fun _ => rfl⟩
    · intro g r' hgap
      cases hgap
    · exact List.forall_mem_nil _
  · refine ⟨hmask, ?_, rats us, hending.last.tail hfits height.le, ?_, ?_⟩
    · rw [List.length_append]
      rcases hlengths with ⟨-, -, hnil⟩ | ⟨hone, hshort⟩ | htwo
      · exact absurd hnil hne
      · omega
      · omega
    · change Complete none (r.length + 0 + (rats us).length)
      rw [Complete, if_neg (by decide), length_rats]
      exact height
    · change _ = rats r.values ++ List.replicate (8 - (r.length + 0 + (rats us).length)) 0 ++
        ([] ++ rats us)
      rw [length_rats, Nat.add_zero, height, rats_append, List.nil_append, Nat.sub_self,
        List.replicate_zero, List.append_nil]

theorem compressed_reading {r : Groups} {chunk : List U8} {us : List Nat} (hl : AreHextets l)
    (hending : Ending r chunk us) (hless : l.length + (r.length + us.length) ≤ 7)
    (hseven : l.length < 7) (hfits : chunk.length ≤ 15)
    (hmask : readPrefix R text 128 = some p) :
    ∃ rd, rd.address = opening l ++ 0x3a :: (r.text ++ chunk) ∧ rd.text = text ∧
      Reads (bodyOf rd.address) rd.left rd.gap rd.chunk ∧ Proper rd ∧
      Accepted R rd p (rats (l.values ++
        List.replicate (8 - (l.length + (r.length + us.length))) 0 ++ (r.values ++ us))) := by
  have hlengths := hending.lengths
  have htext := length_text hending.hextets
  have hopening : (opening l).length ≤ 5 * l.length + 1 := by
    have hleft := length_text hl
    rw [opening]
    split
    · rw [List.length_singleton]
      omega
    · omega
  have hstop : Stops (l.length + r.length) chunk := by
    refine Or.inr ⟨?_, hending.last.no_colon⟩
    rcases hlengths with ⟨-, -, hnil⟩ | ⟨hone, -⟩ | htwo
    · rw [hnil, List.length_nil]
      exact hseven
    · omega
    · omega
  refine ⟨⟨opening l ++ 0x3a :: (r.text ++ chunk), text, l, some ([], r), chunk⟩, rfl, rfl, ?_,
    ?_, ?_⟩
  · rw [bodyOf_opening hl]
    exact .gap hl.isGroups hseven (by decide) (by decide) group16_nil hending.hextets.isGroups hstop
  · refine ⟨hl, ?_, ?_, us, hending⟩
    · intro g r' hgap
      cases hgap
      rfl
    · intro hhead
      refine ⟨Option.some_ne_none _, ?_⟩
      by_contra hne
      dsimp only at hhead hne
      rw [opening, if_neg hne] at hhead
      exact head_text hl hne _ hhead
  · refine ⟨hmask, ?_, rats us, hending.last.tail hfits ?_, ?_, ?_⟩
    · rw [List.length_append, List.length_cons, List.length_append]
      rcases hlengths with ⟨-, hchunk, hnil⟩ | ⟨hone, hshort⟩ | htwo
      · rw [hnil, hchunk, List.length_nil]
        have hempty : (Groups.text []).length = 0 := rfl
        omega
      · omega
      · omega
    · change l.length + r.length + us.length ≤ 8
      omega
    · change Complete (some ([], r)) (l.length + r.length + (rats us).length)
      rw [Complete, if_pos Option.isSome_some, length_rats]
      omega
    · change _ = rats l.values ++ List.replicate (8 - (l.length + r.length + (rats us).length)) 0 ++
        (rats r.values ++ rats us)
      rw [length_rats, rats_words, rats_append, Nat.add_assoc]

theorem Form.reading (h : Form a ws) (hmask : readPrefix R text 128 = some p) :
    SevenGroups a ∨ LongTail a ∨ ∃ rd, rd.address = a ∧ rd.text = text ∧
      Reads (bodyOf rd.address) rd.left rd.gap rd.chunk ∧ Proper rd ∧
      Accepted R rd p (rats ws) := by
  cases h with
  | @full r chunk us hending height =>
    by_cases hlong : 15 < chunk.length
    · have hne : r ≠ [] := by
        rintro rfl
        have hlengths := hending.last.lengths
        rw [List.length_nil] at height
        omega
      obtain ⟨pre, hpre⟩ := text_concat hne chunk
      exact Or.inr (Or.inl ⟨pre, chunk, hpre, hending.last.no_colon, hlong⟩)
    · exact Or.inr (Or.inr (full_reading hending height (Nat.le_of_not_lt hlong) hmask))
  | @compressed l r chunk us hl hending hless =>
    by_cases hlong : 15 < chunk.length
    · apply Or.inr
      apply Or.inl
      by_cases hne : r = []
      · rw [hne]
        exact ⟨opening l, chunk, rfl, hending.last.no_colon, hlong⟩
      · obtain ⟨pre, hpre⟩ := text_concat hne chunk
        refine ⟨opening l ++ 0x3a :: pre, chunk, ?_, hending.last.no_colon, hlong⟩
        rw [hpre, List.append_assoc, List.cons_append]
    · by_cases hseven : l.length < 7
      · exact Or.inr (Or.inr
          (compressed_reading hl hending hless hseven (Nat.le_of_not_lt hlong) hmask))
      · apply Or.inl
        have hr : r = [] := List.eq_nil_of_length_eq_zero (by omega)
        have hus : us.length = 0 := by omega
        rcases hending.lengths with ⟨-, hchunk, -⟩ | ⟨hone, -⟩ | htwo
        · refine ⟨l.map Prod.fst, l.values, areHextets_iff.mp hl, ?_, ?_⟩
          · rw [List.length_map]
            omega
          · rw [hr, hchunk, ← joined_colon]
            rfl
        · omega
        · omega

end Proper

section Refused

variable {R : Reals} {n : Nat} {a chunk : List U8} {l : Groups} {gap : Option (List U8 × Groups)}
  {xs : List Rat}

theorem Reads.behind_colon (h : Reads (bodyOf a) l gap chunk) :
    a = chunk ∨ ∃ pre, a = pre ++ 0x3a :: chunk := by
  have hbody : bodyOf a = chunk ∨ ∃ pre, bodyOf a = pre ++ 0x3a :: chunk := by
    generalize bodyOf a = body at h
    cases h with
    | plain =>
      by_cases hne : l = []
      · rw [hne]
        exact Or.inl rfl
      · exact Or.inr (text_concat hne chunk)
    | @gap _ r g =>
      apply Or.inr
      by_cases hne : r = []
      · rw [hne]
        exact ⟨l.text ++ g, (List.append_assoc _ _ _).symm⟩
      · obtain ⟨pre, hpre⟩ := text_concat hne chunk
        refine ⟨l.text ++ (g ++ 0x3a :: pre), ?_⟩
        rw [hpre, List.append_assoc, List.append_assoc, List.cons_append]
  by_cases hhead : a.head? = some 0x3a
  · obtain ⟨body, rfl⟩ := List.head?_eq_some_iff.mp hhead
    rw [bodyOf, if_pos hhead, List.tail_cons] at hbody
    apply Or.inr
    rcases hbody with rfl | ⟨pre, rfl⟩
    · exact ⟨[], rfl⟩
    · exact ⟨0x3a :: pre, rfl⟩
  · rw [bodyOf, if_neg hhead] at hbody
    exact hbody

theorem LongTail.refused (h : LongTail a) (hreads : Reads (bodyOf a) l gap chunk)
    (htail : Tail R n chunk xs) : False := by
  obtain ⟨pre, q, rfl, hcolon, hlong⟩ := h
  have hfits := htail.fits
  rcases hreads.behind_colon with heq | ⟨pre', heq⟩
  · have hlen := congrArg List.length heq
    rw [List.length_append, List.length_cons] at hlen
    omega
  · rcases List.append_eq_append_iff.mp heq with ⟨w, -, hw⟩ | ⟨w, -, hw⟩
    · cases w with
      | nil =>
        have hq : q = chunk := (List.cons.inj hw).2
        rw [hq] at hlong
        omega
      | cons d w =>
        apply hcolon
        rw [(List.cons.inj hw).2]
        exact List.mem_append_right w List.mem_cons_self
    · have hlen := congrArg List.length hw
      rw [List.length_append, List.length_cons, List.length_cons] at hlen
      omega

theorem SevenGroups.refused (h : SevenGroups a) (hreads : Reads (bodyOf a) l gap chunk)
    (htail : Tail R n chunk xs) : False := by
  obtain ⟨ts, vs, hts, hseven, rfl⟩ := h
  obtain ⟨l', hl', rfl, rfl⟩ := hts.groups
  have hlen : l'.length = 7 := by
    rw [← hseven, List.length_map]
  have hne : l' ≠ [] := by
    rintro rfl
    cases hlen
  rw [joined_colon, opening, if_neg hne, bodyOf, if_neg (head_text hl' hne _)] at hreads
  have hreads' := Reads.plain hl'.isGroups (Or.inl hlen : Stops l'.length [0x3a])
  obtain ⟨-, -, rfl⟩ := reads_unique hreads hreads'
  cases htail with
  | group _ hread =>
    have hnone : group16 [0x3a] = none := by decide +kernel
    rw [hnone] at hread
    cases hread
  | quad hlong => exact absurd hlong (by decide)

end Refused

section Written

variable {R : Reals} {s a b x : List U8} {text : Option (List U8)} {max p : Nat} {n : Rat}

theorem unbracket_enclosed (h : Enclosed b a) (hbracket : 0x5b ∉ a) : unbracket b = a := by
  rcases h with rfl | rfl
  · exact unbracket_plain fun c hc heq => hbracket (heq ▸ hc)
  · rw [List.cons_append, unbracket, if_pos ⟨rfl, by rw [List.getLast?_concat]⟩,
      List.dropLast_concat]

theorem enclosed_unbracket (b : List U8) : Enclosed b (unbracket b) := by
  cases b with
  | nil => exact Or.inl rfl
  | cons c r =>
    rw [unbracket]
    split
    · rename_i h
      obtain ⟨rfl, hlast⟩ := h
      apply Or.inr
      obtain ⟨r', rfl⟩ := List.getLast?_eq_some_iff.mp hlast
      rw [List.dropLast_concat, List.cons_append]
    · exact Or.inl rfl

theorem cutPrefix_text {t : List U8} (hslash : 0x2f ∉ b) (hne : t ≠ []) :
    cutPrefix (b ++ 0x2f :: t) = (b, some t) := by
  rw [cutPrefix, splitFirst_append _ hslash]
  exact if_neg hne

theorem cutPrefix_cases (h : cutPrefix s = (b, text)) :
    (text = none ∧ s = b) ∨ ∃ t, text = some t ∧ s = b ++ 0x2f :: t := by
  rw [cutPrefix] at h
  split at h
  · rename_i head t hsplit
    obtain ⟨rfl, -⟩ := splitFirst_eq_some hsplit
    split at h
    · cases h
      exact Or.inl ⟨rfl, rfl⟩
    · cases h
      exact Or.inr ⟨t, rfl, rfl⟩
  · cases h
    exact Or.inl ⟨rfl, rfl⟩

theorem readPrefix_number {ds : List U8} (hmax : max < 2 ^ 31) (hnumber : isNumber ds = true) :
    readPrefix R (some ds) max = some n ↔ digitsValue 10 ds ≤ max ∧ n = digitsValue 10 ds := by
  obtain ⟨hne, hdigits⟩ := isNumber_iff.mp hnumber
  obtain ⟨y, hy, hexact, hlarge⟩ := tonumber_digits R hdigits hne
  rw [readPrefix, hy]
  dsimp only [Option.bind_eq_bind, Option.bind_some]
  by_cases hsmall : digitsValue 10 ds < 2 ^ 31
  · rw [hexact hsmall]
    have hneg : ¬((digitsValue 10 ds : Nat) : Rat) < 0 := by
      rw [not_lt]
      exact_mod_cast Nat.zero_le _
    by_cases hle : digitsValue 10 ds ≤ max
    · have hnot : ¬(((digitsValue 10 ds : Nat) : Rat) < 0 ∨
          ((max : Nat) : Rat) < (digitsValue 10 ds : Nat)) := by
        rintro (hlow | hhigh)
        · exact hneg hlow
        · have hhigh' : max < digitsValue 10 ds := by exact_mod_cast hhigh
          omega
      rw [if_neg hnot]
      constructor
      · intro h
        cases h
        exact ⟨hle, rfl⟩
      · rintro ⟨-, rfl⟩
        rfl
    · have hhigh : ((max : Nat) : Rat) < (digitsValue 10 ds : Nat) := by
        exact_mod_cast Nat.lt_of_not_le hle
      rw [if_pos (Or.inr hhigh)]
      exact ⟨fun h => absurd h.symm (Option.some_ne_none _), fun h => absurd h.1 hle⟩
  · have hge := hlarge (Nat.le_of_not_lt hsmall)
    have hcast : ((max : Nat) : Rat) < 2 ^ 31 := by exact_mod_cast hmax
    rw [if_pos (Or.inr (lt_of_lt_of_le hcast hge))]
    exact ⟨fun h => absurd h.symm (Option.some_ne_none _), fun h => absurd h.1 (by omega)⟩

theorem Written.cut (h : Written max s a p) (hslash : 0x2f ∉ a) (hbracket : 0x5b ∉ a)
    (hmax : max < 2 ^ 31) : ∃ b text, cutPrefix s = (b, text) ∧ unbracket b = a ∧
      readPrefix R text max = some (p : Rat) ∧ ∀ t, text = some t → isNumber t = true := by
  obtain ⟨b, hb, h⟩ := h
  have hbare : 0x2f ∉ b := by
    rcases hb with rfl | rfl
    · exact hslash
    · simpa using hslash
  have hunbracket := unbracket_enclosed hb hbracket
  rcases h with ⟨rfl, rfl⟩ | ⟨ds, hnumber, rfl, hle, rfl⟩
  · refine ⟨s, none, ?_, hunbracket, rfl, nofun⟩
    rw [cutPrefix, splitFirst_of_not_mem hbare]
  · refine ⟨b, some ds, cutPrefix_text hbare (isNumber_iff.mp hnumber).1, hunbracket, ?_, ?_⟩
    · exact (readPrefix_number hmax hnumber).mpr ⟨hle, rfl⟩
    · rintro t heq
      cases heq
      exact hnumber

theorem written_of_cut (hcut : cutPrefix s = (b, text)) (hread : readPrefix R text max = some n)
    (hmax : max < 2 ^ 31) (hnumber : ∀ t, text = some t → isNumber t = true) :
    ∃ p : Nat, n = p ∧ Written max s (unbracket b) p := by
  have henclosed := enclosed_unbracket b
  rcases cutPrefix_cases hcut with ⟨rfl, rfl⟩ | ⟨t, rfl, rfl⟩
  · cases hread
    exact ⟨max, rfl, s, henclosed, Or.inl ⟨rfl, rfl⟩⟩
  · have ht := hnumber t rfl
    obtain ⟨hle, rfl⟩ := (readPrefix_number hmax ht).mp hread
    exact ⟨_, rfl, b, henclosed, Or.inr ⟨t, ht, rfl, hle, rfl⟩⟩

end Written

end OpenwrtMtk.Luci.Ip
