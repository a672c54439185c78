import OpenwrtMtk.Luci.IpExact

/-!
# The parsers and the addresses

`IPv4` and `IPv6` return an object exactly for addresses, with the words and the prefix length that
are written, on all texts but two kinds: those that are read although they deviate from an address,
and the addresses that are refused.
-/

namespace OpenwrtMtk.Luci.Ip

open Toolkit

set_option autoImplicit false

section Characters

variable {a t : List U8} {ws : List Nat} {ts : List (List U8)} {c : U8}

theorem Hextets.chars (h : Hextets ts ws) (ht : t ∈ ts) (hc : c ∈ t) : isDigitOf 16 c = true := by
  induction h with
  | nil => cases ht
  | cons hfirst _ ih =>
    rcases List.mem_cons.mp ht with rfl | ht
    · exact hfirst.2.2.1 c hc
    · exact ih ht

theorem Pieces.chars (h : Pieces ts ws) (ht : t ∈ ts) (hc : c ∈ t) :
    c = 0x2e ∨ isDigitOf 16 c = true := by
  cases h with
  | hextets h => exact Or.inr (h.chars ht hc)
  | mixed h hq =>
    rcases List.mem_append.mp ht with ht | ht
    · exact Or.inr (h.chars ht hc)
    · rw [List.mem_singleton.mp ht] at hc
      rcases hq.chars hc with hdot | hdigit
      · exact Or.inl hdot
      · exact Or.inr (isDigitOf_sixteen c hdigit)

theorem joined_chars (h : ∀ t ∈ ts, ∀ c ∈ t, c = 0x2e ∨ isDigitOf 16 c = true)
    (hc : c ∈ joined 0x3a ts) : c = 0x3a ∨ c = 0x2e ∨ isDigitOf 16 c = true := by
  rcases mem_joined hc with rfl | ⟨t, ht, hmem⟩
  · exact Or.inl rfl
  · exact Or.inr (h t ht c hmem)

theorem AddressText.chars (h : AddressText a ws) (hc : c ∈ a) :
    c = 0x3a ∨ c = 0x2e ∨ isDigitOf 16 c = true := by
  cases h with
  | full hpieces => exact joined_chars (fun t ht d hd => hpieces.chars ht hd) hc
  | compressed hl hpieces =>
    rcases List.mem_append.mp hc with hc | hc
    · exact joined_chars (fun t ht d hd => Or.inr (hl.chars ht hd)) hc
    · rcases List.mem_cons.mp hc with rfl | hc
      · exact Or.inl rfl
      · rcases List.mem_cons.mp hc with rfl | hc
        · exact Or.inl rfl
        · exact joined_chars (fun t ht d hd => hpieces.chars ht hd) hc

theorem AddressText.bare (h : AddressText a ws) : 0x2f ∉ a ∧ 0x5b ∉ a := by
  constructor
  · intro hmem
    rcases h.chars hmem with heq | heq | hdigit
    · cases heq
    · cases heq
    · exact (hexDigit_plain _ hdigit).2.1 rfl
  · intro hmem
    rcases h.chars hmem with heq | heq | hdigit
    · cases heq
    · cases heq
    · exact (hexDigit_plain _ hdigit).2.2 rfl

end Characters

section Six

variable {R : Reals} {s a : List U8} {c : Cidr Rat} {p : Nat} {ws : List Nat}

theorem Written.address {rd : Reading} (h : Written 128 s a p) (htext : AddressText a ws)
    (hof : rd.Of s) : rd.address = a := by
  obtain ⟨b, text, hcut, hunbracket, -, -⟩ :=
    @Written.cut wholeReals _ _ _ _ h htext.bare.1 htext.bare.2 (by decide)
  obtain ⟨b', hcut', haddress, -⟩ := hof
  obtain ⟨rfl, -⟩ := Prod.mk.inj (hcut.symm.trans hcut')
  rw [haddress, hunbracket]

theorem address6_reading (htext : AddressText a ws) (h : Written 128 s a p) :
    SevenGroups a ∨ LongTail a ∨ ∃ rd, Reading.Of s rd ∧ Accepted R rd p (rats ws) ∧
      ¬Deviates rd := by
  obtain ⟨b, text, hcut, hunbracket, hmask, hnumber⟩ :=
    h.cut htext.bare.1 htext.bare.2 (by decide)
  rcases (addressText_iff.mp htext).reading hmask with hseven | hlong |
    ⟨rd, haddress, rfl, hreads, hproper, haccepted⟩
  · exact Or.inl hseven
  · exact Or.inr (Or.inl hlong)
  · refine Or.inr (Or.inr ⟨rd, ⟨b, hcut, ?_, hreads⟩, haccepted, hproper.not_deviates hnumber⟩)
    rw [haddress, hunbracket]

theorem address6_of_ipv6 (hloose : ¬Loose6 R s) (hc : ipv6 R s = some c) : Address6 s c := by
  obtain ⟨rd, p, ws, hof, haccepted, rfl⟩ := ipv6_iff.mp hc
  have hdev : ¬Deviates rd := fun hdev => hloose ⟨rd, p, ws, hof, haccepted, hdev⟩
  obtain ⟨us, hform, rfl⟩ := (proper_of_not_deviates hdev).form hof.choose_spec.2.2 haccepted
  obtain ⟨b, hcut, haddress, hreads⟩ := hof
  have hnumber : ∀ t, rd.text = some t → isNumber t = true := by
    intro t ht
    by_contra hnot
    exact hdev (.prefixLength ht (Bool.eq_false_of_not_eq_true hnot))
  obtain ⟨n, rfl, hwritten⟩ := written_of_cut hcut haccepted.prefixLen (by decide) hnumber
  rw [← haddress] at hwritten
  exact ⟨rd.address, n, us, addressText_iff.mpr hform, hwritten, rfl⟩

theorem ipv6_of_address6 (hunread : ¬Unread6 s) (hc : Address6 s c) : ipv6 R s = some c := by
  obtain ⟨a, p, ws, htext, hwritten, rfl⟩ := hc
  rcases @address6_reading R _ _ _ _ htext hwritten with hseven | hlong | ⟨rd, hof, haccepted, -⟩
  · exact absurd ⟨a, ws, p, htext, hwritten, Or.inl hseven⟩ hunread
  · exact absurd ⟨a, ws, p, htext, hwritten, Or.inr hlong⟩ hunread
  · exact ipv6_iff.mpr ⟨rd, p, rats ws, hof, haccepted, rfl⟩

theorem reading_refused {rd : Reading} {p : Rat} {xs : List Rat}
    (hrefused : SevenGroups rd.address ∨ LongTail rd.address) (hof : rd.Of s)
    (haccepted : Accepted R rd p xs) : False := by
  obtain ⟨b, hcut, haddress, hreads⟩ := hof
  obtain ⟨tail, htail, -⟩ := haccepted.words
  rcases hrefused with hseven | hlong
  · exact hseven.refused hreads htail
  · exact hlong.refused hreads htail

theorem loose6_accepted (h : Loose6 R s) : ∃ c, ipv6 R s = some c ∧ ¬Address6 s c := by
  obtain ⟨rd, x, xs, hof, haccepted, hdev⟩ := h
  refine ⟨_, ipv6_iff.mpr ⟨rd, x, xs, hof, haccepted, rfl⟩, ?_⟩
  rintro ⟨a, p, ws, htext, hwritten, -⟩
  have haddress := hwritten.address htext hof
  rcases @address6_reading R _ _ _ _ htext hwritten with hseven | hlong | ⟨rd', hof', -, hnot⟩
  · exact reading_refused (Or.inl (haddress ▸ hseven)) hof haccepted
  · exact reading_refused (Or.inr (haddress ▸ hlong)) hof haccepted
  · rw [reading_unique hof' hof] at hnot
    exact hnot hdev

theorem unread6_refused (R : Reals) (h : Unread6 s) : ∃ c, Address6 s c ∧ ipv6 R s = none := by
  obtain ⟨a, ws, p, htext, hwritten, hrefused⟩ := h
  refine ⟨_, ⟨a, p, ws, htext, hwritten, rfl⟩, ?_⟩
  apply Option.eq_none_iff_forall_ne_some.mpr
  intro c hc
  obtain ⟨rd, x, xs, hof, haccepted, -⟩ := ipv6_iff.mp hc
  have haddress := hwritten.address htext hof
  exact reading_refused (haddress ▸ hrefused) hof haccepted

end Six

section Four

variable {R : Reals} {s x : List U8} {c : Cidr Rat} {ws : List Nat}

theorem ipv4_iff {b : List U8} {text : Option (List U8)} (hcut : cutPrefix s = (b, text)) :
    ipv4 R s = some c ↔ ∃ p ws, readPrefix R text 32 = some p ∧
      Quad (dropMapped ((unbracket b).map upperByte)) ws ∧ c = ⟨.inet4, rats ws, p⟩ := by
  rw [ipv4, hcut]
  dsimp only [Option.bind_eq_bind]
  rw [Option.bind_eq_some_iff]
  constructor
  · rintro ⟨p, hmask, h⟩
    obtain ⟨q, hquad, h⟩ := Option.bind_eq_some_iff.mp h
    obtain ⟨data, hwords, h⟩ := Option.bind_eq_some_iff.mp h
    cases h
    obtain ⟨ws, hws, rfl⟩ := quad_of_match (Option.bind_eq_some_iff.mpr ⟨q, hquad, hwords⟩)
    exact ⟨p, ws, hmask, hws, rfl⟩
  · rintro ⟨p, ws, hmask, hquad, rfl⟩
    refine ⟨p, hmask, ?_⟩
    obtain ⟨q, hmatch, hwords⟩ := Option.bind_eq_some_iff.mp (hquad.match (R := R))
    rw [hmatch, Option.bind_some, hwords, Option.bind_some]

theorem upper_fixed (d : U8) (h : upperByte d = 0x2e ∨ isdigit (upperByte d) = true) :
    upperByte d = d := by
  unfold upperByte at h ⊢
  split
  · rename_i hlow
    rw [if_pos hlow] at h
    rcases h with h | h
    · bv_omega
    · simp only [isdigit, Bool.and_eq_true, decide_eq_true_eq] at h
      bv_omega
  · rfl

theorem mapped_bare (d : U8) (h : upperByte d ∈ latin "::FFFF:") : d ≠ 0x2f ∧ d ≠ 0x5b := by
  constructor <;> rintro rfl <;> exact absurd h (by decide)

theorem mapped_quad : Quad (dropMapped (x.map upperByte)) ws ↔
    ∃ pre a, x = pre ++ a ∧ (pre = [] ∨ mapped pre) ∧ Quad a ws := by
  have hfixed : ∀ y : List U8, Quad (y.map upperByte) ws → y.map upperByte = y := by
    intro y hy
    apply upper_plain
    intro d hd
    exact upper_fixed d (hy.chars (List.mem_map_of_mem hd))
  constructor
  · intro h
    rw [dropMapped] at h
    split at h
    · rename_i hmapped
      obtain ⟨rest, hrest⟩ := hmapped
      obtain ⟨pre, a, rfl, hpre, rfl⟩ := List.map_eq_append_iff.mp hrest.symm
      have hlen : pre.length = 7 := by
        have hlen := congrArg List.length hpre
        rw [List.length_map] at hlen
        exact hlen
      rw [List.map_append, List.drop_left' (by rw [List.length_map, hlen])] at h
      exact ⟨pre, a, rfl, Or.inr hpre, hfixed a h ▸ h⟩
    · exact ⟨[], x, rfl, Or.inl rfl, hfixed x h ▸ h⟩
  · rintro ⟨pre, a, rfl, hpre, ha⟩
    have hplain : a.map upperByte = a := by
      apply upper_plain
      intro d hd
      rcases ha.chars hd with rfl | hdigit
      · rfl
      · exact (isdigit_plain d hdigit).2.2.2.2
    rw [List.map_append, hplain]
    rcases hpre with rfl | hpre
    · rw [List.map_nil, List.nil_append, dropMapped_plain ha.no_colon]
      exact ha
    · rw [mapped] at hpre
      rw [hpre, dropMapped, if_pos (List.prefix_append _ _)]
      exact ha

theorem quad_bare {pre a : List U8} (hpre : pre = [] ∨ mapped pre) (h : Quad a ws) :
    0x2f ∉ pre ++ a ∧ 0x5b ∉ pre ++ a := by
  have hchars : ∀ d ∈ pre ++ a, d ≠ 0x2f ∧ d ≠ 0x5b := by
    intro d hd
    rcases List.mem_append.mp hd with hd | hd
    · rcases hpre with rfl | hpre
      · cases hd
      · rw [mapped] at hpre
        exact mapped_bare d (hpre ▸ List.mem_map_of_mem hd)
    · rcases h.chars hd with rfl | hdigit
      · decide
      · exact ⟨(isdigit_plain d hdigit).1, (isdigit_plain d hdigit).2.2.2.1⟩
  exact ⟨fun h => (hchars _ h).1 rfl, fun h => (hchars _ h).2 rfl⟩

theorem ipv4_of_address4 (h : Address4 s c) : ipv4 R s = some c := by
  obtain ⟨pre, a, p, ws, hpre, hquad, hwritten, rfl⟩ := h
  obtain ⟨hslash, hbracket⟩ := quad_bare hpre hquad
  obtain ⟨b, text, hcut, hunbracket, hmask, -⟩ := hwritten.cut hslash hbracket (by decide)
  refine (ipv4_iff hcut).mpr ⟨p, ws, hmask, ?_, rfl⟩
  rw [hunbracket]
  exact mapped_quad.mpr ⟨pre, a, rfl, hpre, hquad⟩

theorem address4_of_ipv4 (hloose : ¬Loose4 R s) (hc : ipv4 R s = some c) : Address4 s c := by
  obtain ⟨b, text, hcut⟩ : ∃ b text, cutPrefix s = (b, text) := ⟨_, _, rfl⟩
  obtain ⟨p, ws, hmask, hquad, rfl⟩ := (ipv4_iff hcut).mp hc
  obtain ⟨pre, a, haddress, hpre, ha⟩ := mapped_quad.mp hquad
  have hnumber : ∀ t, text = some t → isNumber t = true := by
    rintro t rfl
    by_contra hnot
    rcases cutPrefix_cases hcut with ⟨hnone, -⟩ | ⟨t', ht', hs⟩
    · cases hnone
    · cases ht'
      apply hloose
      exact ⟨b, t, pre, a, ws, p, hs, haddress ▸ enclosed_unbracket b, hpre, ha,
        Bool.eq_false_of_not_eq_true hnot, hmask⟩
  obtain ⟨n, rfl, hwritten⟩ := written_of_cut hcut hmask (by decide) hnumber
  rw [haddress] at hwritten
  exact ⟨pre, a, n, ws, hpre, ha, hwritten, rfl⟩

theorem readPrefix_nil (max : Rat) : readPrefix R (some []) max = none := rfl

theorem loose4_accepted (h : Loose4 R s) : ∃ c, ipv4 R s = some c ∧ ¬Address4 s c := by
  obtain ⟨b, text, pre, a, ws, n, rfl, henclosed, hpre, hquad, hnumber, hmask⟩ := h
  obtain ⟨hslash, hbracket⟩ := quad_bare hpre hquad
  have hbare : 0x2f ∉ b := by
    rcases henclosed with rfl | rfl
    · exact hslash
    · simpa using hslash
  have hne : text ≠ [] := by
    rintro rfl
    rw [readPrefix_nil] at hmask
    cases hmask
  have hcut := cutPrefix_text hbare hne
  refine ⟨_, (ipv4_iff hcut).mpr ⟨n, ws, hmask, ?_, rfl⟩, ?_⟩
  · rw [unbracket_enclosed henclosed hbracket]
    exact mapped_quad.mpr ⟨pre, a, rfl, hpre, hquad⟩
  · rintro ⟨pre', a', p, ws', hpre', hquad', hwritten, -⟩
    obtain ⟨hslash', hbracket'⟩ := quad_bare hpre' hquad'
    obtain ⟨b', text', hcut', -, -, hdigits⟩ :=
      hwritten.cut (R := R) hslash' hbracket' (by decide)
    obtain ⟨-, rfl⟩ := Prod.mk.inj (hcut.symm.trans hcut')
    rw [hdigits text rfl] at hnumber
    cases hnumber

end Four

/-- The parsers return objects for addresses only, and for all, exactly on these texts. -/
theorem parsers_exact_iff (R : Reals) (s : List U8) :
    ((∀ c, ipv4 R s = some c ↔ Address4 s c) ↔ ¬Loose4 R s) ∧
    ((∀ c, ipv6 R s = some c ↔ Address6 s c) ↔ ¬Loose6 R s ∧ ¬Unread6 s) := by
  constructor
  · constructor
    · intro h hloose
      obtain ⟨c, hc, hnot⟩ := loose4_accepted hloose
      exact hnot ((h c).mp hc)
    · intro h c
      exact ⟨address4_of_ipv4 h, ipv4_of_address4⟩
  · constructor
    · intro h
      constructor
      · intro hloose
        obtain ⟨c, hc, hnot⟩ := loose6_accepted hloose
        exact hnot ((h c).mp hc)
      · intro hunread
        obtain ⟨c, hc, hnone⟩ := unread6_refused R hunread
        rw [(h c).mpr hc] at hnone
        cases hnone
    · rintro ⟨hloose, hunread⟩ c
      exact ⟨address6_of_ipv6 hloose, ipv6_of_address6 hunread⟩

section Odd

theorem colon_loose : Loose6 wholeReals (latin ":1::2") := by
  have hone : group16 [0x31] = some 1 := rfl
  have htwo : group16 [0x32] = some 2 := rfl
  have hgroups : IsGroups [([0x31], 1)] :=
    List.forall_mem_cons.mpr ⟨⟨by decide, hone⟩, fun g hg => absurd hg List.not_mem_nil⟩
  have hempty : IsGroups [] := fun g hg => absurd hg List.not_mem_nil
  have hreads : Reads (Groups.text [([0x31], 1)] ++ ([] ++ 0x3a :: (Groups.text [] ++ [0x32])))
      [([0x31], 1)] (some ([], [])) [0x32] :=
    .gap hgroups (by decide) List.not_mem_nil (by decide) group16_nil hempty
      (Or.inr ⟨by decide, by decide⟩)
  have haccepted : ∃ xs, Accepted wholeReals
      ⟨latin ":1::2", none, [([0x31], 1)], some ([], []), [0x32]⟩ 128 xs := by
    refine ⟨_, rfl, by decide, [((2 : Nat) : Rat)], .group (by decide) htwo, ?_, rfl⟩
    exact (by decide : 2 < 8)
  obtain ⟨xs, hxs⟩ := haccepted
  exact ⟨⟨latin ":1::2", none, [([0x31], 1)], some ([], []), [0x32]⟩, 128, xs,
    ⟨latin ":1::2", rfl, rfl, hreads⟩, hxs, .leadingColon rfl (Or.inr (List.cons_ne_nil _ _))⟩

theorem hextet_digit {d : U8} {v : Nat} (hd : isDigitOf 16 d = true)
    (hv : (hexValue d).getD 0 = v) : Hextet [d] v := by
  refine ⟨List.cons_ne_nil _ _, (by decide : 1 ≤ 4), ?_, ?_⟩
  · intro c hc
    rw [List.mem_singleton.mp hc]
    exact hd
  · rw [← hv]
    exact Nat.zero_add _

theorem seven_unread : Unread6 (latin "1:2:3:4:5:6:7::") := by
  have hseven : Hextets [[0x31], [0x32], [0x33], [0x34], [0x35], [0x36], [0x37]]
      [1, 2, 3, 4, 5, 6, 7] :=
    .cons (hextet_digit rfl rfl) (.cons (hextet_digit rfl rfl) (.cons (hextet_digit rfl rfl)
      (.cons (hextet_digit rfl rfl) (.cons (hextet_digit rfl rfl) (.cons (hextet_digit rfl rfl)
        (.cons (hextet_digit rfl rfl) .nil))))))
  refine ⟨_, _, 128, .compressed hseven (.hextets .nil) (le_refl 7), ?_,
    Or.inl ⟨_, _, hseven, rfl, rfl⟩⟩
  exact ⟨_, Or.inl rfl, Or.inl ⟨rfl, rfl⟩⟩

theorem octet_digit {d : U8} {v : Nat} (hd : isdigit d = true) (hv : (hexValue d).getD 0 = v) :
    Octet [d] v := by
  have hlt := hexDigit_value d
  refine ⟨isNumber_iff.mpr ⟨List.cons_ne_nil _ _, ?_⟩, ?_, by omega⟩
  · intro c hc
    rw [List.mem_singleton.mp hc]
    exact hd
  · rw [← hv]
    exact Nat.zero_add _

theorem hex_loose : Loose4 wholeReals (latin "1.2.3.4/0x18") := by
  refine ⟨latin "1.2.3.4", latin "0x18", [], latin "1.2.3.4", [0x102, 0x304], 24, rfl, Or.inl rfl,
    Or.inl rfl, ?_, by decide, by decide +kernel⟩
  exact ⟨[0x31], [0x32], [0x33], [0x34], 1, 2, 3, 4, octet_digit rfl rfl, octet_digit rfl rfl,
    octet_digit rfl rfl, octet_digit rfl rfl, rfl, rfl⟩

/-- A text that is no address and yet accepted, an address that is refused, and a prefix length in
base 16. -/
theorem odd_addresses :
    (∃ c, ipv6 wholeReals (latin ":1::2") = some c ∧ ¬Address6 (latin ":1::2") c) ∧
    (∃ c, Address6 (latin "1:2:3:4:5:6:7::") c ∧
      ipv6 wholeReals (latin "1:2:3:4:5:6:7::") = none) ∧
    (∃ c, ipv4 wholeReals (latin "1.2.3.4/0x18") = some c ∧
      ¬Address4 (latin "1.2.3.4/0x18") c) :=
  ⟨loose6_accepted colon_loose, unread6_refused wholeReals seven_unread, loose4_accepted hex_loose⟩

end Odd

end OpenwrtMtk.Luci.Ip
