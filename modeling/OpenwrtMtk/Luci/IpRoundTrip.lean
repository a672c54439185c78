import OpenwrtMtk.Luci.IpSums

/-!
# Printed addresses

What `cidr.string` prints is parsed to the address that was printed, with its prefix length.
-/

namespace OpenwrtMtk.Luci.Ip

open Toolkit

set_option autoImplicit false

def Cidr.parsed (c : Cidr Int) : Cidr Rat :=
  ⟨c.family, c.words.map Int.cast, c.prefixLen⟩

section Digits

variable {n : Nat} {c sep : U8} {t : List U8} {ts : List (List U8)}

theorem digitsValue_concat (base : Nat) (ds : List U8) (c : U8) :
    digitsValue base (ds ++ [c]) = base * digitsValue base ds + (hexValue c).getD 0 := by
  rw [digitsValue, List.foldl_append]
  rfl

theorem upperDigit : ∀ m < 16, isDigitOf 16 (upperByte (charByte (Nat.digitChar m))) = true ∧
    (hexValue (upperByte (charByte (Nat.digitChar m)))).getD 0 = m ∧
    (upperByte (charByte (Nat.digitChar m)) ≠ 0x2f ∧
      upperByte (charByte (Nat.digitChar m)) ≠ 0x3a ∧
      upperByte (charByte (Nat.digitChar m)) ≠ 0x5b) := by
  decide +kernel

theorem upperHex_small (h : n < 16) : upperHex n = [upperByte (charByte (Nat.digitChar n))] := by
  rw [upperHex, Nat.toDigits_of_lt_base h]
  rfl

theorem upperHex_large (h : 16 ≤ n) :
    upperHex n = upperHex (n / 16) ++ [upperByte (charByte (Nat.digitChar (n % 16)))] := by
  rw [upperHex, Nat.toDigits_of_base_le (by decide) h, List.map_append]
  rfl

theorem upperHex_value (n : Nat) : digitsValue 16 (upperHex n) = n := by
  induction n using Nat.strongRecOn with
  | ind n ih =>
    by_cases h : n < 16
    · rw [upperHex_small h]
      have hone : digitsValue 16 ([] ++ [upperByte (charByte (Nat.digitChar n))]) = n := by
        rw [digitsValue_concat, (upperDigit n h).2.1]
        exact Nat.zero_add n
      exact hone
    · rw [upperHex_large (Nat.le_of_not_lt h), digitsValue_concat, ih _ (by omega),
        (upperDigit _ (Nat.mod_lt n (by decide))).2.1]
      exact Nat.div_add_mod n 16

theorem upperHex_digits (n : Nat) : ∀ d ∈ upperHex n, isDigitOf 16 d = true ∧
    d ≠ 0x2f ∧ d ≠ 0x3a ∧ d ≠ 0x5b := by
  induction n using Nat.strongRecOn with
  | ind n ih =>
    intro d hd
    by_cases h : n < 16
    · rw [upperHex_small h] at hd
      rw [List.mem_singleton.mp hd]
      exact ⟨(upperDigit n h).1, (upperDigit n h).2.2⟩
    · rw [upperHex_large (Nat.le_of_not_lt h)] at hd
      rcases List.mem_append.mp hd with hd | hd
      · exact ih _ (by omega) d hd
      · have hdigit := upperDigit _ (Nat.mod_lt n (by decide : 0 < 16))
        rw [List.mem_singleton.mp hd]
        exact ⟨hdigit.1, hdigit.2.2⟩

theorem upperHex_ne_nil (n : Nat) : upperHex n ≠ [] := by
  rw [upperHex, ne_eq, List.map_eq_nil_iff]
  exact Nat.toDigits_ne_nil

theorem upperHex_length (h : n < 0x10000) : (upperHex n).length ≤ 4 := by
  rw [upperHex, List.length_map]
  exact (Nat.length_toDigits_le_iff (by decide) (by decide)).mpr h

theorem tonumber16_upperHex (h : n < 0x10000) : tonumber16 (upperHex n) = some n := by
  rw [tonumber16_digits (fun d hd => (upperHex_digits n d hd).1) (upperHex_ne_nil n)
    (by rw [upperHex_value]; omega), upperHex_value]

theorem tonumber_number (R : Reals) (h : n < 2 ^ 31) : tonumber R (digits n) = some (n : Rat) := by
  obtain ⟨x, hx, hexact, -⟩ := tonumber_digits R (digits_isdigit n) (digits_ne_nil n)
  rw [digitsValue_digits] at hexact
  rw [hx, hexact h]

theorem isdigit_plain : ∀ d : U8, isdigit d = true →
    d ≠ 0x2f ∧ d ≠ 0x2e ∧ d ≠ 0x3a ∧ d ≠ 0x5b ∧ upperByte d = d := by
  decide +kernel

theorem joined_cons (h : ts ≠ []) : joined sep (t :: ts) = t ++ sep :: joined sep ts := by
  obtain ⟨u, ts, rfl⟩ := List.exists_cons_of_ne_nil h
  rfl

theorem mem_joined (h : c ∈ joined sep ts) : c = sep ∨ ∃ t ∈ ts, c ∈ t := by
  induction ts with
  | nil => cases h
  | cons t ts ih =>
    cases ts with
    | nil => exact .inr ⟨t, List.mem_cons_self, h⟩
    | cons u ts =>
      rw [joined_cons (List.cons_ne_nil u ts)] at h
      rcases List.mem_append.mp h with h | h
      · exact .inr ⟨t, List.mem_cons_self, h⟩
      · rcases List.mem_cons.mp h with rfl | h
        · exact .inl rfl
        · rcases ih h with rfl | ⟨v, hv, hc⟩
          · exact .inl rfl
          · exact .inr ⟨v, List.mem_cons_of_mem t hv, hc⟩

end Digits

section Prefix

variable {address : List U8}

theorem prefix_read (R : Reals) (address : List U8) (n max : Int)
    (haddress : (0x2f : U8) ∉ address) (hlow : 0 ≤ n) (hhigh : n ≤ max)
    (hmax : max < 2 ^ 31) : ∃ text, cutPrefix (address ++ prefixText n max) = (address, text) ∧
      readPrefix R text max = some (n : Rat) := by
  unfold prefixText
  by_cases hlt : n < max
  · obtain ⟨m, rfl⟩ := Int.eq_ofNat_of_zero_le hlow
    refine ⟨some (digits m), ?_, ?_⟩
    · rw [if_pos hlt, cutPrefix, splitFirst_append _ haddress]
      exact if_neg (digits_ne_nil m)
    · have hnot : ¬(((m : Nat) : Rat) < 0 ∨ ((max : Int) : Rat) < ((m : Nat) : Rat)) := by
        rintro (hneg | hlarge)
        · exact absurd hneg (Rat.not_lt.mpr (by exact_mod_cast Nat.zero_le m))
        · have hlarge' : max < (m : Int) := by exact_mod_cast hlarge
          omega
      rw [readPrefix, tonumber_number R (by omega)]
      dsimp only [Option.bind_eq_bind, Option.bind_some]
      rw [if_neg hnot]
      rfl
  · have heq : n = max := by omega
    refine ⟨none, ?_, ?_⟩
    · rw [if_neg hlt, List.append_nil, cutPrefix, splitFirst_of_not_mem haddress]
    · rw [heq]
      rfl

theorem unbracket_plain (h : ∀ c ∈ address, c ≠ 0x5b) : unbracket address = address := by
  cases address with
  | nil => rfl
  | cons c r =>
    rw [unbracket, if_neg]
    rintro ⟨hc, -⟩
    exact h c List.mem_cons_self hc

end Prefix

section Quads

variable {R : Reals} {address : List U8} {n : Nat} {w w' : Int}

theorem upper_plain (h : ∀ c ∈ address, upperByte c = c) : address.map upperByte = address := by
  induction address with
  | nil => rfl
  | cons c r ih =>
    rw [List.map_cons, h c List.mem_cons_self, ih fun d hd => h d (List.mem_cons_of_mem c hd)]

theorem dropMapped_plain (h : (0x3a : U8) ∉ address) : dropMapped address = address := by
  rw [dropMapped, if_neg]
  rintro ⟨rest, rfl⟩
  exact h (List.mem_append_left rest (by decide))

theorem isNumber_digits (n : Nat) : isNumber (digits n) = true := by
  rw [isNumber, List.all_eq_true.mpr (digits_isdigit n), decide_eq_true (digits_ne_nil n)]
  rfl

theorem digits_no_dot (n : Nat) : (0x2e : U8) ∉ digits n := by
  intro hmem
  exact (isdigit_plain _ (digits_isdigit n _ hmem)).2.1 rfl

theorem matchQuad_joined (b₁ b₂ b₃ b₄ : Nat) :
    matchQuad (joined 0x2e [digits b₁, digits b₂, digits b₃, digits b₄]) =
      some (digits b₁, digits b₂, digits b₃, digits b₄) := by
  rw [matchQuad, joined_cons (List.cons_ne_nil _ _), splitFirst_append _ (digits_no_dot b₁)]
  dsimp only [Option.bind_eq_bind, Option.bind_some]
  rw [joined_cons (List.cons_ne_nil _ _), splitFirst_append _ (digits_no_dot b₂)]
  dsimp only [Option.bind_some]
  rw [joined_cons (List.cons_ne_nil _ _), splitFirst_append _ (digits_no_dot b₃)]
  dsimp only [Option.bind_some, joined]
  rw [isNumber_digits, isNumber_digits, isNumber_digits, isNumber_digits]
  rfl

theorem readBlock_digits (h : n ≤ 255) : readBlock R (digits n) = some (n : Rat) := by
  have hle : (n : Rat) ≤ 255 := by exact_mod_cast h
  rw [readBlock, tonumber_number R (by omega)]
  dsimp only [Option.bind_eq_bind, Option.bind_some]
  rw [if_pos hle]

theorem word_bytes (hw : 0 ≤ w ∧ w < 2 ^ 16) : w.toNat >>> 8 ≤ 255 ∧ w.toNat &&& 0xff ≤ 255 ∧
    ((w.toNat >>> 8 : Nat) : Rat) * 256 + ((w.toNat &&& 0xff : Nat) : Rat) = (w : Rat) := by
  obtain ⟨n, rfl⟩ := Int.eq_ofNat_of_zero_le hw.1
  have hlow : n &&& 0xff = n % 2 ^ 8 := Nat.and_two_pow_sub_one_eq_mod n 8
  have hsum : n >>> 8 * 256 + n % 2 ^ 8 = n := by
    rw [Nat.shiftRight_eq_div_pow]
    omega
  rw [Int.toNat_natCast, hlow]
  have hcast : ((n >>> 8 * 256 + n % 2 ^ 8 : Nat) : Rat) = (n : Rat) := congrArg Nat.cast hsum
  rw [Rat.natCast_add, Rat.natCast_mul] at hcast
  refine ⟨?_, by omega, hcast⟩
  rw [Nat.shiftRight_eq_div_pow]
  omega

theorem ipv4_string {c : Cidr Int} (h : IsSubnet c) (hfamily : c.family = .inet4) :
    ipv4 R (string c) = some c.parsed := by
  obtain ⟨family, words, n⟩ := c
  obtain rfl : family = .inet4 := hfamily
  obtain ⟨w, w', rfl⟩ := List.length_eq_two.mp h.stands.length
  obtain ⟨hw, hrest⟩ := inWords_cons.mp h.stands.words
  obtain ⟨hw', -⟩ := inWords_cons.mp hrest
  obtain ⟨h₁, h₂, hword⟩ := word_bytes hw
  obtain ⟨h₃, h₄, hword'⟩ := word_bytes hw'
  let body := joined 0x2e [digits (w.toNat >>> 8), digits (w.toNat &&& 0xff),
    digits (w'.toNat >>> 8), digits (w'.toNat &&& 0xff)]
  have hbody : ∀ c ∈ body, c = 0x2e ∨ isdigit c = true := by
    intro c hc
    rcases mem_joined hc with rfl | ⟨t, ht, hct⟩
    · exact .inl rfl
    · right
      simp only [List.mem_cons, List.not_mem_nil, or_false] at ht
      rcases ht with rfl | rfl | rfl | rfl <;> exact digits_isdigit _ c hct
  have hplain : ∀ c ∈ body, c ≠ 0x2f ∧ c ≠ 0x3a ∧ c ≠ 0x5b ∧ upperByte c = c := by
    intro c hc
    rcases hbody c hc with rfl | hdigit
    · decide
    · have hc' := isdigit_plain c hdigit
      exact ⟨hc'.1, hc'.2.2⟩
  obtain ⟨text, hcut, hread⟩ := prefix_read R body n 32
    (fun hmem => (hplain _ hmem).1 rfl) h.low h.high (by decide)
  have hstring : string ⟨.inet4, [w, w'], n⟩ = body ++ prefixText n 32 := rfl
  rw [hstring, ipv4, hcut]
  dsimp only
  rw [unbracket_plain fun c hc => (hplain c hc).2.2.1,
    upper_plain fun c hc => (hplain c hc).2.2.2,
    dropMapped_plain fun hmem => (hplain _ hmem).2.1 rfl]
  rw [show (32 : Rat) = ((32 : Int) : Rat) from rfl, hread]
  dsimp only [Option.bind_eq_bind, Option.bind_some]
  rw [matchQuad_joined]
  dsimp only [Option.bind_some]
  rw [quadWords, readBlock_digits h₁, readBlock_digits h₂, readBlock_digits h₃,
    readBlock_digits h₄]
  dsimp only [Option.bind_eq_bind, Option.bind_some]
  rw [hword, hword']
  rfl

end Quads

section Groups

variable {R : Reals} {turns m : Nat} {u v w : Int} {us : List Int} {data : List Rat} {sep : U8}
  {ts : List (List U8)}

def wordText (w : Int) : List U8 := upperHex w.toNat

theorem wordText_no_colon (w : Int) : (0x3a : U8) ∉ wordText w := fun hmem =>
  (upperHex_digits _ _ hmem).2.2.1 rfl

theorem readWord (hw : 0 ≤ w ∧ w < 2 ^ 16) :
    (tonumber16 (wordText w)).filter (· ≤ 0xffff) = some w.toNat ∧
      ((w.toNat : Nat) : Rat) = (w : Rat) := by
  obtain ⟨n, rfl⟩ := Int.eq_ofNat_of_zero_le hw.1
  have hn : n ≤ 0xffff := by omega
  refine ⟨?_, rfl⟩
  rw [wordText, Int.toNat_natCast, tonumber16_upperHex (by omega)]
  exact Option.filter_some_pos (decide_eq_true hn)

theorem takeGroup_word (hw : 0 ≤ w ∧ w < 2 ^ 16) :
    takeGroup (wordText w) data none = some (data ++ [(w : Rat)], none) := by
  obtain ⟨hread, hcast⟩ := readWord hw
  rw [takeGroup, hread]
  dsimp only
  rw [hcast]

theorem lastChunk_word (hw : 0 ≤ w ∧ w < 2 ^ 16) :
    lastChunk R (wordText w) data = some (data ++ [(w : Rat)]) := by
  obtain ⟨hread, hcast⟩ := readWord hw
  have hlen : (wordText w).length ≤ 4 := upperHex_length (by omega)
  have hne : wordText w ≠ [] := upperHex_ne_nil _
  rw [lastChunk, if_neg hne, if_pos hlen, hread, Option.map_some, hcast]

theorem groups_words (hus : InWords 16 (u :: us)) (hlen : data.length + (u :: us).length = 7)
    (hturns : (u :: us).length ≤ turns) :
    groups turns (joined 0x3a ((u :: us ++ [v]).map wordText)) data none =
      some (wordText v, data ++ (u :: us).map Int.cast, none) := by
  induction us generalizing u data turns with
  | nil =>
    obtain ⟨hu, -⟩ := inWords_cons.mp hus
    obtain ⟨turns, rfl⟩ := Nat.exists_eq_succ_of_ne_zero (Nat.ne_of_gt hturns)
    have hseven : (data ++ [(u : Rat)]).length = 7 := by
      rw [List.length_append]
      exact hlen
    have hjoined : joined 0x3a (([u] ++ [v]).map wordText) = wordText u ++ 0x3a :: wordText v := rfl
    rw [hjoined, groups, splitFirst_append _ (wordText_no_colon u)]
    dsimp only
    rw [takeGroup_word hu]
    dsimp only [Option.bind_eq_bind, Option.bind_some]
    rw [if_pos hseven]
    rfl
  | cons u' us ih =>
    obtain ⟨hu, hrest⟩ := inWords_cons.mp hus
    obtain ⟨turns, rfl⟩ := Nat.exists_eq_succ_of_ne_zero (Nat.ne_of_gt (Nat.lt_of_lt_of_le
      (Nat.succ_pos _) hturns))
    have hseven : (data ++ [(u : Rat)]).length ≠ 7 := by
      rw [List.length_append, List.length_singleton]
      rw [List.length_cons, List.length_cons] at hlen
      omega
    have hjoined : joined 0x3a ((u :: u' :: us ++ [v]).map wordText) =
        wordText u ++ 0x3a :: joined 0x3a ((u' :: us ++ [v]).map wordText) := rfl
    rw [hjoined, groups, splitFirst_append _ (wordText_no_colon u)]
    dsimp only
    rw [takeGroup_word hu]
    dsimp only [Option.bind_eq_bind, Option.bind_some]
    rw [if_neg hseven, ih hrest, List.append_assoc]
    · rfl
    · rw [List.length_append, List.length_singleton]
      rw [List.length_cons] at hlen
      omega
    · exact Nat.le_of_succ_le_succ hturns

theorem length_joined (h : ∀ t ∈ ts, t.length ≤ m) :
    (joined sep ts).length ≤ (m + 1) * ts.length := by
  induction ts with
  | nil => exact Nat.zero_le _
  | cons t ts ih =>
    obtain ⟨ht, hts⟩ := List.forall_mem_cons.mp h
    have hrest := ih hts
    rw [List.length_cons, Nat.mul_succ]
    cases ts with
    | nil => exact Nat.le_trans ht (by omega)
    | cons u ts =>
      rw [joined_cons (List.cons_ne_nil u ts), List.length_append, List.length_cons]
      omega

theorem joined_length (sep : U8) (ts : List (List U8)) : ts.length ≤ (joined sep ts).length + 1 := by
  induction ts with
  | nil => exact Nat.zero_le _
  | cons t ts ih =>
    cases ts with
    | nil => exact Nat.succ_le_succ (Nat.zero_le _)
    | cons u ts =>
      rw [joined_cons (List.cons_ne_nil u ts), List.length_append]
      simp only [List.length_cons] at ih ⊢
      omega

theorem ipv6_string {c : Cidr Int} (h : IsSubnet c) (hfamily : c.family = .inet6) :
    ipv6 R (string c) = some c.parsed := by
  obtain ⟨family, words, n⟩ := c
  obtain rfl : family = .inet6 := hfamily
  have height : words.length = 8 := h.stands.length
  have hwords : InWords 16 words := h.stands.words
  obtain ⟨u, us, v, rfl⟩ : ∃ u us v, words = u :: us ++ [v] := by
    obtain ⟨u, rest, rfl⟩ := List.exists_cons_of_length_eq_add_one height
    have hne : rest ≠ [] := by
      rintro rfl
      cases height
    exact ⟨u, rest.dropLast, rest.getLast hne, by
      rw [List.cons_append, List.dropLast_append_getLast]⟩
  have hv : 0 ≤ v ∧ v < 2 ^ 16 := hwords v (List.mem_append_right _ List.mem_cons_self)
  have hus : InWords 16 (u :: us) := fun w hw => hwords w (List.mem_append_left _ hw)
  have hseven : (u :: us).length = 7 := by
    rw [List.length_append, List.length_singleton] at height
    exact Nat.succ.inj height
  let body := joined 0x3a ((u :: us ++ [v]).map wordText)
  have hplain : ∀ c ∈ body, c ≠ 0x2f ∧ c ≠ 0x5b := by
    intro c hc
    rcases mem_joined hc with rfl | ⟨t, ht, hct⟩
    · decide
    · obtain ⟨w, -, rfl⟩ := List.mem_map.mp ht
      have hdigit := upperHex_digits _ c hct
      exact ⟨hdigit.2.1, hdigit.2.2.2⟩
  have hshort : body.length ≤ 45 := by
    have hlen : body.length ≤ (4 + 1) * ((u :: us ++ [v]).map wordText).length := by
      apply length_joined
      intro t ht
      obtain ⟨w, hw, rfl⟩ := List.mem_map.mp ht
      have hrange := hwords w hw
      exact upperHex_length (by omega)
    rw [List.length_map, height] at hlen
    omega
  have hstart : body.head? ≠ some 0x3a := by
    obtain ⟨d, r, hdr⟩ := List.exists_cons_of_ne_nil (upperHex_ne_nil u.toNat)
    have hd := (upperHex_digits u.toNat d (by rw [hdr]; exact List.mem_cons_self)).2.2.1
    have hbody : body = upperHex u.toNat ++ 0x3a :: joined 0x3a ((us ++ [v]).map wordText) := by
      apply joined_cons
      rw [ne_eq, List.map_eq_nil_iff]
      exact List.append_ne_nil_of_right_ne_nil _ (List.cons_ne_nil _ _)
    rw [hbody, hdr]
    exact fun heq => hd (Option.some.inj heq)
  obtain ⟨text, hcut, hread⟩ := prefix_read R body n 128
    (fun hmem => (hplain _ hmem).1 rfl) h.low h.high (by decide)
  have hstring : string ⟨.inet6, u :: us ++ [v], n⟩ = body ++ prefixText n 128 := rfl
  have hgroups : groups (body.length + 1) body [] none =
      some (wordText v, (u :: us).map Int.cast, none) :=
    groups_words hus ((Nat.zero_add _).trans hseven) (by
      have hmin := joined_length 0x3a ((u :: us ++ [v]).map wordText)
      rw [List.length_map, height] at hmin
      rw [hseven]
      exact Nat.le_trans (Nat.le_of_succ_le_succ hmin) (Nat.le_succ _))
  rw [hstring, ipv6, hcut]
  dsimp only
  rw [unbracket_plain fun c hc => (hplain c hc).2,
    show (128 : Rat) = ((128 : Int) : Rat) from rfl, hread]
  dsimp only [Option.bind_eq_bind, Option.bind_some]
  rw [if_neg (Nat.not_lt.mpr hshort), if_neg hstart, hgroups]
  dsimp only [Option.bind_some]
  rw [lastChunk_word hv]
  dsimp only [Option.bind_some, fillZeros]
  have hall : (u :: us).map (Int.cast : Int → Rat) ++ [(v : Rat)] =
      (u :: us ++ [v]).map Int.cast := by
    rw [List.map_append]
    rfl
  rw [hall, if_pos (by rw [List.length_map, height])]
  rfl

end Groups

def parseAs (R : Reals) : Family → List U8 → Option (Cidr Rat)
  | .inet4 => ipv4 R
  | .inet6 => ipv6 R

/-- Printing and parsing agree. -/
theorem string_parsed (R : Reals) (c : Cidr Int) (h : IsSubnet c) :
    parseAs R c.family (string c) = some c.parsed := by
  cases hfamily : c.family with
  | inet4 => exact ipv4_string h hfamily
  | inet6 => exact ipv6_string h hfamily

theorem string_parsed_example :
    parseAs wholeReals exampleCidr.family (string exampleCidr) = some exampleCidr.parsed :=
  string_parsed wholeReals exampleCidr exampleCidr_subnet

end OpenwrtMtk.Luci.Ip
