import Mathlib.Data.List.Forall2
import Mathlib.Data.List.Induction
import OpenwrtMtk.Luci.IpReading

/-!
# The text forms are read

Groups of hexadecimal digits and dotted quads are read as the numbers they stand for, and the text
forms of IPv6 addresses by the groups on both sides of a gap and a last piece.
-/

namespace OpenwrtMtk.Luci.Ip

open Toolkit

set_option autoImplicit false

section Groups

variable {t : List U8} {c : U8} {v v' : Nat}

theorem hexDigit_value (c : U8) : (hexValue c).getD 0 < 16 := by
  unfold hexValue isdigit
  simp only [Bool.and_eq_true, decide_eq_true_eq]
  split_ifs <;> simp only [Option.getD_some, Option.getD_none] <;> omega

theorem hexDigit_plain (c : U8) (h : isDigitOf 16 c = true) : c ≠ 0x3a ∧ c ≠ 0x2f ∧ c ≠ 0x5b := by
  refine ⟨?_, ?_, ?_⟩ <;> rintro rfl <;> exact absurd h (by decide)

theorem digitsValue_lt (ds : List U8) : digitsValue 16 ds < 16 ^ ds.length := by
  induction ds using List.reverseRecOn with
  | nil => decide
  | append_singleton ds c ih =>
    have hc := hexDigit_value c
    rw [digitsValue_concat, List.length_append, List.length_singleton, pow_succ]
    omega

theorem Hextet.lt (h : Hextet t v) : v ≤ 0xffff := by
  obtain ⟨-, hlen, -, rfl⟩ := h
  have hlt := digitsValue_lt t
  have hpow : 16 ^ t.length ≤ 16 ^ 4 := Nat.pow_le_pow_right (by decide) hlen
  omega

theorem Hextet.read (h : Hextet t v) : group16 t = some v := by
  have hlt := h.lt
  obtain ⟨hne, -, hdigits, rfl⟩ := h
  rw [group16, tonumber16_digits hdigits hne (by omega), Option.filter_some,
    if_pos (decide_eq_true hlt)]

theorem Hextet.value (h : Hextet t v) (hread : group16 t = some v') : v = v' := by
  rw [h.read] at hread
  exact Option.some.inj hread

theorem Hextet.no_colon (h : Hextet t v) : 0x3a ∉ t := by
  intro hmem
  exact (hexDigit_plain _ (h.2.2.1 _ hmem)).1 rfl

def AreHextets (l : Groups) : Prop := ∀ g ∈ l, Hextet g.1 g.2

theorem AreHextets.isGroups {l : Groups} (h : AreHextets l) : IsGroups l := by
  intro g hg
  exact ⟨(h g hg).no_colon, (h g hg).read⟩

theorem areHextets_iff {l : Groups} : AreHextets l ↔ Hextets (l.map Prod.fst) l.values := by
  rw [Groups.values, Hextets, List.forall₂_map_left_iff, List.forall₂_map_right_iff,
    List.forall₂_same]
  rfl

theorem Hextets.groups {ts : List (List U8)} {ws : List Nat} (h : Hextets ts ws) :
    ∃ l : Groups, AreHextets l ∧ ts = l.map Prod.fst ∧ ws = l.values := by
  induction h with
  | nil => exact ⟨[], nofun, rfl, rfl⟩
  | @cons t v ts ws ht _ ih =>
    obtain ⟨l, hl, rfl, rfl⟩ := ih
    exact ⟨(t, v) :: l, List.forall_mem_cons.mpr ⟨ht, hl⟩, rfl, rfl⟩

theorem length_text {l : Groups} (h : AreHextets l) : l.text.length ≤ 5 * l.length := by
  induction l with
  | nil => exact Nat.zero_le _
  | cons g l ih =>
    obtain ⟨hg, hl⟩ := List.forall_mem_cons.mp h
    have hrest := ih hl
    have hlen := hg.2.1
    rw [text_cons, List.length_append, List.length_cons, List.length_cons, Nat.mul_succ]
    omega

theorem joined_concat (l : Groups) (t : List U8) :
    joined 0x3a (l.map Prod.fst ++ [t]) = l.text ++ t := by
  induction l with
  | nil => rfl
  | cons g l ih =>
    rw [List.map_cons, List.cons_append, joined_cons (by simp), ih, text_cons, List.append_assoc,
      List.cons_append]

def opening (l : Groups) : List U8 := if l = [] then [0x3a] else l.text

theorem joined_colon (l : Groups) (x : List U8) :
    joined 0x3a (l.map Prod.fst) ++ 0x3a :: x = opening l ++ x := by
  induction l using List.reverseRecOn with
  | nil => rfl
  | append_singleton l g _ =>
    rw [List.map_append, List.map_singleton, joined_concat, opening, if_neg (by simp), Groups.text,
      Groups.text, List.flatMap_append, List.flatMap_singleton, List.append_assoc,
      List.append_assoc, List.append_assoc]
    rfl

theorem head_text {l : Groups} (h : AreHextets l) (hne : l ≠ []) (x : List U8) :
    (l.text ++ x).head? ≠ some 0x3a := by
  obtain ⟨g, l, rfl⟩ := List.exists_cons_of_ne_nil hne
  have hg := h g List.mem_cons_self
  obtain ⟨d, t, ht⟩ := List.exists_cons_of_ne_nil hg.1
  rw [text_cons, ht]
  intro heq
  have hd : d = 0x3a := Option.some.inj heq
  apply hg.no_colon
  rw [ht, hd]
  exact List.mem_cons_self

theorem bodyOf_opening {l : Groups} (h : AreHextets l) (x : List U8) :
    bodyOf (opening l ++ 0x3a :: x) = l.text ++ 0x3a :: x := by
  by_cases hne : l = []
  · rw [hne]
    rfl
  · rw [opening, if_neg hne, bodyOf, if_neg (head_text h hne _)]

theorem opening_of_body {l : Groups} {a x : List U8} (hbody : bodyOf a = l.text ++ 0x3a :: x)
    (hleading : a.head? = some 0x3a → l = []) : a = opening l ++ 0x3a :: x := by
  by_cases hhead : a.head? = some 0x3a
  · obtain ⟨r, rfl⟩ := List.head?_eq_some_iff.mp hhead
    have hl := hleading hhead
    rw [bodyOf, if_pos hhead] at hbody
    rw [hl] at hbody ⊢
    exact congrArg (List.cons 0x3a) hbody
  · rw [bodyOf, if_neg hhead] at hbody
    have hne : l ≠ [] := by
      rintro rfl
      rw [hbody] at hhead
      exact hhead rfl
    rw [opening, if_neg hne]
    exact hbody

end Groups

section Quads

variable {R : Reals} {d t : List U8} {b : Nat} {ws : List Nat} {x : Rat}

theorem isNumber_iff : isNumber d = true ↔ d ≠ [] ∧ ∀ c ∈ d, isdigit c = true := by
  rw [isNumber, Bool.and_eq_true, decide_eq_true_eq, List.all_eq_true]

theorem isNumber_no_dot (h : isNumber d = true) : 0x2e ∉ d := by
  intro hmem
  exact (isdigit_plain _ ((isNumber_iff.mp h).2 _ hmem)).2.1 rfl

theorem Octet.read (h : Octet d b) : readBlock R d = some (b : Rat) := by
  obtain ⟨hnumber, rfl, hle⟩ := h
  obtain ⟨hne, hdigits⟩ := isNumber_iff.mp hnumber
  obtain ⟨x, hx, hexact, -⟩ := tonumber_digits R hdigits hne
  have hcast : ((digitsValue 10 d : Nat) : Rat) ≤ 255 := by exact_mod_cast hle
  rw [readBlock, hx, hexact (by omega)]
  dsimp only [Option.bind_eq_bind, Option.bind_some]
  rw [if_pos hcast]

theorem octet_of_read (hnumber : isNumber d = true) (h : readBlock R d = some x) :
    ∃ b, Octet d b ∧ x = b := by
  obtain ⟨hne, hdigits⟩ := isNumber_iff.mp hnumber
  obtain ⟨y, hy, hexact, hlarge⟩ := tonumber_digits R hdigits hne
  rw [readBlock, hy] at h
  dsimp only [Option.bind_eq_bind, Option.bind_some] at h
  split at h
  · rename_i hle
    cases h
    by_cases hsmall : digitsValue 10 d < 2 ^ 31
    · have heq := hexact hsmall
      rw [heq] at hle
      exact ⟨_, ⟨hnumber, rfl, by exact_mod_cast hle⟩, heq⟩
    · have hge := hlarge (Nat.le_of_not_lt hsmall)
      exact absurd (le_trans hge hle) (by decide)
  · cases h

theorem quadWords_octets {d₁ d₂ d₃ d₄ : List U8} {b₁ b₂ b₃ b₄ : Nat} (h₁ : Octet d₁ b₁)
    (h₂ : Octet d₂ b₂) (h₃ : Octet d₃ b₃) (h₄ : Octet d₄ b₄) :
    quadWords R (d₁, d₂, d₃, d₄) = some (rats [b₁ * 256 + b₂, b₃ * 256 + b₄]) := by
  rw [quadWords, h₁.read, h₂.read, h₃.read, h₄.read]
  dsimp only [Option.bind_eq_bind, Option.bind_some, rats, List.map_cons, List.map_nil]
  rw [List.map_cons, List.map_singleton]
  push_cast
  rfl

theorem quad_split {d₁ d₂ d₃ d₄ : List U8} (h₁ : 0x2e ∉ d₁) (h₂ : 0x2e ∉ d₂) (h₃ : 0x2e ∉ d₃) :
    splitFirst 0x2e (joined 0x2e [d₁, d₂, d₃, d₄]) = some (d₁, joined 0x2e [d₂, d₃, d₄]) ∧
      splitFirst 0x2e (joined 0x2e [d₂, d₃, d₄]) = some (d₂, joined 0x2e [d₃, d₄]) ∧
      splitFirst 0x2e (joined 0x2e [d₃, d₄]) = some (d₃, d₄) :=
  ⟨splitFirst_append _ h₁, splitFirst_append _ h₂, splitFirst_append _ h₃⟩

theorem Quad.cut (h : Quad t ws) : (cutQuad t).bind (quadWords R) = some (rats ws) := by
  obtain ⟨d₁, d₂, d₃, d₄, b₁, b₂, b₃, b₄, h₁, h₂, h₃, h₄, rfl, rfl⟩ := h
  obtain ⟨hfirst, hsecond, hthird⟩ := @quad_split _ _ _ d₄ (isNumber_no_dot h₁.1)
    (isNumber_no_dot h₂.1) (isNumber_no_dot h₃.1)
  rw [cutQuad, hfirst]
  dsimp only [Option.bind_eq_bind, Option.bind_some]
  rw [hsecond]
  dsimp only [Option.bind_some]
  rw [hthird]
  dsimp only [Option.bind_some]
  rw [splitFirst_of_not_mem (isNumber_no_dot h₄.1)]
  exact quadWords_octets h₁ h₂ h₃ h₄

theorem Quad.match (h : Quad t ws) : (matchQuad t).bind (quadWords R) = some (rats ws) := by
  obtain ⟨d₁, d₂, d₃, d₄, b₁, b₂, b₃, b₄, h₁, h₂, h₃, h₄, rfl, rfl⟩ := h
  obtain ⟨hfirst, hsecond, hthird⟩ := @quad_split _ _ _ d₄ (isNumber_no_dot h₁.1)
    (isNumber_no_dot h₂.1) (isNumber_no_dot h₃.1)
  rw [matchQuad, hfirst]
  dsimp only [Option.bind_eq_bind, Option.bind_some]
  rw [hsecond]
  dsimp only [Option.bind_some]
  rw [hthird]
  dsimp only [Option.bind_some]
  rw [h₁.1, h₂.1, h₃.1, h₄.1]
  exact quadWords_octets h₁ h₂ h₃ h₄

theorem quad_of_match {x : List Rat} (h : (matchQuad t).bind (quadWords R) = some x) :
    ∃ ws, Quad t ws ∧ x = rats ws := by
  obtain ⟨b, hmatch, hwords⟩ := Option.bind_eq_some_iff.mp h
  obtain ⟨⟨d₁, s₁⟩, hfirst, hmatch₁⟩ := Option.bind_eq_some_iff.mp hmatch
  obtain ⟨⟨d₂, s₂⟩, hsecond, hmatch₂⟩ := Option.bind_eq_some_iff.mp hmatch₁
  obtain ⟨⟨d₃, d₄⟩, hthird, hmatch₃⟩ := Option.bind_eq_some_iff.mp hmatch₂
  obtain ⟨rfl, -⟩ := splitFirst_eq_some hfirst
  obtain ⟨rfl, -⟩ := splitFirst_eq_some hsecond
  obtain ⟨rfl, -⟩ := splitFirst_eq_some hthird
  dsimp only at hmatch₃
  split at hmatch₃
  · rename_i hnumbers
    cases hmatch₃
    rw [Bool.and_eq_true, Bool.and_eq_true, Bool.and_eq_true] at hnumbers
    obtain ⟨⟨⟨hn₁, hn₂⟩, hn₃⟩, hn₄⟩ := hnumbers
    obtain ⟨x₁, hx₁, hwords⟩ := Option.bind_eq_some_iff.mp hwords
    obtain ⟨x₂, hx₂, hwords⟩ := Option.bind_eq_some_iff.mp hwords
    obtain ⟨x₃, hx₃, hwords⟩ := Option.bind_eq_some_iff.mp hwords
    obtain ⟨x₄, hx₄, hwords⟩ := Option.bind_eq_some_iff.mp hwords
    obtain ⟨b₁, h₁, rfl⟩ := octet_of_read hn₁ hx₁
    obtain ⟨b₂, h₂, rfl⟩ := octet_of_read hn₂ hx₂
    obtain ⟨b₃, h₃, rfl⟩ := octet_of_read hn₃ hx₃
    obtain ⟨b₄, h₄, rfl⟩ := octet_of_read hn₄ hx₄
    cases hwords
    refine ⟨_, ⟨d₁, d₂, d₃, d₄, b₁, b₂, b₃, b₄, h₁, h₂, h₃, h₄, rfl, rfl⟩, ?_⟩
    rw [rats, List.map_cons, List.map_singleton]
    push_cast
    rfl
  · cases hmatch₃

theorem Octet.length_pos (h : Octet d b) : 0 < d.length :=
  List.length_pos_iff.mpr (isNumber_iff.mp h.1).1

theorem Quad.length_ge (h : Quad t ws) : 7 ≤ t.length ∧ ws.length = 2 := by
  obtain ⟨d₁, d₂, d₃, d₄, b₁, b₂, b₃, b₄, h₁, h₂, h₃, h₄, rfl, rfl⟩ := h
  have hp₁ := h₁.length_pos
  have hp₂ := h₂.length_pos
  have hp₃ := h₃.length_pos
  have hp₄ := h₄.length_pos
  refine ⟨?_, rfl⟩
  simp only [joined, List.length_append, List.length_cons]
  omega

theorem Quad.chars {c : U8} (h : Quad t ws) (hc : c ∈ t) : c = 0x2e ∨ isdigit c = true := by
  obtain ⟨d₁, d₂, d₃, d₄, b₁, b₂, b₃, b₄, h₁, h₂, h₃, h₄, rfl, rfl⟩ := h
  rcases mem_joined hc with rfl | ⟨d, hd, hmem⟩
  · exact Or.inl rfl
  · apply Or.inr
    simp only [List.mem_cons, List.not_mem_nil, or_false] at hd
    rcases hd with rfl | rfl | rfl | rfl
    · exact (isNumber_iff.mp h₁.1).2 c hmem
    · exact (isNumber_iff.mp h₂.1).2 c hmem
    · exact (isNumber_iff.mp h₃.1).2 c hmem
    · exact (isNumber_iff.mp h₄.1).2 c hmem

theorem Quad.no_colon (h : Quad t ws) : 0x3a ∉ t := by
  intro hmem
  rcases h.chars hmem with hdot | hdigit
  · cases hdot
  · exact (isdigit_plain _ hdigit).2.2.1 rfl

end Quads

section Forms

variable {R : Reals} {a chunk : List U8} {us ws : List Nat} {l r : Groups} {ts : List (List U8)}

/-- What stands behind the last group with a colon. -/
inductive LastPiece : List U8 → List Nat → Prop where
  | none : LastPiece [] []
  | hextet {t : List U8} {v : Nat} : Hextet t v → LastPiece t [v]
  | quad {t : List U8} {us : List Nat} : Quad t us → LastPiece t us

/-- Pieces as groups with their colons and a last piece. -/
structure Ending (r : Groups) (chunk : List U8) (us : List Nat) : Prop where
  hextets : AreHextets r
  last : LastPiece chunk us
  trailing : chunk = [] → r = []

theorem LastPiece.no_colon (h : LastPiece chunk us) : 0x3a ∉ chunk := by
  cases h with
  | none => exact nofun
  | hextet h => exact h.no_colon
  | quad h => exact h.no_colon

theorem Pieces.ending (h : Pieces ts ws) : ∃ r chunk us, Ending r chunk us ∧
    joined 0x3a ts = r.text ++ chunk ∧ ws = r.values ++ us := by
  cases h with
  | hextets h =>
    obtain ⟨l, hl, rfl, rfl⟩ := h.groups
    rcases List.eq_nil_or_concat' l with rfl | ⟨r, g, rfl⟩
    · exact ⟨[], [], [], ⟨nofun, .none, fun _ => rfl⟩, rfl, rfl⟩
    · have hr : AreHextets r := fun g hg => hl g (List.mem_append_left _ hg)
      have hg : Hextet g.1 g.2 := hl g (List.mem_append_right _ List.mem_cons_self)
      refine ⟨r, g.1, [g.2], ⟨hr, .hextet hg, fun hnil => absurd hnil hg.1⟩, ?_, ?_⟩
      · rw [List.map_append, List.map_singleton, joined_concat]
      · exact List.map_append
  | @mixed _ _ us q h hq =>
    obtain ⟨r, hr, rfl, rfl⟩ := h.groups
    have hne : q ≠ [] := by
      rintro rfl
      exact absurd hq.length_ge.1 (by decide)
    exact ⟨r, q, us, ⟨hr, .quad hq, fun hnil => absurd hnil hne⟩, joined_concat r q, rfl⟩

theorem Ending.pieces (h : Ending r chunk us) :
    ∃ ts, Pieces ts (r.values ++ us) ∧ joined 0x3a ts = r.text ++ chunk := by
  obtain ⟨hr, hlast, htrailing⟩ := h
  cases hlast with
  | none =>
    rw [htrailing rfl]
    exact ⟨[], .hextets .nil, rfl⟩
  | hextet ht =>
    refine ⟨r.map Prod.fst ++ [chunk], .hextets ?_, joined_concat r chunk⟩
    exact List.rel_append (areHextets_iff.mp hr) (.cons ht .nil)
  | quad hq =>
    exact ⟨r.map Prod.fst ++ [chunk], .mixed (areHextets_iff.mp hr) hq, joined_concat r chunk⟩

/-- The text forms by their groups. -/
inductive Form : List U8 → List Nat → Prop where
  | full {r : Groups} {chunk : List U8} {us : List Nat} : Ending r chunk us →
      r.length + us.length = 8 → Form (r.text ++ chunk) (r.values ++ us)
  | compressed {l r : Groups} {chunk : List U8} {us : List Nat} : AreHextets l →
      Ending r chunk us → l.length + (r.length + us.length) ≤ 7 →
      Form (opening l ++ 0x3a :: (r.text ++ chunk))
        (l.values ++ List.replicate (8 - (l.length + (r.length + us.length))) 0 ++
          (r.values ++ us))

theorem length_values_append : (r.values ++ us).length = r.length + us.length := by
  rw [List.length_append, length_values]

theorem addressText_iff : AddressText a ws ↔ Form a ws := by
  constructor
  · intro h
    cases h with
    | full hpieces height =>
      obtain ⟨r, chunk, us, hending, hjoined, rfl⟩ := hpieces.ending
      rw [length_values_append] at height
      rw [hjoined]
      exact .full hending height
    | compressed hleft hpieces hless =>
      obtain ⟨l, hl, rfl, rfl⟩ := hleft.groups
      obtain ⟨r, chunk, us, hending, hjoined, rfl⟩ := hpieces.ending
      rw [length_values, length_values_append] at hless
      rw [hjoined, joined_colon, length_values, length_values_append]
      exact .compressed hl hending hless
  · intro h
    cases h with
    | full hending height =>
      obtain ⟨ts, hpieces, hjoined⟩ := hending.pieces
      rw [← length_values_append] at height
      rw [← hjoined]
      exact .full hpieces height
    | @compressed l r chunk us hl hending hless =>
      obtain ⟨ts, hpieces, hjoined⟩ := hending.pieces
      rw [← length_values l, ← length_values_append] at hless ⊢
      rw [← hjoined, ← joined_colon]
      exact .compressed (areHextets_iff.mp hl) hpieces hless

end Forms

end OpenwrtMtk.Luci.Ip
