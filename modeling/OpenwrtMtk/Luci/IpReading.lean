import OpenwrtMtk.Luci.IpRoundTrip

/-!
# The texts of addresses

Dotted quads, the text forms of IPv6 addresses (full, compressed, and either with a trailing dotted
quad), and how an address is given: in brackets or not, with a prefix length or not. And how `IPv6`
divides any text at its colons, with the groups that `tonumber` reads as numbers.
-/

namespace OpenwrtMtk.Luci.Ip

open Toolkit

set_option autoImplicit false

def Octet (d : List U8) (b : Nat) : Prop := isNumber d = true ∧ digitsValue 10 d = b ∧ b ≤ 255

def Quad (t : List U8) (ws : List Nat) : Prop :=
  ∃ d₁ d₂ d₃ d₄ b₁ b₂ b₃ b₄, Octet d₁ b₁ ∧ Octet d₂ b₂ ∧ Octet d₃ b₃ ∧ Octet d₄ b₄ ∧
    t = joined 0x2e [d₁, d₂, d₃, d₄] ∧ ws = [b₁ * 256 + b₂, b₃ * 256 + b₄]

def Hextet (t : List U8) (v : Nat) : Prop :=
  t ≠ [] ∧ t.length ≤ 4 ∧ (∀ c ∈ t, isDigitOf 16 c = true) ∧ digitsValue 16 t = v

abbrev Hextets : List (List U8) → List Nat → Prop := List.Forall₂ Hextet

inductive Pieces : List (List U8) → List Nat → Prop where
  | hextets {ts : List (List U8)} {ws : List Nat} : Hextets ts ws → Pieces ts ws
  | mixed {ts : List (List U8)} {vs us : List Nat} {q : List U8} : Hextets ts vs → Quad q us →
      Pieces (ts ++ [q]) (vs ++ us)

/-- The text forms of an IPv6 address. Two colons stand for one or more groups of zeros. -/
inductive AddressText : List U8 → List Nat → Prop where
  | full {ts : List (List U8)} {ws : List Nat} : Pieces ts ws → ws.length = 8 →
      AddressText (joined 0x3a ts) ws
  | compressed {l r : List (List U8)} {vs us : List Nat} : Hextets l vs → Pieces r us →
      vs.length + us.length ≤ 7 →
      AddressText (joined 0x3a l ++ 0x3a :: 0x3a :: joined 0x3a r)
        (vs ++ List.replicate (8 - (vs.length + us.length)) 0 ++ us)

def SevenGroups (a : List U8) : Prop :=
  ∃ l vs, Hextets l vs ∧ l.length = 7 ∧ a = joined 0x3a l ++ [0x3a, 0x3a]

/-- More than 15 characters behind the last colon. -/
def LongTail (a : List U8) : Prop := ∃ pre q, a = pre ++ 0x3a :: q ∧ 0x3a ∉ q ∧ 15 < q.length

def Enclosed (b a : List U8) : Prop := b = a ∨ b = 0x5b :: a ++ [0x5d]

/-- An address with a decimal prefix length up to `max`, or without one. -/
def Written (max : Nat) (s a : List U8) (p : Nat) : Prop :=
  ∃ b, Enclosed b a ∧
    (s = b ∧ p = max ∨
      ∃ ds, isNumber ds = true ∧ digitsValue 10 ds = p ∧ p ≤ max ∧ s = b ++ 0x2f :: ds)

/-- `::FFFF:` in any case. -/
def mapped (pre : List U8) : Prop := pre.map upperByte = latin "::FFFF:"

def madeOf (family : Family) (ws : List Nat) (p : Nat) : Cidr Rat :=
  ⟨family, ws.map Nat.cast, p⟩

def Address4 (s : List U8) (c : Cidr Rat) : Prop :=
  ∃ pre a p ws, (pre = [] ∨ mapped pre) ∧ Quad a ws ∧ Written 32 s (pre ++ a) p ∧
    c = madeOf .inet4 ws p

def Address6 (s : List U8) (c : Cidr Rat) : Prop :=
  ∃ a p ws, AddressText a ws ∧ Written 128 s a p ∧ c = madeOf .inet6 ws p

section Readings

/-- A text that `tonumber` reads as a group. -/
def group16 (t : List U8) : Option Nat := (tonumber16 t).filter (· ≤ 0xffff)

abbrev Groups := List (List U8 × Nat)

def IsGroups (l : Groups) : Prop := ∀ g ∈ l, 0x3a ∉ g.1 ∧ group16 g.1 = some g.2

def Groups.text (l : Groups) : List U8 := l.flatMap fun g => g.1 ++ [0x3a]

def Groups.values (l : Groups) : List Nat := l.map Prod.snd

/-- Where the division at colons ends: behind seven groups, or where there is no further colon. -/
def Stops (n : Nat) (chunk : List U8) : Prop := n = 7 ∨ n < 7 ∧ 0x3a ∉ chunk

/-- The text behind a leading colon divided into groups, at most one gap with the groups behind it,
and the rest. A gap is a piece of at most one character that is no group. -/
inductive Reads : List U8 → Groups → Option (List U8 × Groups) → List U8 → Prop where
  | plain {l : Groups} {chunk : List U8} : IsGroups l → Stops l.length chunk →
      Reads (l.text ++ chunk) l none chunk
  | gap {l r : Groups} {g chunk : List U8} : IsGroups l → l.length < 7 → 0x3a ∉ g →
      g.length ≤ 1 → group16 g = none → IsGroups r → Stops (l.length + r.length) chunk →
      Reads (l.text ++ (g ++ 0x3a :: (r.text ++ chunk))) l (some (g, r)) chunk

def behind : Option (List U8 × Groups) → Groups
  | none => []
  | some (_, r) => r

/-- What the text behind the last colon is read as, with `n` numbers before it. -/
inductive Tail (R : Reals) (n : Nat) : List U8 → List Rat → Prop where
  | none : Tail R n [] []
  | group {t : List U8} {v : Nat} : t.length ≤ 4 → group16 t = some v → Tail R n t [(v : Rat)]
  | quad {t : List U8} {ws : List Rat} : 4 < t.length → t.length ≤ 15 → n ≠ 7 →
      (cutQuad t).bind (quadWords R) = some ws → Tail R n t ws

/-- A text as `IPv6` divides it. -/
structure Reading where
  address : List U8
  text : Option (List U8)
  left : Groups
  gap : Option (List U8 × Groups)
  chunk : List U8

def bodyOf (address : List U8) : List U8 :=
  if address.head? = some 0x3a then address.tail else address

def Reading.Of (s : List U8) (rd : Reading) : Prop :=
  ∃ b, cutPrefix s = (b, rd.text) ∧ rd.address = unbracket b ∧
    Reads (bodyOf rd.address) rd.left rd.gap rd.chunk

def Reading.right (rd : Reading) : Groups := behind rd.gap

def Complete (gap : Option (List U8 × Groups)) (n : Nat) : Prop :=
  if gap.isSome then n < 8 else n = 8

/-- The prefix length and the words that a reading is accepted with. -/
structure Accepted (R : Reals) (rd : Reading) (p : Rat) (ws : List Rat) : Prop where
  prefixLen : readPrefix R rd.text 128 = some p
  short : rd.address.length ≤ 45
  words : ∃ tail, Tail R (rd.left.length + rd.right.length) rd.chunk tail ∧
    Complete rd.gap (rd.left.length + rd.right.length + tail.length) ∧
    ws = rd.left.values.map Nat.cast ++
      List.replicate (8 - (rd.left.length + rd.right.length + tail.length)) 0 ++
      (rd.right.values.map Nat.cast ++ tail)

/-- How a reading differs from those of the text forms. -/
inductive Deviates (rd : Reading) : Prop where
  | prefixLength {text : List U8} : rd.text = some text → isNumber text = false → Deviates rd
  | group {g : List U8 × Nat} : g ∈ rd.left ++ rd.right → ¬Hextet g.1 g.2 → Deviates rd
  | gap {g : List U8} {r : Groups} : rd.gap = some (g, r) → g ≠ [] → Deviates rd
  | leadingColon : rd.address.head? = some 0x3a → rd.gap = none ∨ rd.left ≠ [] → Deviates rd
  | trailingColon : rd.chunk = [] → rd.right ≠ [] → Deviates rd
  | tail : rd.chunk ≠ [] → (∀ v, ¬Hextet rd.chunk v) → (∀ ws, ¬Quad rd.chunk ws) → Deviates rd

end Readings

section Regular

variable (R : Reals) (s : List U8)

def Loose4 : Prop :=
  ∃ b text pre a ws n, s = b ++ 0x2f :: text ∧ Enclosed b (pre ++ a) ∧ (pre = [] ∨ mapped pre) ∧
    Quad a ws ∧ isNumber text = false ∧ readPrefix R (some text) 32 = some n

def Loose6 : Prop := ∃ rd p ws, rd.Of s ∧ Accepted R rd p ws ∧ Deviates rd

def Unread6 : Prop := ∃ a ws p, AddressText a ws ∧ Written 128 s a p ∧ (SevenGroups a ∨ LongTail a)

end Regular

end OpenwrtMtk.Luci.Ip

/-!
## How IPv6 reads a text

The loop over the colons of a text finds its reading, of which there is at most one. The address is
what the reading says.
-/

namespace OpenwrtMtk.Luci.Ip

open Toolkit

set_option autoImplicit false

def rats (ws : List Nat) : List Rat := ws.map Nat.cast

section Loop

variable {turns n : Nat} {body chunk x t : List U8} {data data' : List Rat} {z z' : Option Nat}
  {l r : Groups} {v : Nat}

theorem rats_append (vs us : List Nat) : rats (vs ++ us) = rats vs ++ rats us := List.map_append

theorem length_rats (ws : List Nat) : (rats ws).length = ws.length := List.length_map _

theorem length_values (l : Groups) : l.values.length = l.length := List.length_map _

theorem values_cons (g : List U8 × Nat) (l : Groups) :
    Groups.values (g :: l) = g.2 :: l.values := rfl

theorem text_cons (g : List U8 × Nat) (l : Groups) :
    Groups.text (g :: l) = g.1 ++ 0x3a :: l.text := by
  rw [Groups.text, List.flatMap_cons, List.append_assoc]
  rfl

theorem takeGroup_some (h : group16 t = some v) :
    takeGroup t data z = some (data ++ [(v : Rat)], z) := by
  rw [group16] at h
  rw [takeGroup, h]

theorem takeGroup_none (h : group16 t = none) :
    takeGroup t data z =
      if z.isSome ∨ 1 < t.length then none else some (data, some (data.length + 1)) := by
  rw [group16] at h
  rw [takeGroup, h]

theorem groups_none (h : 0x3a ∉ body) (hturns : 0 < turns) :
    groups turns body data z = some (body, data, z) := by
  obtain ⟨turns, rfl⟩ := Nat.exists_eq_succ_of_ne_zero hturns.ne'
  rw [groups, splitFirst_of_not_mem h]

theorem groups_group (ht : 0x3a ∉ t) (h : group16 t = some v) (x : List U8) :
    groups (turns + 1) (t ++ 0x3a :: x) data z =
      if data.length = 6 then some (x, data ++ [(v : Rat)], z)
      else groups turns x (data ++ [(v : Rat)]) z := by
  rw [groups, splitFirst_append _ ht]
  dsimp only
  rw [takeGroup_some h]
  dsimp only [Option.bind_eq_bind, Option.bind_some]
  rw [List.length_append, List.length_singleton]
  by_cases hsix : data.length = 6
  · rw [if_pos (by omega), if_pos hsix]
  · rw [if_neg (by omega), if_neg hsix]

theorem groups_gap (ht : 0x3a ∉ t) (h : group16 t = none) (x : List U8) :
    groups (turns + 1) (t ++ 0x3a :: x) data z =
      if z.isSome ∨ 1 < t.length then none
      else if data.length = 7 then some (x, data, some (data.length + 1))
      else groups turns x data (some (data.length + 1)) := by
  rw [groups, splitFirst_append _ ht]
  dsimp only
  rw [takeGroup_none h]
  split
  · rfl
  · rfl

theorem isGroups_cons (ht : 0x3a ∉ t) (h : group16 t = some v) (hl : IsGroups l) :
    IsGroups ((t, v) :: l) :=
  List.forall_mem_cons.mpr ⟨⟨ht, h⟩, hl⟩

theorem groups_reads (h : groups turns body data z = some (chunk, data', z'))
    (hlt : data.length < 7) :
    (∃ l, IsGroups l ∧ body = l.text ++ chunk ∧ Stops (data.length + l.length) chunk ∧
      data' = data ++ rats l.values ∧ z' = z) ∨
    (z = none ∧ ∃ l g r, IsGroups l ∧ data.length + l.length < 7 ∧ 0x3a ∉ g ∧ g.length ≤ 1 ∧
      group16 g = none ∧ IsGroups r ∧ Stops (data.length + l.length + r.length) chunk ∧
      body = l.text ++ (g ++ 0x3a :: (r.text ++ chunk)) ∧
      data' = data ++ rats l.values ++ rats r.values ∧ z' = some (data.length + l.length + 1)) := by
  induction turns generalizing body data z with
  | zero => cases h
  | succ turns ih =>
    cases hsplit : splitFirst 0x3a body with
    | none =>
      have hcolon := splitFirst_eq_none hsplit
      rw [groups_none hcolon (Nat.succ_pos turns)] at h
      cases h
      apply Or.inl
      exact ⟨[], nofun, rfl, Or.inr ⟨hlt, hcolon⟩, (List.append_nil _).symm, rfl⟩
    | some p =>
      obtain ⟨t, x⟩ := p
      obtain ⟨rfl, ht⟩ := splitFirst_eq_some hsplit
      cases hgroup : group16 t with
      | some v =>
        rw [groups_group ht hgroup] at h
        have hlong : (data ++ [(v : Rat)]).length = data.length + 1 := by
          rw [List.length_append, List.length_singleton]
        split at h
        · cases h
          apply Or.inl
          refine ⟨[(t, v)], isGroups_cons ht hgroup nofun, ?_, Or.inl ?_, rfl, rfl⟩
          · rw [text_cons, List.append_assoc]
            rfl
          · rw [List.length_singleton]
            omega
        · rcases ih h (by omega) with ⟨l, hl, rfl, hstop, rfl, rfl⟩ |
            ⟨rfl, l, g, r, hl, hless, hg, hshort, hnone, hr, hstop, rfl, rfl, rfl⟩
          · apply Or.inl
            refine ⟨(t, v) :: l, isGroups_cons ht hgroup hl, ?_, ?_, ?_, rfl⟩
            · rw [text_cons, List.append_assoc, List.cons_append]
            · rw [hlong] at hstop
              rw [List.length_cons, ← Nat.add_assoc, Nat.add_right_comm]
              exact hstop
            · rw [values_cons, List.append_assoc]
              rfl
          · apply Or.inr
            rw [hlong] at hstop hless ⊢
            refine ⟨rfl, (t, v) :: l, g, r, isGroups_cons ht hgroup hl, ?_, hg, hshort, hnone, hr,
              ?_, ?_, ?_, ?_⟩
            · rw [List.length_cons]
              omega
            · rw [List.length_cons, ← Nat.add_assoc, Nat.add_right_comm data.length]
              exact hstop
            · rw [text_cons, List.append_assoc, List.cons_append]
            · rw [values_cons, List.append_assoc data]
              rfl
            · rw [List.length_cons]
              congr 1
              omega
      | none =>
        rw [groups_gap ht hgroup] at h
        split at h
        · cases h
        · rename_i hgap
          rw [if_neg (by omega)] at h
          obtain ⟨hz, hshort⟩ := not_or.mp hgap
          have hz : z = none := Option.not_isSome_iff_eq_none.mp hz
          rcases ih h hlt with ⟨r, hr, rfl, hstop, rfl, rfl⟩ | ⟨hsome, -⟩
          · apply Or.inr
            exact ⟨hz, [], t, r, nofun, hlt, ht, Nat.le_of_not_lt hshort, hgroup, hr, hstop, rfl,
              by rw [show rats (Groups.values []) = [] from rfl, List.append_nil], rfl⟩
          · cases hsome

theorem groups_text (hl : IsGroups l) (hturns : (l.text ++ x).length < turns)
    (hlt : data.length < 7) (hle : data.length + l.length ≤ 7) :
    (data.length + l.length = 7 ∧
      groups turns (l.text ++ x) data z = some (x, data ++ rats l.values, z)) ∨
    (data.length + l.length < 7 ∧ ∃ turns', x.length < turns' ∧
      groups turns (l.text ++ x) data z = groups turns' x (data ++ rats l.values) z) := by
  induction l generalizing turns data with
  | nil =>
    apply Or.inr
    refine ⟨hlt, turns, hturns, ?_⟩
    rw [show rats (Groups.values []) = [] from rfl, List.append_nil]
    rfl
  | cons g l ih =>
    obtain ⟨⟨ht, hgroup⟩, hl⟩ := List.forall_mem_cons.mp hl
    rw [text_cons, List.append_assoc, List.cons_append] at hturns ⊢
    rw [List.length_append, List.length_cons] at hturns
    rw [List.length_cons] at hle ⊢
    obtain ⟨turns, rfl⟩ := Nat.exists_eq_succ_of_ne_zero (show turns ≠ 0 by omega)
    have hlong : (data ++ [(g.2 : Rat)]).length = data.length + 1 := by
      rw [List.length_append, List.length_singleton]
    have hvalues : data ++ rats (Groups.values (g :: l)) =
        data ++ [(g.2 : Rat)] ++ rats (Groups.values l) := by
      rw [List.append_assoc]
      rfl
    rw [groups_group ht hgroup, hvalues]
    by_cases hsix : data.length = 6
    · apply Or.inl
      have hnil : l = [] := List.eq_nil_of_length_eq_zero (by omega)
      subst hnil
      rw [if_pos hsix, show rats (Groups.values []) = [] from rfl, List.append_nil]
      exact ⟨by rw [List.length_nil]; omega, rfl⟩
    · rw [if_neg hsix]
      rcases @ih turns (data ++ [(g.2 : Rat)]) hl (by omega) (by omega) (by omega) with
        ⟨hseven, hrun⟩ | ⟨hless, turns', hx, hrun⟩
      · exact Or.inl ⟨by omega, hrun⟩
      · exact Or.inr ⟨by omega, turns', hx, hrun⟩

end Loop

section Readings

variable {turns n m : Nat} {body chunk chunk' x x' : List U8} {l l' : Groups}
  {gap gap' : Option (List U8 × Groups)}

/-- The place of the gap, as the loop keeps it. -/
def placeOf (l : Groups) : Option (List U8 × Groups) → Option Nat
  | none => none
  | some _ => some (l.length + 1)

theorem reads_of_groups {data : List Rat} {z : Option Nat}
    (h : groups turns body [] none = some (chunk, data, z)) :
    ∃ l gap, Reads body l gap chunk ∧ data = rats l.values ++ rats (behind gap).values ∧
      z = placeOf l gap := by
  rcases groups_reads h (by decide) with ⟨l, hl, rfl, hstop, rfl, rfl⟩ |
    ⟨-, l, g, r, hl, hless, hg, hshort, hnone, hr, hstop, rfl, rfl, rfl⟩
  · rw [List.length_nil, Nat.zero_add] at hstop
    exact ⟨l, none, .plain hl hstop, (List.append_nil _).symm, rfl⟩
  · rw [List.length_nil, Nat.zero_add] at hstop hless
    exact ⟨l, some (g, r), .gap hl hless hg hshort hnone hr hstop, rfl, by
      rw [List.length_nil, Nat.zero_add]
      rfl⟩

theorem groups_of_reads (h : Reads body l gap chunk) (hturns : body.length < turns) :
    groups turns body [] none =
      some (chunk, rats l.values ++ rats (behind gap).values, placeOf l gap) := by
  have hempty : ([] : List Rat) ++ rats l.values = rats l.values := rfl
  cases h with
  | plain hl hstop =>
    have hle : l.length ≤ 7 := by
      rcases hstop with h | ⟨h, -⟩ <;> omega
    have hrun := groups_text hl hturns (show ([] : List Rat).length < 7 by decide)
      (by rw [List.length_nil]; omega) (z := none)
    rw [List.length_nil, Nat.zero_add, hempty] at hrun
    rw [show rats (behind none).values = [] from rfl, List.append_nil]
    rcases hrun with ⟨-, hrun⟩ | ⟨hless, turns', hx, hrun⟩
    · exact hrun
    · rcases hstop with hseven | ⟨-, hcolon⟩
      · omega
      · rw [hrun, groups_none hcolon (by omega)]
        rfl
  | @gap _ r g _ hl hless hg hshort hnone hr hstop =>
    have hrun := groups_text hl hturns (show ([] : List Rat).length < 7 by decide)
      (by rw [List.length_nil]; omega) (z := none)
    rw [List.length_nil, Nat.zero_add, hempty] at hrun
    rcases hrun with ⟨hseven, -⟩ | ⟨-, turns', hx, hrun⟩
    · omega
    rw [List.length_append, List.length_cons] at hx
    obtain ⟨turns', rfl⟩ := Nat.exists_eq_succ_of_ne_zero (show turns' ≠ 0 by omega)
    have hlong : (rats l.values).length = l.length := by rw [length_rats, length_values]
    rw [hrun, groups_gap hg hnone, if_neg (by simp; omega), if_neg (by omega), hlong]
    have hle : l.length + r.length ≤ 7 := by
      rcases hstop with h | ⟨h, -⟩ <;> omega
    have hrest := groups_text hr (show (r.text ++ chunk).length < turns' by omega)
      (show (rats l.values).length < 7 by omega) (by omega) (z := some (l.length + 1))
    rw [hlong] at hrest
    rcases hrest with ⟨-, hrest⟩ | ⟨hless', turns'', hx', hrest⟩
    · exact hrest
    · rcases hstop with hseven | ⟨-, hcolon⟩
      · omega
      · rw [hrest, groups_none hcolon (by omega)]
        rfl

def Ends (n : Nat) (x : List U8) : Prop :=
  n = 7 ∨ n < 7 ∧ ∀ t rest, x = t ++ 0x3a :: rest → 0x3a ∉ t → group16 t = none

theorem Stops.ends (h : Stops n x) : Ends n x := by
  rcases h with h | ⟨h, hcolon⟩
  · exact Or.inl h
  · refine Or.inr ⟨h, ?_⟩
    rintro t rest rfl -
    exact absurd (List.mem_append_right t List.mem_cons_self) hcolon

theorem split_unique {t t' : List U8} (ht : 0x3a ∉ t) (ht' : 0x3a ∉ t')
    (h : t ++ 0x3a :: x = t' ++ 0x3a :: x') : t = t' ∧ x = x' := by
  have hsplit := splitFirst_append x ht
  rw [h, splitFirst_append x' ht'] at hsplit
  cases hsplit
  exact ⟨rfl, rfl⟩

theorem text_unique (hl : IsGroups l) (hl' : IsGroups l') (h : l.text ++ x = l'.text ++ x')
    (hx : Ends (n + l.length) x) (hx' : Ends (n + l'.length) x') : l = l' ∧ x = x' := by
  induction l generalizing l' n with
  | nil =>
    cases l' with
    | nil => exact ⟨rfl, h⟩
    | cons g l' =>
      obtain ⟨⟨ht, hgroup⟩, -⟩ := List.forall_mem_cons.mp hl'
      rcases hx with hseven | ⟨-, hx⟩
      · rcases hx' with hmore | ⟨hmore, -⟩
        · rw [List.length_cons] at hmore
          rw [List.length_nil] at hseven
          omega
        · rw [List.length_cons] at hmore
          rw [List.length_nil] at hseven
          omega
      · have hx0 : x = g.1 ++ 0x3a :: (Groups.text l' ++ x') := by
          rw [text_cons, List.append_assoc] at h
          exact h
        rw [hx _ _ hx0 ht] at hgroup
        cases hgroup
  | cons g l ih =>
    obtain ⟨⟨ht, hgroup⟩, hl⟩ := List.forall_mem_cons.mp hl
    rw [text_cons, List.append_assoc, List.cons_append] at h
    cases l' with
    | nil =>
      rcases hx' with hseven | ⟨-, hx'⟩
      · rcases hx with hmore | ⟨hmore, -⟩
        · rw [List.length_cons] at hmore
          rw [List.length_nil] at hseven
          omega
        · rw [List.length_cons] at hmore
          rw [List.length_nil] at hseven
          omega
      · rw [hx' _ _ h.symm ht] at hgroup
        cases hgroup
    | cons g' l' =>
      obtain ⟨⟨ht', hgroup'⟩, hl'⟩ := List.forall_mem_cons.mp hl'
      rw [text_cons, List.append_assoc, List.cons_append] at h
      obtain ⟨heq, hrest⟩ := split_unique ht ht' h
      have hg : g = g' := by
        apply Prod.ext heq
        rw [heq, hgroup'] at hgroup
        exact (Option.some.inj hgroup).symm
      rw [List.length_cons] at hx hx'
      obtain ⟨rfl, rfl⟩ := @ih (n + 1) l' hl hl' hrest
        (by rw [Nat.add_assoc, Nat.add_comm 1]; exact hx)
        (by rw [Nat.add_assoc, Nat.add_comm 1]; exact hx')
      exact ⟨by rw [hg], rfl⟩

theorem ends_of_gap {g : List U8} (hn : n < 7) (hg : 0x3a ∉ g) (hnone : group16 g = none)
    (rest : List U8) : Ends n (g ++ 0x3a :: rest) := by
  refine Or.inr ⟨hn, ?_⟩
  intro t rest' heq ht
  rw [← (split_unique hg ht heq).1]
  exact hnone

theorem stops_no_gap {g rest : List U8} (hn : n < 7) (h : Stops n chunk)
    (heq : chunk = g ++ 0x3a :: rest) : False := by
  rcases h with hseven | ⟨-, hcolon⟩
  · omega
  · rw [heq] at hcolon
    exact hcolon (List.mem_append_right g List.mem_cons_self)

theorem reads_unique (h : Reads body l gap chunk) (h' : Reads body l' gap' chunk') :
    l = l' ∧ gap = gap' ∧ chunk = chunk' := by
  have hzero : ∀ m : Nat, 0 + m = m := Nat.zero_add
  generalize hbody : body = body' at h'
  cases h with
  | plain hl hstop =>
    cases h' with
    | plain hl' hstop' =>
      obtain ⟨rfl, rfl⟩ := @text_unique 0 _ _ _ _ hl hl' hbody ((hzero _).symm ▸ hstop.ends)
        ((hzero _).symm ▸ hstop'.ends)
      exact ⟨rfl, rfl, rfl⟩
    | gap hl' hless hg _ hnone =>
      obtain ⟨rfl, heq⟩ := @text_unique 0 _ _ _ _ hl hl' hbody ((hzero _).symm ▸ hstop.ends)
        ((hzero _).symm ▸ ends_of_gap hless hg hnone _)
      exact absurd heq (stops_no_gap hless hstop)
  | gap hl hless hg _ hnone hr hstop =>
    cases h' with
    | plain hl' hstop' =>
      obtain ⟨rfl, heq⟩ := @text_unique 0 _ _ _ _ hl hl' hbody
        ((hzero _).symm ▸ ends_of_gap hless hg hnone _) ((hzero _).symm ▸ hstop'.ends)
      exact absurd heq.symm (stops_no_gap hless hstop')
    | gap hl' hless' hg' _ hnone' hr' hstop' =>
      obtain ⟨rfl, heq⟩ := @text_unique 0 _ _ _ _ hl hl' hbody
        ((hzero _).symm ▸ ends_of_gap hless hg hnone _)
        ((hzero _).symm ▸ ends_of_gap hless' hg' hnone' _)
      obtain ⟨rfl, hrest⟩ := split_unique hg hg' heq
      obtain ⟨rfl, rfl⟩ := text_unique hr hr' hrest hstop.ends hstop'.ends
      exact ⟨rfl, rfl, rfl⟩

end Readings

section Accepting

variable {R : Reals} {s chunk : List U8} {data : List Rat} {n : Nat} {c : Cidr Rat}

theorem group16_nil : group16 [] = none := rfl

theorem lastChunk_iff {data' : List Rat} : lastChunk R chunk data = some data' ↔
    ∃ tail, Tail R data.length chunk tail ∧ data' = data ++ tail := by
  constructor
  · intro h
    rw [lastChunk] at h
    split at h
    · rename_i hnil
      subst hnil
      cases h
      exact ⟨[], .none, (List.append_nil _).symm⟩
    · split at h
      · rename_i hshort
        obtain ⟨v, hv, rfl⟩ := Option.map_eq_some_iff.mp h
        exact ⟨_, .group hshort hv, rfl⟩
      · split at h
        · cases h
        · rename_i hlong hfits
          obtain ⟨hseven, hfits⟩ := not_or.mp hfits
          obtain ⟨b, hb, h⟩ := Option.bind_eq_some_iff.mp h
          obtain ⟨ws, hws, h⟩ := Option.bind_eq_some_iff.mp h
          cases h
          have hquad : (cutQuad chunk).bind (quadWords R) = some ws := by
            rw [hb]
            exact hws
          exact ⟨ws, .quad (by omega) (by omega) hseven hquad, rfl⟩
  · rintro ⟨tail, htail, rfl⟩
    cases htail with
    | none => rw [lastChunk, if_pos rfl, List.append_nil]
    | @group _ v hshort hv =>
      have hne : chunk ≠ [] := by
        rintro rfl
        rw [group16_nil] at hv
        cases hv
      rw [group16] at hv
      rw [lastChunk, if_neg hne, if_pos hshort, hv]
      rfl
    | quad hlong hfits hseven hquad =>
      have hne : chunk ≠ [] := by
        rintro rfl
        cases hlong
      obtain ⟨b, hb, hws⟩ := Option.bind_eq_some_iff.mp hquad
      rw [lastChunk, if_neg hne, if_neg (by omega), if_neg (by omega), hb]
      dsimp only [Option.bind_eq_bind, Option.bind_some]
      rw [hws]
      rfl

theorem fillZeros_iff {l : Groups} {gap : Option (List U8 × Groups)} {us ws : List Rat} :
    (fillZeros (rats l.values ++ us) (placeOf l gap) = some ws ∧ ws.length = 8) ↔
      Complete gap (l.length + us.length) ∧
        ws = rats l.values ++ List.replicate (8 - (l.length + us.length)) 0 ++ us := by
  have hlen : (rats l.values).length = l.length := by rw [length_rats, length_values]
  have hall : (rats l.values ++ us).length = l.length + us.length := by
    rw [List.length_append, hlen]
  cases gap with
  | none =>
    rw [placeOf, fillZeros, Complete, if_neg (by decide)]
    constructor
    · rintro ⟨h, height⟩
      cases h
      rw [hall] at height
      rw [height]
      exact ⟨rfl, by rw [Nat.sub_self, List.replicate_zero, List.append_nil]⟩
    · rintro ⟨height, rfl⟩
      rw [height, Nat.sub_self, List.replicate_zero, List.append_nil, hall]
      exact ⟨rfl, height⟩
  | some p =>
    have htake : (rats l.values ++ us).take (l.length + 1 - 1) = rats l.values := by
      rw [Nat.add_sub_cancel, ← hlen, List.take_left]
    have hdrop : (rats l.values ++ us).drop (l.length + 1 - 1) = us := by
      rw [Nat.add_sub_cancel, ← hlen, List.drop_left]
    have hfilled : (rats l.values ++ List.replicate (8 - (l.length + us.length)) 0 ++ us).length =
        l.length + (8 - (l.length + us.length)) + us.length := by
      rw [List.length_append, List.length_append, hlen, List.length_replicate]
    rw [placeOf, fillZeros, Complete, if_pos Option.isSome_some, hall]
    rw [htake, hdrop]
    constructor
    · rintro ⟨h, height⟩
      split at h
      · cases h
      · cases h
        rw [hfilled] at height
        exact ⟨by omega, rfl⟩
    · rintro ⟨hless, rfl⟩
      rw [if_neg (by omega), hfilled]
      exact ⟨rfl, by omega⟩

/-- What is left of `IPv6` when the prefix length is read. -/
def words6 (R : Reals) (address : List U8) : Option (List Rat) := do
  let (chunk, data, zeroh) ← groups (address.length + 1) (bodyOf address) [] none
  fillZeros (← lastChunk R chunk data) zeroh

theorem length_bodyOf_le (address : List U8) : (bodyOf address).length ≤ address.length := by
  rw [bodyOf]
  split
  · rw [List.length_tail]
    exact Nat.sub_le _ _
  · exact Nat.le_refl _

theorem words6_iff {address : List U8} {ws : List Rat} :
    (words6 R address = some ws ∧ ws.length = 8) ↔ ∃ l gap chunk tail,
      Reads (bodyOf address) l gap chunk ∧ Tail R (l.length + (behind gap).length) chunk tail ∧
      Complete gap (l.length + (behind gap).length + tail.length) ∧
      ws = rats l.values ++
        List.replicate (8 - (l.length + (behind gap).length + tail.length)) 0 ++
        (rats (behind gap).values ++ tail) := by
  have hcount : ∀ (l : Groups) (gap : Option (List U8 × Groups)),
      (rats l.values ++ rats (behind gap).values).length = l.length + (behind gap).length := by
    intro l gap
    rw [List.length_append, length_rats, length_rats, length_values, length_values]
  have hsum : ∀ (l : Groups) (gap : Option (List U8 × Groups)) (tail : List Rat),
      l.length + (rats (behind gap).values ++ tail).length =
        l.length + (behind gap).length + tail.length := by
    intro l gap tail
    rw [List.length_append, length_rats, length_values, Nat.add_assoc]
  constructor
  · rintro ⟨h, height⟩
    obtain ⟨⟨chunk, data, z⟩, hgroups, h⟩ := Option.bind_eq_some_iff.mp h
    obtain ⟨all, hlast, hfill⟩ := Option.bind_eq_some_iff.mp h
    obtain ⟨l, gap, hreads, rfl, rfl⟩ := reads_of_groups hgroups
    obtain ⟨tail, htail, rfl⟩ := lastChunk_iff.mp hlast
    rw [List.append_assoc] at hfill
    rw [hcount] at htail
    obtain ⟨hcomplete, hws⟩ := fillZeros_iff.mp ⟨hfill, height⟩
    rw [hsum] at hcomplete hws
    exact ⟨l, gap, chunk, tail, hreads, htail, hcomplete, hws⟩
  · rintro ⟨l, gap, chunk, tail, hreads, htail, hcomplete, hws⟩
    rw [← hcount] at htail
    rw [← hsum] at hcomplete hws
    obtain ⟨hfill, height⟩ := fillZeros_iff.mpr ⟨hcomplete, hws⟩
    have hgroups : groups (address.length + 1) (bodyOf address) [] none = _ :=
      groups_of_reads hreads (Nat.lt_succ_of_le (length_bodyOf_le address))
    refine ⟨?_, height⟩
    rw [words6, hgroups]
    dsimp only [Option.bind_eq_bind, Option.bind_some]
    rw [lastChunk_iff.mpr ⟨tail, htail, rfl⟩, Option.bind_some, List.append_assoc, hfill]

theorem ipv6_words {b : List U8} {text : Option (List U8)} (hcut : cutPrefix s = (b, text)) :
    ipv6 R s = some c ↔ ∃ p ws, readPrefix R text 128 = some p ∧ (unbracket b).length ≤ 45 ∧
      (words6 R (unbracket b) = some ws ∧ ws.length = 8) ∧ c = ⟨.inet6, ws, p⟩ := by
  rw [ipv6, hcut]
  dsimp only [Option.bind_eq_bind]
  rw [Option.bind_eq_some_iff]
  constructor
  · rintro ⟨p, hmask, h⟩
    split at h
    · cases h
    · rename_i hshort
      obtain ⟨⟨chunk, data, z⟩, hgroups, h⟩ := Option.bind_eq_some_iff.mp h
      obtain ⟨all, hlast, h⟩ := Option.bind_eq_some_iff.mp h
      obtain ⟨ws, hfill, h⟩ := Option.bind_eq_some_iff.mp h
      split at h
      · rename_i height
        cases h
        refine ⟨p, ws, hmask, Nat.le_of_not_lt hshort, ⟨?_, height⟩, rfl⟩
        apply Option.bind_eq_some_iff.mpr
        refine ⟨_, hgroups, ?_⟩
        exact Option.bind_eq_some_iff.mpr ⟨all, hlast, hfill⟩
      · cases h
  · rintro ⟨p, ws, hmask, hshort, ⟨hwords, height⟩, rfl⟩
    refine ⟨p, hmask, ?_⟩
    obtain ⟨⟨chunk, data, z⟩, hgroups, h⟩ := Option.bind_eq_some_iff.mp hwords
    obtain ⟨all, hlast, hfill⟩ := Option.bind_eq_some_iff.mp h
    rw [if_neg (Nat.not_lt.mpr hshort)]
    apply Option.bind_eq_some_iff.mpr
    refine ⟨_, hgroups, ?_⟩
    dsimp only
    rw [hlast, Option.bind_some, hfill, Option.bind_some, if_pos height]

theorem ipv6_iff : ipv6 R s = some c ↔
    ∃ rd p ws, Reading.Of s rd ∧ Accepted R rd p ws ∧ c = ⟨.inet6, ws, p⟩ := by
  obtain ⟨b, text, hcut⟩ : ∃ b text, cutPrefix s = (b, text) := ⟨_, _, rfl⟩
  rw [ipv6_words hcut]
  constructor
  · rintro ⟨p, ws, hmask, hshort, hwords, rfl⟩
    obtain ⟨l, gap, chunk, tail, hreads, htail, hcomplete, hws⟩ := words6_iff.mp hwords
    refine ⟨⟨unbracket b, text, l, gap, chunk⟩, p, ws, ⟨b, hcut, rfl, hreads⟩, ?_, rfl⟩
    exact ⟨hmask, hshort, tail, htail, hcomplete, hws⟩
  · rintro ⟨rd, p, ws, ⟨b', hcut', haddress, hreads⟩,
      ⟨hmask, hshort, tail, htail, hcomplete, hws⟩, rfl⟩
    obtain ⟨rfl, rfl⟩ := Prod.mk.inj (hcut.symm.trans hcut')
    rw [haddress] at hshort hreads
    exact ⟨p, ws, hmask, hshort,
      words6_iff.mpr ⟨rd.left, rd.gap, rd.chunk, tail, hreads, htail, hcomplete, hws⟩, rfl⟩

theorem reading_unique {rd rd' : Reading} (h : rd.Of s) (h' : rd'.Of s) : rd = rd' := by
  obtain ⟨b, hcut, haddress, hreads⟩ := h
  obtain ⟨b', hcut', haddress', hreads'⟩ := h'
  obtain ⟨rfl, htext⟩ := Prod.mk.inj (hcut.symm.trans hcut')
  have heq : rd.address = rd'.address := haddress.trans haddress'.symm
  rw [heq] at hreads
  obtain ⟨hl, hgap, hchunk⟩ := reads_unique hreads hreads'
  cases rd
  cases rd'
  congr

end Accepting

end OpenwrtMtk.Luci.Ip
