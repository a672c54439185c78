import Mathlib.Data.List.Forall2
import OpenwrtMtk.Luci.SessionText

/-!
# Reading a text back

What `loadstring` makes of the text of a value. A text is read up to a byte that cannot belong to a name
or a numeral, so that each part of a table is read by itself.
-/

namespace OpenwrtMtk.Luci.Session

open Toolkit

set_option autoImplicit false

def Delimited (rest : List U8) : Prop := ∀ c ∈ rest.head?, numeralByte c = false

/-- `x` is an expression with the value `w`. -/
def Reads (x : List U8) (w : Value Int) : Prop :=
  ∀ (rest : List U8) (fuel : Nat), Delimited rest → 3 * x.length ≤ fuel →
    readExp fuel (x ++ rest) = some (w, rest)

def opens (c : U8) : Bool := isdigit c || isalpha c || c = 0x22 || c = 0x2d || c = 0x7b

def Begins (x : List U8) : Prop := ∃ c r, x = c :: r ∧ opens c = true

section Bytes

theorem takeWhile_stops {α : Type} {p : α → Bool} {x rest : List α} (hx : ∀ c ∈ x, p c = true)
    (hrest : ∀ c ∈ rest.head?, p c = false) : (x ++ rest).takeWhile p = x := by
  rw [List.takeWhile_append_of_pos hx]
  cases rest with
  | nil => rw [List.takeWhile_nil, List.append_nil]
  | cons c rest => rw [List.takeWhile_cons, hrest c rfl, if_neg Bool.false_ne_true, List.append_nil]

theorem dropWhile_stops {α : Type} {p : α → Bool} {x rest : List α} (hx : ∀ c ∈ x, p c = true)
    (hrest : ∀ c ∈ rest.head?, p c = false) : (x ++ rest).dropWhile p = rest := by
  rw [List.dropWhile_append_of_pos hx]
  cases rest with
  | nil => rfl
  | cons c rest => rw [List.dropWhile_cons, hrest c rfl, if_neg Bool.false_ne_true]

theorem opens_range {c : U8} (hc : opens c = true) :
    c.toNat = 0x22 ∨ c.toNat = 0x2d ∨ c.toNat = 0x7b ∨ 0x30 ≤ c.toNat ∧ c.toNat ≤ 0x39 ∨
      0x41 ≤ c.toNat ∧ c.toNat ≤ 0x5a ∨ 0x61 ≤ c.toNat ∧ c.toNat ≤ 0x7a := by
  simp only [opens, isdigit, isalpha, Bool.or_eq_true, Bool.and_eq_true, decide_eq_true_eq] at hc
  rcases hc with (((hdigit | hupper | hlower) | rfl) | rfl) | rfl
  · exact .inr (.inr (.inr (.inl hdigit)))
  · exact .inr (.inr (.inr (.inr (.inl hupper))))
  · exact .inr (.inr (.inr (.inr (.inr hlower))))
  · exact .inl rfl
  · exact .inr (.inl rfl)
  · exact .inr (.inr (.inl rfl))

theorem isspace_of_opens {c : U8} (hc : opens c = true) : isspace c = false := by
  have hrange := opens_range hc
  have hblank : c ≠ 0x20 := by
    intro h
    rw [h] at hrange
    simp at hrange
  rw [isspace, decide_eq_false hblank, Bool.false_or, Bool.and_eq_false_iff]
  simp only [decide_eq_false_iff_not]
  omega

theorem ne_of_opens {c k : U8} (hc : opens c = true) (hk : opens k = false) : c ≠ k := by
  intro h
  rw [h, hk] at hc
  cases hc

theorem skipSpace_cons {c : U8} (hc : isspace c = false) (r : List U8) :
    skipSpace (c :: r) = c :: r := by
  rw [skipSpace, List.dropWhile_cons, hc, if_neg Bool.false_ne_true]

theorem skipSpace_blank (s : List U8) : skipSpace (0x20 :: s) = skipSpace s := rfl

theorem readExp_blank (fuel : Nat) (s : List U8) : readExp fuel (0x20 :: s) = readExp fuel s := by
  cases fuel with
  | zero => rfl
  | succ fuel => rw [readExp, readExp, skipSpace_blank]

theorem expect_cons {c : U8} (hc : isspace c = false) (r : List U8) : expect c (c :: r) = some r := by
  rw [expect, skipSpace_cons hc]
  exact if_pos rfl

theorem expect_blank (c : U8) (s : List U8) : expect c (0x20 :: s) = expect c s := by
  rw [expect, expect, skipSpace_blank]

end Bytes

section Strings

variable {c : U8} {s r : List U8}

theorem quote_no_break (s r : List U8) :
    ∀ c ∈ (s.flatMap quoteByte ++ 0x22 :: r).head?, isBreak c = false := by
  intro d hd
  cases s with
  | nil =>
    cases hd
    rfl
  | cons c s =>
    rw [List.flatMap_cons, List.append_assoc, quoteByte] at hd
    by_cases hslash : c = 0x22 ∨ c = 0x5c ∨ c = 0x0a
    · rw [if_pos hslash] at hd
      cases hd
      rfl
    · rw [if_neg hslash] at hd
      by_cases hreturn : c = 0x0d
      · rw [if_pos hreturn] at hd
        cases hd
        rfl
      · rw [if_neg hreturn] at hd
        by_cases hzero : c = 0
        · rw [if_pos hzero] at hd
          cases hd
          rfl
        · rw [if_neg hzero] at hd
          have hline : c ≠ 0x0a := fun h => hslash (.inr (.inr h))
          cases hd
          rw [isBreak, decide_eq_false hline, decide_eq_false hreturn, Bool.or_false]

theorem readString_quoteByte (htail : ∀ d ∈ r.head?, isBreak d = false) :
    readString 0 (quoteByte c ++ r) = (readString 0 r).map fun x => (c :: x.1, x.2) := by
  rw [quoteByte]
  by_cases hslash : c = 0x22 ∨ c = 0x5c ∨ c = 0x0a
  · rw [if_pos hslash]
    rcases hslash with rfl | rfl | rfl
    · rfl
    · rfl
    · have hused : (r.head?.any fun d => isBreak d && d ≠ 0x0a) = false := by
        cases r with
        | nil => rfl
        | cons d r =>
          rw [List.head?_cons, Option.any_some, htail d rfl, Bool.false_and]
      have hline : escapeSequence (0x0a :: r) = some (0x0a, 1) := by
        rw [escapeSequence, if_neg (by decide), if_pos (by decide), hused,
          if_neg Bool.false_ne_true]
      rw [List.cons_append, List.singleton_append, readString, if_neg (by decide),
        if_neg (by decide), if_pos rfl, hline]
      rfl
  · rw [if_neg hslash]
    by_cases hreturn : c = 0x0d
    · rw [if_pos hreturn, hreturn]
      rfl
    · rw [if_neg hreturn]
      by_cases hzero : c = 0
      · rw [if_pos hzero, hzero]
        rfl
      · rw [if_neg hzero, List.singleton_append]
        have hquote : c ≠ 0x22 := fun h => hslash (.inl h)
        have hline : c ≠ 0x0a := fun h => hslash (.inr (.inr h))
        have hplain : isBreak c = false := by
          rw [isBreak, decide_eq_false hline, decide_eq_false hreturn, Bool.or_false]
        rw [readString, if_neg hquote, hplain, if_neg Bool.false_ne_true,
          if_neg fun h => hslash (.inr (.inl h))]

theorem readString_quoted (s r : List U8) :
    readString 0 (s.flatMap quoteByte ++ 0x22 :: r) = some (s, r) := by
  induction s with
  | nil => rfl
  | cons c s ih =>
    rw [List.flatMap_cons, List.append_assoc, readString_quoteByte (quote_no_break s r), ih]
    rfl

end Strings

section Expressions

theorem reads_of_succ {x : List U8} {w : Value Int} (hx : x ≠ [])
    (h : ∀ (rest : List U8) (fuel : Nat), Delimited rest → 3 * x.length ≤ fuel + 1 →
      readExp (fuel + 1) (x ++ rest) = some (w, rest)) : Reads x w := by
  intro rest fuel hrest hfuel
  have hpos := List.length_pos_of_ne_nil hx
  obtain ⟨fuel, rfl⟩ : ∃ n, fuel = n + 1 := ⟨fuel - 1, by omega⟩
  exact h rest fuel hrest hfuel

theorem nameByte_delimited {rest : List U8} (hrest : Delimited rest) :
    ∀ c ∈ rest.head?, nameByte c = false := by
  intro c hc
  have hnumeral := hrest c hc
  rw [numeralByte, Bool.or_eq_false_iff] at hnumeral
  exact hnumeral.1

theorem reads_name {x : List U8} {w : Value Int} (hx : ∀ c ∈ x, nameByte c = true)
    (hname : ∀ rest : List U8, (x ++ rest).takeWhile nameByte = x →
      (x ++ rest).dropWhile nameByte = rest → readName (x ++ rest) = some (w, rest))
    (hread : ∀ (rest : List U8) (fuel : Nat), readExp (fuel + 1) (x ++ rest) = readName (x ++ rest))
    (hne : x ≠ []) : Reads x w := by
  refine reads_of_succ hne fun rest fuel hrest _ => ?_
  have hstop := nameByte_delimited hrest
  rw [hread]
  exact hname rest (takeWhile_stops hx hstop) (dropWhile_stops hx hstop)

theorem reads_nil : Reads (latin "nil") .nil := by
  refine reads_name (by decide) ?_ (fun _ _ => rfl) (by decide)
  intro rest htake hdrop
  rw [readName, htake, hdrop, if_pos rfl]

theorem reads_bool (b : Bool) : Reads (if b then latin "true" else latin "false") (.bool b) := by
  cases b with
  | true =>
    refine reads_name (by decide) ?_ (fun _ _ => rfl) (by decide)
    intro rest htake hdrop
    rw [if_pos rfl] at htake hdrop ⊢
    rw [readName, htake, hdrop, if_neg (by decide), if_pos rfl]
  | false =>
    refine reads_name (by decide) ?_ (fun _ _ => rfl) (by decide)
    intro rest htake hdrop
    rw [if_neg Bool.false_ne_true] at htake hdrop ⊢
    rw [readName, htake, hdrop, if_neg (by decide), if_neg (by decide), if_pos rfl]

theorem reads_string (s : List U8) : Reads (quoted s) (.string s) := by
  refine reads_of_succ (List.cons_ne_nil _ _) fun rest fuel _ _ => ?_
  have htext : quoted s ++ rest = 0x22 :: (s.flatMap quoteByte ++ 0x22 :: rest) := by
    rw [quoted, List.append_assoc, List.cons_append, List.singleton_append]
  rw [htext, readExp, skipSpace_cons (by decide)]
  dsimp only
  rw [if_pos rfl, readString_quoted]
  rfl

theorem readNumeral_digits (n : Nat) {rest : List U8} (hrest : Delimited rest) :
    readNumeral (digits n ++ rest) = some (n, rest) := by
  have hnumeral : ∀ d ∈ digits n, numeralByte d = true := by
    intro d hd
    rw [numeralByte, nameByte, digits_isdigit n d hd, Bool.or_true, Bool.true_or, Bool.true_or]
  have hall : (digits n).all isdigit = true := List.all_eq_true.mpr (digits_isdigit n)
  rw [readNumeral, takeWhile_stops hnumeral hrest, dropWhile_stops hnumeral hrest]
  rw [if_pos ⟨digits_ne_nil n, hall⟩, digits_value]

theorem reads_digits (n : Nat) : Reads (digits n) (.number n) := by
  refine reads_of_succ (digits_ne_nil n) fun rest fuel hrest _ => ?_
  have hnumeral := readNumeral_digits n hrest
  obtain ⟨c, r, hcr⟩ := List.exists_cons_of_ne_nil (digits_ne_nil n)
  have hc : isdigit c = true := digits_isdigit n c (by rw [hcr]; exact List.mem_cons_self)
  have hopens : opens c = true := by
    rw [opens, hc]
    rfl
  have hne {k : U8} (hk : isdigit k = false) : c ≠ k := by
    intro h
    rw [h, hk] at hc
    cases hc
  rw [hcr, List.cons_append] at hnumeral ⊢
  rw [readExp, skipSpace_cons (isspace_of_opens hopens)]
  dsimp only
  rw [if_neg (hne (by decide)), if_neg (hne (by decide)), if_neg (hne (by decide)), if_pos hc,
    hnumeral]
  rfl

theorem reads_decimal (n : Int) : Reads (decimal n) (.number n) := by
  cases n with
  | ofNat n => exact reads_digits n
  | negSucc n =>
    refine reads_of_succ (List.cons_ne_nil _ _) fun rest fuel hrest _ => ?_
    have htext : decimal (.negSucc n) ++ rest = 0x2d :: (digits (n + 1) ++ rest) := rfl
    rw [htext, readExp, skipSpace_cons (by decide)]
    dsimp only
    rw [if_neg (by decide), if_neg (by decide), if_pos rfl, readNumeral_digits _ hrest]
    rfl

end Expressions

section Fields

/-- A field of a constructor with its value. -/
inductive Field where
  | item (v : Value Int)
  | keyed (k : Key) (v : Value Int)

def Constructor.field (t : Constructor) : Field → Constructor
  | .item v => t.listField v
  | .keyed k v => t.keyField k v

/-- The constructor behind fields, the items before each of which are stored if there are fifty. -/
def gather (fields : List Field) (t : Constructor) : Constructor :=
  fields.foldl (fun t f => t.closeField.field f) t

/-- `x` is the field `f`. -/
def ReadsField (x : List U8) (f : Field) : Prop :=
  (∃ c r, x = c :: r ∧ isspace c = false ∧ c ≠ 0x7d) ∧
    ∀ (t : Constructor) (rest : List U8) (fuel : Nat), Delimited rest → 3 * x.length + 1 ≤ fuel →
      readField fuel t (x ++ rest) = some (t.field f, rest)

theorem reads_item {x : List U8} {w : Value Int} (hx : Begins x) (h : Reads x w) :
    ReadsField x (.item w) := by
  obtain ⟨c, r, hcr, hc⟩ := hx
  refine ⟨⟨c, r, hcr, isspace_of_opens hc, ne_of_opens hc (by decide)⟩, ?_⟩
  intro t rest fuel hrest hfuel
  obtain ⟨fuel, rfl⟩ : ∃ n, fuel = n + 1 := ⟨fuel - 1, by omega⟩
  have hhead : ¬(x ++ rest).head? = some 0x5b := by
    rw [hcr]
    exact fun heq => ne_of_opens hc (by decide) (Option.some.inj heq)
  rw [readField, if_neg hhead, h rest fuel hrest (by omega)]
  rfl

theorem begins_key (k : Key) : Begins (keyText k) := by
  cases k with
  | index n =>
    obtain ⟨c, r, hcr⟩ := List.exists_cons_of_ne_nil (digits_ne_nil n)
    have hc : isdigit c = true := digits_isdigit n c (by rw [hcr]; exact List.mem_cons_self)
    refine ⟨c, r, hcr, ?_⟩
    rw [opens, hc]
    rfl
  | name s => exact ⟨0x22, s.flatMap quoteByte ++ [0x22], rfl, rfl⟩

theorem reads_key {k : Key} (hk : k ≠ .index 0) :
    ∃ w, Reads (keyText k) w ∧ asKey w = some k := by
  cases k with
  | index n =>
    refine ⟨.number n, reads_digits n, ?_⟩
    have hpos : n ≠ 0 := fun h => hk (congrArg Key.index h)
    rw [asKey, if_pos (by omega), Int.toNat_natCast]
  | name s => exact ⟨.string s, reads_string s, rfl⟩

theorem reads_keyed {x : List U8} {w : Value Int} {k : Key} (hk : k ≠ .index 0) (h : Reads x w) :
    ReadsField (keyField k x) (.keyed k w) := by
  refine ⟨⟨0x5b, keyText k ++ latin "] = " ++ x, rfl, rfl, by decide⟩, ?_⟩
  intro t rest fuel hrest hfuel
  obtain ⟨fuel, rfl⟩ : ∃ n, fuel = n + 1 := ⟨fuel - 1, by omega⟩
  obtain ⟨kw, hkey, hasKey⟩ := reads_key hk
  obtain ⟨c, r, hcr, hc⟩ := begins_key k
  have htext : keyField k x ++ rest =
      0x5b :: (keyText k ++ 0x5d :: 0x20 :: 0x3d :: 0x20 :: (x ++ rest)) := by
    rw [keyField, List.append_assoc, List.append_assoc, List.cons_append]
    rfl
  have hlength : (keyField k x).length = (keyText k).length + x.length + 5 := by
    rw [keyField, List.length_append, List.length_append, List.length_cons]
    have hmark : (latin "] = ").length = 4 := rfl
    omega
  have hlong : ¬((keyText k ++ 0x5d :: 0x20 :: 0x3d :: 0x20 :: (x ++ rest)).head? = some 0x5b ∨
      (keyText k ++ 0x5d :: 0x20 :: 0x3d :: 0x20 :: (x ++ rest)).head? = some 0x3d) := by
    rw [hcr]
    rintro (heq | heq)
    · exact ne_of_opens hc (by decide) (Option.some.inj heq)
    · exact ne_of_opens hc (by decide) (Option.some.inj heq)
  have hclosed : Delimited (0x5d :: 0x20 :: 0x3d :: 0x20 :: (x ++ rest)) := by
    intro d hd
    cases hd
    rfl
  have hblank : isspace 0x5d = false := rfl
  have hequal : isspace 0x3d = false := rfl
  rw [htext, readField, List.head?_cons, if_pos rfl, List.tail_cons, if_neg hlong,
    hkey _ fuel hclosed (by omega)]
  simp only [Option.bind_eq_bind, Option.bind_some, expect_blank, expect_cons hblank,
    expect_cons hequal, readExp_blank]
  rw [h rest fuel hrest (by omega), Option.bind_some, hasKey]
  rfl

def joined : List (List U8) → List U8
  | [] => []
  | x :: xs => x ++ xs.flatMap (latin ", " ++ ·)

theorem readFields_next {x : List U8} {f : Field} (h : ReadsField x f) (t : Constructor)
    (s : List U8) {fuel : Nat} (hfuel : 3 * x.length + 1 ≤ fuel) :
    readFields (fuel + 1) t (0x20 :: x ++ 0x2c :: s) =
      readFields fuel (t.closeField.field f) s := by
  obtain ⟨⟨c, r, hcr, hspace, hbrace⟩, hread⟩ := h
  have hcomma : Delimited (0x2c :: s) := by
    intro d hd
    cases hd
    rfl
  have hfield := hread t.closeField (0x2c :: s) fuel hcomma hfuel
  rw [hcr, List.cons_append] at hfield
  rw [hcr, List.cons_append, List.cons_append, readFields, skipSpace_blank, skipSpace_cons hspace]
  dsimp only
  rw [if_neg hbrace, hfield]
  rfl

theorem readFields_last {x : List U8} {f : Field} (h : ReadsField x f) (t : Constructor)
    (rest : List U8) {fuel : Nat} (hfuel : 3 * x.length + 1 ≤ fuel) :
    readFields (fuel + 1) t (0x20 :: x ++ 0x20 :: 0x7d :: rest) =
      some (.table (t.closeField.field f).flush.entries, rest) := by
  obtain ⟨⟨c, r, hcr, hspace, hbrace⟩, hread⟩ := h
  have hblank : Delimited (0x20 :: 0x7d :: rest) := by
    intro d hd
    cases hd
    rfl
  have hfield := hread t.closeField (0x20 :: 0x7d :: rest) fuel hblank hfuel
  rw [hcr, List.cons_append] at hfield
  rw [hcr, List.cons_append, List.cons_append, readFields, skipSpace_blank, skipSpace_cons hspace]
  dsimp only
  rw [if_neg hbrace, hfield]
  rfl

theorem readFields_joined {xs : List (List U8)} {fields : List Field}
    (h : List.Forall₂ ReadsField xs fields) (t : Constructor) (rest : List U8) {fuel : Nat}
    (hfuel : 3 * ((joined xs).length + 3) ≤ fuel) :
    readFields fuel t (0x20 :: joined xs ++ 0x20 :: 0x7d :: rest) =
      some (.table (gather fields t).flush.entries, rest) := by
  induction h generalizing t fuel with
  | nil =>
    obtain ⟨fuel, rfl⟩ : ∃ n, fuel = n + 1 := ⟨fuel - 1, by omega⟩
    rw [readFields]
    rfl
  | @cons x f xs fields hfield hrest ih =>
    obtain ⟨fuel, rfl⟩ : ∃ n, fuel = n + 1 := ⟨fuel - 1, by omega⟩
    rw [joined, List.length_append] at hfuel
    cases hrest with
    | nil =>
      rw [joined, List.flatMap_nil, List.append_nil]
      exact readFields_last hfield t rest (by omega)
    | @cons y g ys fields hy hys =>
      have htext : joined (x :: y :: ys) = x ++ 0x2c :: 0x20 :: joined (y :: ys) := by
        rw [joined, List.flatMap_cons, List.append_assoc]
        rfl
      have hlength : ((y :: ys).flatMap (latin ", " ++ ·)).length = (joined (y :: ys)).length + 2 := by
        rw [List.flatMap_cons, List.append_assoc, List.length_append, joined]
        have hmark : (latin ", ").length = 2 := rfl
        omega
      have hfuelled : 3 * x.length + 1 ≤ fuel := by omega
      have hnext := readFields_next hfield t
        (0x20 :: joined (y :: ys) ++ 0x20 :: 0x7d :: rest) hfuelled
      rw [htext, List.cons_append, List.append_assoc]
      refine Eq.trans hnext ?_
      exact ih _ (by omega)

theorem reads_table {xs : List (List U8)} {fields : List Field}
    (h : List.Forall₂ ReadsField xs fields) :
    Reads (latin "\x7b " ++ joined xs ++ latin " \x7d")
      (.table (gather fields ⟨[], 0, []⟩).flush.entries) := by
  refine reads_of_succ (List.cons_ne_nil _ _) fun rest fuel _ hfuel => ?_
  have htext : latin "\x7b " ++ joined xs ++ latin " \x7d" ++ rest =
      0x7b :: (0x20 :: joined xs ++ 0x20 :: 0x7d :: rest) := by
    rw [List.append_assoc, List.append_assoc]
    rfl
  have hlength : (latin "\x7b " ++ joined xs ++ latin " \x7d").length = (joined xs).length + 4 := by
    rw [List.length_append, List.length_append]
    have hopen : (latin "\x7b ").length = 2 := rfl
    have hclose : (latin " \x7d").length = 2 := rfl
    omega
  rw [htext, readExp, skipSpace_cons (by decide)]
  dsimp only
  rw [if_neg (by decide), if_pos rfl]
  exact readFields_joined h _ rest (by omega)

end Fields

section Table

theorem foldl_listed {data : List U8} (hdata : data ≠ []) (xs : List (List U8)) :
    xs.foldl listed data = data ++ xs.flatMap (latin ", " ++ ·) := by
  induction xs generalizing data with
  | nil => exact (List.append_nil data).symm
  | cons x xs ih =>
    have hnext : listed data x = data ++ (latin ", " ++ x) := by
      rw [listed, if_neg hdata, List.append_assoc]
    have hne : listed data x ≠ [] := by
      rw [hnext]
      exact List.append_ne_nil_of_left_ne_nil hdata _
    rw [List.foldl_cons, ih hne, hnext, List.flatMap_cons, List.append_assoc]

theorem foldl_listed_nil {xs : List (List U8)} (hxs : ∀ x ∈ xs, x ≠ []) :
    xs.foldl listed [] = joined xs := by
  cases xs with
  | nil => rfl
  | cons x xs => exact foldl_listed (hxs x List.mem_cons_self) xs

theorem joined_ne_nil {x : List U8} {xs : List (List U8)} (hx : x ≠ []) : joined (x :: xs) ≠ [] :=
  List.append_ne_nil_of_left_ne_nil hx _

theorem tableText_joined {len : Nat} {t : List (Key × List U8)}
    (hkeyed : ∀ x ∈ keyedTexts len t, x ≠ []) (hindexed : ∀ x ∈ indexedTexts len t, x ≠ []) :
    tableText len t = joined (indexedTexts len t ++ keyedTexts len t) := by
  rw [tableText, foldl_listed_nil hkeyed, foldl_listed_nil hindexed]
  cases hi : indexedTexts len t with
  | nil => rw [if_pos (.inr rfl), List.append_nil, List.nil_append]; rfl
  | cons x xs =>
    rw [hi] at hindexed
    cases hk : keyedTexts len t with
    | nil =>
      rw [if_pos (.inl rfl), List.append_nil, List.append_nil]
      exact List.append_nil _
    | cons y ys =>
      rw [hk] at hkeyed
      have hx : joined (x :: xs) ≠ [] := joined_ne_nil (hindexed x List.mem_cons_self)
      have hy : joined (y :: ys) ≠ [] := joined_ne_nil (hkeyed y List.mem_cons_self)
      rw [if_neg (not_or.mpr ⟨hy, hx⟩), List.cons_append, joined, joined, joined,
        List.flatMap_append, List.flatMap_cons, List.append_assoc, List.append_assoc,
        List.append_assoc]

def fieldsOf (len : Nat) (t : List (Key × Value Int)) : List Field :=
  ((List.range' 1 (extent len t)).map fun i => .item ((rawget t (.index i)).getD .nil)) ++
    (t.filter fun e => bracketed len e.1).map fun e => .keyed e.1 e.2

def rows (len : Nat) (t : List (Key × Value Int)) : List (Key × Value Int) :=
  (gather (fieldsOf len t) ⟨[], 0, []⟩).flush.entries

mutual

def restored (len : Nat → Nat) : Datum → Value Int
  | .bool b => .bool b
  | .number n => .number n
  | .string s => .string s
  | .table ref entries => .table (rows (len ref) (restoredOf len entries))

def restoredOf (len : Nat → Nat) : List (Key × Datum) → List (Key × Value Int)
  | [] => []
  | (k, v) :: entries => (k, restored len v) :: restoredOf len entries

end

theorem restoredOf_eq (len : Nat → Nat) (entries : List (Key × Datum)) :
    restoredOf len entries = entries.map fun e => (e.1, restored len e.2) := by
  induction entries with
  | nil => rfl
  | cons e entries ih => rw [restoredOf, ih, List.map_cons]

theorem begins_text (len : Nat → Nat) (v : Datum) : Begins (text len v) := by
  cases v with
  | bool b =>
    cases b with
    | true => exact ⟨0x74, latin "rue", rfl, rfl⟩
    | false => exact ⟨0x66, latin "alse", rfl, rfl⟩
  | number n =>
    cases n with
    | ofNat n => exact begins_key (.index n)
    | negSucc n => exact ⟨0x2d, digits (n + 1), rfl, rfl⟩
  | string s => exact begins_key (.name s)
  | table ref entries =>
    rw [text, List.append_assoc]
    exact ⟨0x7b, 0x20 :: (tableText (len ref) (textsOf len entries) ++ latin " \x7d"), rfl, rfl⟩

theorem Begins.ne_nil {x : List U8} (h : Begins x) : x ≠ [] := by
  obtain ⟨c, r, rfl, -⟩ := h
  exact List.cons_ne_nil c r

theorem begins_nil : Begins (latin "nil") := ⟨0x6e, latin "il", rfl, rfl⟩

theorem reads_text (len : Nat → Nat) {v : Datum} (hv : WellFormed v) :
    Reads (text len v) (restored len v) := by
  induction hv with
  | bool b => exact reads_bool b
  | number n => exact reads_decimal n
  | string s => exact reads_string s
  | @table ref entries _ hindex _ ih =>
    have htexts := textsOf_eq len entries
    have hrestored := restoredOf_eq len entries
    have hitems : List.Forall₂ ReadsField (indexedTexts (len ref) (textsOf len entries))
        ((List.range' 1 (extent (len ref) (restoredOf len entries))).map fun i =>
          .item ((rawget (restoredOf len entries) (.index i)).getD .nil)) := by
      rw [indexedTexts, htexts, hrestored, extent_map, extent_map, List.forall₂_map_left_iff,
        List.forall₂_map_right_iff, List.forall₂_same]
      intro i _
      rw [rawget_map, rawget_map]
      cases hget : rawget entries (.index i) with
      | none => exact reads_item begins_nil reads_nil
      | some v => exact reads_item (begins_text len v) (ih _ (mem_of_rawget hget))
    have hkeyed : List.Forall₂ ReadsField (keyedTexts (len ref) (textsOf len entries))
        (((restoredOf len entries).filter fun e => bracketed (len ref) e.1).map fun e =>
          .keyed e.1 e.2) := by
      rw [keyedTexts, htexts, hrestored, List.filter_map, List.filter_map, List.map_map,
        List.map_map, List.forall₂_map_left_iff, List.forall₂_map_right_iff]
      refine List.forall₂_same.mpr fun e he => ?_
      have hmem := List.mem_of_mem_filter he
      exact reads_keyed (fun h => hindex (h ▸ List.mem_map_of_mem hmem)) (ih e hmem)
    have hkeyedTexts : ∀ x ∈ keyedTexts (len ref) (textsOf len entries), x ≠ [] := by
      intro x hx
      obtain ⟨e, -, rfl⟩ := List.mem_map.mp hx
      exact List.cons_ne_nil _ _
    have hindexedTexts : ∀ x ∈ indexedTexts (len ref) (textsOf len entries), x ≠ [] := by
      intro x hx
      obtain ⟨i, -, rfl⟩ := List.mem_map.mp hx
      rw [htexts, rawget_map]
      cases rawget entries (.index i) with
      | none => exact begins_nil.ne_nil
      | some v => exact (begins_text len v).ne_nil
    rw [text, restored, tableText_joined hkeyedTexts hindexedTexts]
    exact reads_table (List.rel_append hitems hkeyed)

end Table

end OpenwrtMtk.Luci.Session
