import Mathlib.Data.List.Nodup
import Mathlib.Data.List.Perm.Basic
import OpenwrtMtk.Luci.SessionData

/-!
# The text of a value

What the serialiser writes when no table is reached twice. Every table that is reached is seen from then
on, so that the serialiser fails if and only if one of them is reached again.
-/

namespace OpenwrtMtk.Luci.Session

open Toolkit

set_option autoImplicit false

universe u

/-- The tables are as Lua has them: a key once, and indices from 1 on. -/
inductive WellFormed : Datum → Prop where
  | bool (b : Bool) : WellFormed (.bool b)
  | number (n : Int) : WellFormed (.number n)
  | string (s : List U8) : WellFormed (.string s)
  | table {ref : Nat} {entries : List (Key × Datum)} (hkeys : (entries.map Prod.fst).Nodup)
      (hindex : Key.index 0 ∉ entries.map Prod.fst) (hvalues : ∀ e ∈ entries, WellFormed e.2) :
      WellFormed (.table ref entries)

mutual

def refs : Datum → List Nat
  | .table ref entries => ref :: refsOf entries
  | _ => []

def refsOf : List (Key × Datum) → List Nat
  | [] => []
  | (_, v) :: entries => refs v ++ refsOf entries

end

def extent {α : Type} (len : Nat) : List (Key × α) → Nat
  | [] => 0
  | (k, _) :: t => max (if bracketed len k then 0 else position k) (extent len t)

def keyedTexts (len : Nat) (t : List (Key × List U8)) : List (List U8) :=
  (t.filter fun e => bracketed len e.1).map fun e => keyField e.1 e.2

def indexedTexts (len : Nat) (t : List (Key × List U8)) : List (List U8) :=
  (List.range' 1 (extent len t)).map fun i => (rawget t (.index i)).getD (latin "nil")

def tableText (len : Nat) (t : List (Key × List U8)) : List U8 :=
  let data := (keyedTexts len t).foldl listed []
  let idata := (indexedTexts len t).foldl listed []
  idata ++ (if data = [] ∨ idata = [] then [] else latin ", ") ++ data

mutual

def text (len : Nat → Nat) : Datum → List U8
  | .bool b => if b then latin "true" else latin "false"
  | .number n => decimal n
  | .string s => quoted s
  | .table ref entries =>
    latin "\x7b " ++ tableText (len ref) (textsOf len entries) ++ latin " \x7d"

def textsOf (len : Nat → Nat) : List (Key × Datum) → List (Key × List U8)
  | [] => []
  | (k, v) :: entries => (k, text len v) :: textsOf len entries

end

section Seen

variable {α β : Type}

/-- `w` says `x` and sees the tables `R`, or it fails because it sees one of them twice. -/
def Writes (w : Seeing α) (x : α) (R : List Nat) : Prop :=
  ∀ seen : List Nat, seen.Nodup →
    ((R ++ seen).Nodup → ∃ seen', w seen = some (x, seen') ∧ seen'.Perm (R ++ seen)) ∧
    (¬(R ++ seen).Nodup → w seen = none)

theorem Writes.pure (x : α) : Writes (Pure.pure x) x [] := by
  intro seen hseen
  exact ⟨fun _ => ⟨seen, rfl, List.Perm.refl _⟩, fun h => absurd hseen h⟩

theorem Writes.bind {w : Seeing α} {f : α → Seeing β} {x : α} {y : β} {R S : List Nat}
    (hw : Writes w x R) (hf : Writes (f x) y S) : Writes (w >>= f) y (R ++ S) := by
  intro seen hseen
  obtain ⟨hgood, hbad⟩ := hw seen hseen
  have hrun : (w >>= f) seen = (w seen).bind fun r => f r.1 r.2 := rfl
  rw [hrun]
  by_cases hR : (R ++ seen).Nodup
  · obtain ⟨seen₁, hw₁, hperm₁⟩ := hgood hR
    obtain ⟨hgood', hbad'⟩ := hf seen₁ (hperm₁.nodup_iff.mpr hR)
    have hperm : (S ++ seen₁).Perm (R ++ S ++ seen) := by
      refine (hperm₁.append_left S).trans ?_
      rw [← List.append_assoc]
      exact List.perm_append_comm.append_right seen
    rw [hw₁, Option.bind_some]
    constructor
    · intro h
      obtain ⟨seen₂, hf₂, hperm₂⟩ := hgood' (hperm.nodup_iff.mpr h)
      exact ⟨seen₂, hf₂, hperm₂.trans hperm⟩
    · intro h
      exact hbad' fun hS => h (hperm.nodup_iff.mp hS)
  · rw [hbad hR]
    refine ⟨fun h => absurd (h.sublist ?_) hR, fun _ => rfl⟩
    exact (List.sublist_append_left R S).append_right seen

theorem Writes.perm {w : Seeing α} {x : α} {R S : List Nat} (h : Writes w x R) (hperm : R.Perm S) :
    Writes w x S := by
  intro seen hseen
  obtain ⟨hgood, hbad⟩ := h seen hseen
  have hboth := hperm.append_right seen
  constructor
  · intro hS
    obtain ⟨seen', hw, hperm'⟩ := hgood (hboth.nodup_iff.mpr hS)
    exact ⟨seen', hw, hperm'.trans hboth⟩
  · intro hS
    exact hbad fun hR => hS (hboth.nodup_iff.mp hR)

theorem Writes.mark {m w : Seeing α} {x : α} {ref : Nat} {R : List Nat} (h : Writes w x R)
    (hrun : ∀ seen : List Nat, m seen = if ref ∈ seen then none else w (ref :: seen)) :
    Writes m x (ref :: R) := by
  intro seen hseen
  rw [hrun]
  have hperm : (R ++ ref :: seen).Perm (ref :: R ++ seen) := List.perm_middle
  by_cases hmem : ref ∈ seen
  · rw [if_pos hmem]
    refine ⟨fun hnodup => ?_, fun _ => rfl⟩
    exact absurd (List.mem_append_right R hmem) (List.nodup_cons.mp hnodup).1
  · rw [if_neg hmem]
    obtain ⟨hgood, hbad⟩ := h (ref :: seen) (List.nodup_cons.mpr ⟨hmem, hseen⟩)
    constructor
    · intro hnodup
      obtain ⟨seen', hw, hperm'⟩ := hgood (hperm.nodup_iff.mpr hnodup)
      exact ⟨seen', hw, hperm'.trans hperm⟩
    · intro hnodup
      exact hbad fun hR => hnodup (hperm.nodup_iff.mp hR)

end Seen

section Entries

variable {len : Nat → Nat} {entries : List (Key × Datum)}

theorem writers_eq (len : Nat → Nat) (entries : List (Key × Datum)) :
    writers len entries = entries.map fun e => (e.1, serializeData len e.2) := by
  induction entries with
  | nil => rfl
  | cons e entries ih => rw [writers, ih, List.map_cons]

theorem textsOf_eq (len : Nat → Nat) (entries : List (Key × Datum)) :
    textsOf len entries = entries.map fun e => (e.1, text len e.2) := by
  induction entries with
  | nil => rfl
  | cons e entries ih => rw [textsOf, ih, List.map_cons]

theorem refsOf_eq (entries : List (Key × Datum)) :
    refsOf entries = entries.flatMap fun e => refs e.2 := by
  induction entries with
  | nil => rfl
  | cons e entries ih => rw [refsOf, ih, List.flatMap_cons]

theorem rawget_map {α β : Type} (f : α → β) (t : List (Key × α)) (k : Key) :
    rawget (t.map fun e => (e.1, f e.2)) k = (rawget t k).map f := by
  rw [rawget, rawget, List.find?_map, Option.map_map, Option.map_map]
  rfl

theorem extent_map {α β : Type} (f : α → β) (n : Nat) (t : List (Key × α)) :
    extent n (t.map fun e => (e.1, f e.2)) = extent n t := by
  induction t with
  | nil => rfl
  | cons e t ih => exact congrArg (max _) ih

theorem keyedPart_writes (n : Nat)
    (h : ∀ e ∈ entries, Writes (serializeData len e.2) (text len e.2) (refs e.2))
    (data : List U8) (ilen : Nat) :
    Writes (keyedPart n (writers len entries) data ilen)
      ((keyedTexts n (textsOf len entries)).foldl listed data, max ilen (extent n entries))
      ((entries.filter fun e => bracketed n e.1).flatMap fun e => refs e.2) := by
  induction entries generalizing data ilen with
  | nil =>
    rw [extent, Nat.max_zero]
    exact Writes.pure _
  | cons e entries ih =>
    obtain ⟨k, v⟩ := e
    have hrest := ih fun e' hmem => h e' (List.mem_cons_of_mem _ hmem)
    rw [writers, keyedPart, textsOf, keyedTexts, extent]
    cases hk : bracketed n k with
    | true =>
      simp only [List.filter_cons, hk, ↓reduceIte, List.map_cons, List.foldl_cons,
        List.flatMap_cons, Nat.zero_max]
      exact (h (k, v) List.mem_cons_self).bind (hrest _ _)
    | false =>
      simp only [List.filter_cons, hk, Bool.false_eq_true, ↓reduceIte]
      rw [← Nat.max_assoc]
      exact hrest _ _

def refsAt (entries : List (Key × Datum)) (i : Nat) : List Nat :=
  ((rawget entries (.index i)).map refs).getD []

def textAt (len : Nat → Nat) (entries : List (Key × Datum)) (i : Nat) : List U8 :=
  ((rawget entries (.index i)).map (text len)).getD (latin "nil")

theorem mem_of_rawget {α : Type} {t : List (Key × α)} {k : Key} {v : α} (h : rawget t k = some v) :
    (k, v) ∈ t := by
  obtain ⟨e, hfind, rfl⟩ := Option.map_eq_some_iff.mp h
  have hk : decide (e.1 = k) = true := @List.find?_some _ (fun e : Key × α => decide (e.1 = k)) _ _ hfind
  exact of_decide_eq_true hk ▸ List.mem_of_find?_eq_some hfind

theorem indexedPart_writes
    (h : ∀ e ∈ entries, Writes (serializeData len e.2) (text len e.2) (refs e.2))
    (left i : Nat) (idata : List U8) :
    Writes (indexedPart (writers len entries) left i idata)
      (((List.range' i left).map (textAt len entries)).foldl listed idata)
      ((List.range' i left).flatMap (refsAt entries)) := by
  induction left generalizing i idata with
  | zero => exact Writes.pure _
  | succ left ih =>
    rw [indexedPart, List.range'_succ, List.map_cons, List.foldl_cons, List.flatMap_cons]
    refine Writes.bind ?_ (ih (i + 1) _)
    rw [writers_eq, rawget_map, textAt, refsAt]
    cases hget : rawget entries (.index i) with
    | none => exact Writes.pure _
    | some v => exact h _ (mem_of_rawget hget)

end Entries

section Order

variable {entries : List (Key × Datum)} {n : Nat}

theorem bracketed_eq_false {k : Key} : bracketed n k = false ↔ ∃ i, k = .index i ∧ 0 < i ∧ i ≤ n + 3 := by
  cases k with
  | index i =>
    rw [bracketed, Bool.or_eq_false_iff, decide_eq_false_iff_not, decide_eq_false_iff_not]
    constructor
    · intro h
      exact ⟨i, rfl, by omega, by omega⟩
    · rintro ⟨j, hj, hpos, hle⟩
      cases hj
      omega
  | name s =>
    refine iff_of_false (fun h : true = false => Bool.noConfusion h) ?_
    rintro ⟨i, hi, -⟩
    cases hi

theorem le_extent {α : Type} {t : List (Key × α)} {e : Key × α} (hmem : e ∈ t) {i : Nat}
    (hi : e.1 = .index i) (hk : bracketed n e.1 = false) : i ≤ extent n t := by
  induction t with
  | nil => exact absurd hmem List.not_mem_nil
  | cons e' t ih =>
    rw [extent]
    rcases List.mem_cons.mp hmem with rfl | hmem
    · rw [if_neg (by rw [hk]; exact Bool.false_ne_true), hi]
      exact Nat.le_max_left _ _
    · exact Nat.le_trans (ih hmem) (Nat.le_max_right _ _)

theorem extent_le {α : Type} (n : Nat) (t : List (Key × α)) : extent n t ≤ n + 3 := by
  induction t with
  | nil => exact Nat.zero_le _
  | cons e t ih =>
    rw [extent]
    cases hk : bracketed n e.1 with
    | true =>
      rw [if_pos rfl, Nat.zero_max]
      exact ih
    | false =>
      obtain ⟨i, hi, -, hle⟩ := bracketed_eq_false.mp hk
      rw [if_neg Bool.false_ne_true, hi]
      exact Nat.max_le.mpr ⟨hle, ih⟩

theorem not_bracketed_of_le {α : Type} (t : List (Key × α)) {i : Nat} (hpos : 0 < i)
    (hle : i ≤ extent n t) : bracketed n (.index i) = false :=
  bracketed_eq_false.mpr ⟨i, rfl, hpos, Nat.le_trans hle (extent_le n t)⟩

theorem find_of_mem {α : Type} {t : List (Key × α)} (hkeys : (t.map Prod.fst).Nodup) {e : Key × α}
    (hmem : e ∈ t) : t.find? (fun e' => e'.1 = e.1) = some e := by
  induction t with
  | nil => exact absurd hmem List.not_mem_nil
  | cons e' t ih =>
    rw [List.map_cons, List.nodup_cons] at hkeys
    rw [List.find?_cons]
    rcases List.mem_cons.mp hmem with rfl | hmem
    · rw [decide_eq_true rfl]
    · have hother : ¬e'.1 = e.1 := by
        intro heq
        exact hkeys.1 (heq ▸ List.mem_map_of_mem hmem)
      rw [decide_eq_false hother]
      exact ih hkeys.2 hmem

theorem entries_perm (n : Nat) (hkeys : (entries.map Prod.fst).Nodup) :
    (((entries.filter fun e => bracketed n e.1).flatMap fun e => refs e.2) ++
      (List.range' 1 (extent n entries)).flatMap (refsAt entries)).Perm (refsOf entries) := by
  have hat : (List.range' 1 (extent n entries)).flatMap (refsAt entries) =
      ((List.range' 1 (extent n entries)).filterMap fun i =>
        entries.find? fun e => e.1 = .index i).flatMap fun e => refs e.2 := by
    induction List.range' 1 (extent n entries) with
    | nil => rfl
    | cons i is ih =>
      rw [List.flatMap_cons, ih, List.filterMap_cons, refsAt, rawget]
      cases entries.find? fun e => e.1 = .index i with
      | none => rfl
      | some e => rfl
  have hfound {i : Nat} {e : Key × Datum}
      (h : (entries.find? fun e => e.1 = .index i) = some e) : e.1 = .index i :=
    of_decide_eq_true (@List.find?_some _ (fun e : Key × Datum => decide (e.1 = Key.index i)) _ _ h)
  have hothers : ((List.range' 1 (extent n entries)).filterMap fun i =>
      entries.find? fun e => e.1 = .index i).Perm (entries.filter fun e => !bracketed n e.1) := by
    refine (List.perm_ext_iff_of_nodup ?_ ?_).mpr fun e => ?_
    · refine List.Nodup.filterMap ?_ (List.nodup_range' 1 Nat.one_pos)
      intro i j e hi hj
      exact Key.index.inj ((hfound hi).symm.trans (hfound hj))
    · exact (List.Nodup.of_map _ hkeys).filter _
    · rw [List.mem_filterMap, List.mem_filter]
      constructor
      · rintro ⟨i, hrange, hi⟩
        have hrange := List.mem_range'_1.mp hrange
        refine ⟨List.mem_of_find?_eq_some hi, ?_⟩
        rw [hfound hi, not_bracketed_of_le entries (by omega) (by omega)]
        rfl
      · rintro ⟨hmem, hk⟩
        rw [Bool.not_eq_true'] at hk
        obtain ⟨i, hi, hpos, -⟩ := bracketed_eq_false.mp hk
        refine ⟨i, List.mem_range'_1.mpr ⟨hpos, ?_⟩, hi ▸ find_of_mem hkeys hmem⟩
        have hle := le_extent hmem hi hk
        omega
  rw [hat, refsOf_eq, ← List.flatMap_append]
  refine List.Perm.flatMap_right _ ?_
  exact (hothers.append_left _).trans (List.filter_append_perm (fun e => bracketed n e.1) entries)

end Order

def tableBody (len : Nat) (t : List (Key × Seeing (List U8))) : Seeing (List U8) := do
  let (data, ilen) ← keyedPart len t [] 0
  let idata ← indexedPart t ilen 1 []
  return idata ++ (if data = [] ∨ idata = [] then [] else latin ", ") ++ data

theorem serializeTable_run (len ref : Nat) (t : List (Key × Seeing (List U8))) (seen : List Nat) :
    serializeTable len ref t seen = if ref ∈ seen then none else tableBody len t (ref :: seen) := by
  have hrun : serializeTable len ref t seen =
      (if seen.contains ref then failure else set (ref :: seen) >>= fun _ => tableBody len t :
        Seeing (List U8)) seen := rfl
  rw [hrun]
  by_cases hmem : ref ∈ seen
  · rw [if_pos hmem, if_pos (List.contains_iff_mem.mpr hmem)]
    rfl
  · rw [if_neg hmem, if_neg fun h => hmem (List.contains_iff_mem.mp h)]
    rfl

/-- The serialiser writes the text if no table is reached twice, and fails otherwise. -/
theorem serializeData_writes (len : Nat → Nat) {v : Datum} (hv : WellFormed v) :
    Writes (serializeData len v) (text len v) (refs v) := by
  induction hv with
  | bool b => exact Writes.pure _
  | number n => exact Writes.pure _
  | string s => exact Writes.pure _
  | @table ref entries hkeys hindex _ ih =>
    have hkeyed := keyedPart_writes (len ref) ih [] 0
    have hindexed := indexedPart_writes ih (extent (len ref) entries) 1 []
    rw [Nat.zero_max] at hkeyed
    have htexts : (List.range' 1 (extent (len ref) entries)).map (textAt len entries) =
        indexedTexts (len ref) (textsOf len entries) := by
      rw [indexedTexts, textsOf_eq, extent_map]
      apply List.map_congr_left
      intro i _
      rw [textAt, rawget_map]
    rw [htexts] at hindexed
    have htable : Writes (serializeTable (len ref) ref (writers len entries))
        (tableText (len ref) (textsOf len entries)) (ref :: refsOf entries) := by
      refine Writes.mark ?_ (serializeTable_run (len ref) ref (writers len entries))
      refine Writes.perm (hkeyed.bind (hindexed.bind (Writes.pure _))) ?_
      rw [List.append_nil]
      exact entries_perm (len ref) hkeys
    have hbraces := htable.bind (f := fun t => Pure.pure (latin "\x7b " ++ t ++ latin " \x7d"))
      (Writes.pure (latin "\x7b " ++ tableText (len ref) (textsOf len entries) ++ latin " \x7d"))
    rw [List.append_nil] at hbraces
    exact hbraces

end OpenwrtMtk.Luci.Session
