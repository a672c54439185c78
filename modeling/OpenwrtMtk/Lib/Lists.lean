import Mathlib.Data.List.Basic
import Mathlib.Data.List.Forall2
import Mathlib.Data.List.Nodup
import Mathlib.Data.List.Sort

/-!
# Lists

Changes place by place, members that are distinct by their codes, values gathered under names, and
sorting that keeps equal keys in order.
-/

/-!
## Lists that are changed place by place

A reflexive and transitive relation between the old and the new members goes along with any number
of changes at single places.
-/

namespace Toolkit

set_option autoImplicit false

universe u

variable {α : Type u} {R : α → α → Prop}

theorem forall₂_modify (hrefl : ∀ a, R a a) {xs : List α} {i : Nat} {f : α → α}
    (h : ∀ a, xs[i]? = some a → R a (f a)) : List.Forall₂ R xs (xs.modify i f) := by
  have hself (xs : List α) : List.Forall₂ R xs xs := List.forall₂_same.mpr fun a _ => hrefl a
  induction xs generalizing i with
  | nil => cases i <;> exact .nil
  | cons x xs ih =>
    cases i with
    | zero => exact .cons (h x rfl) (hself xs)
    | succ i => exact .cons (hrefl x) (ih h)

theorem forall₂_trans (htrans : ∀ a b c, R a b → R b c → R a c) {xs ys zs : List α}
    (h : List.Forall₂ R xs ys) (h' : List.Forall₂ R ys zs) : List.Forall₂ R xs zs := by
  induction h generalizing zs with
  | nil =>
    cases h'
    exact .nil
  | cons hab _ ih =>
    cases h' with
    | cons hbc hrest => exact .cons (htrans _ _ _ hab hbc) (ih hrest)

end Toolkit

/-!
## Distinct members by their codes

A long table of constants is checked for duplicates by the numbers of its members, which a set of
bits collects.
-/

namespace Toolkit

set_option autoImplicit false

universe u

/-- No number occurs twice, and none is in the set whose bits `seen` holds. -/
def distinctFrom : Nat → List Nat → Bool
  | _, [] => true
  | seen, n :: ns => !seen.testBit n && distinctFrom (seen ||| 1 <<< n) ns

theorem nodup_of_distinctFrom {seen : Nat} {ns : List Nat} (h : distinctFrom seen ns = true) :
    ns.Nodup ∧ ∀ n ∈ ns, seen.testBit n = false := by
  induction ns generalizing seen with
  | nil => exact ⟨List.nodup_nil, fun n hn => absurd hn List.not_mem_nil⟩
  | cons n ns ih =>
    rw [distinctFrom, Bool.and_eq_true] at h
    obtain ⟨hns, hseen⟩ := ih h.2
    have hn : n ∉ ns := by
      intro hmem
      have hbit := hseen n hmem
      simp at hbit
    refine ⟨List.nodup_cons.mpr ⟨hn, hns⟩, ?_⟩
    intro m hm
    rcases List.mem_cons.mp hm with rfl | hm
    · simpa using h.1
    · have hbit := hseen m hm
      simp at hbit
      exact hbit.1

variable {α : Type u} {xs : List α}

theorem nodup_of_codes (code : α → Nat) (h : distinctFrom 0 (xs.map code) = true) : xs.Nodup :=
  List.Nodup.of_map code (nodup_of_distinctFrom h).1

theorem modify_findIdx? {p : α → Bool} (hone : xs.Pairwise fun a b => p a = true → p b = false)
    (f : α → α) {n : Nat} (h : xs.findIdx? p = some n) :
    xs.modify n f = xs.map fun x => if p x then f x else x := by
  induction xs generalizing n with
  | nil => cases h
  | cons x xs ih =>
    obtain ⟨hx, hrest⟩ := List.pairwise_cons.mp hone
    rw [List.findIdx?_cons] at h
    by_cases hp : p x = true
    · rw [if_pos hp] at h
      cases h
      have hnone : (xs.map fun y => if p y then f y else y) = xs := by
        refine (List.map_congr_left ?_).trans (List.map_id xs)
        intro y hy
        rw [hx y hy hp]
        rfl
      rw [List.map_cons, if_pos hp, hnone]
      rfl
    · rw [if_neg hp] at h
      obtain ⟨m, hm, rfl⟩ := Option.map_eq_some_iff.mp h
      rw [List.map_cons, if_neg hp, List.modify_succ_cons, ih hrest hm]

end Toolkit

/-!
## Values gathered under their names

A list of named values, and the values of one name in their order.
-/

namespace Toolkit

set_option autoImplicit false

universe u v w

variable {κ : Type u} {ν : Type v} [DecidableEq κ] {ps : List (κ × ν)} {k : κ}

def valuesOf (k : κ) (ps : List (κ × ν)) : List ν := (ps.filter fun x => x.1 = k).map Prod.snd

theorem valuesOf_append (k : κ) (ps qs : List (κ × ν)) :
    valuesOf k (ps ++ qs) = valuesOf k ps ++ valuesOf k qs := by
  rw [valuesOf, List.filter_append, List.map_append]
  rfl

theorem valuesOf_cons (k : κ) (x : κ × ν) (ps : List (κ × ν)) :
    valuesOf k (x :: ps) = if x.1 = k then x.2 :: valuesOf k ps else valuesOf k ps := by
  unfold valuesOf
  by_cases h : x.1 = k
  · rw [List.filter_cons_of_pos (by simpa using h), if_pos h, List.map_cons]
  · rw [List.filter_cons_of_neg (by simpa using h), if_neg h]

theorem mem_valuesOf {v : ν} : v ∈ valuesOf k ps ↔ (k, v) ∈ ps := by
  unfold valuesOf
  rw [List.mem_map]
  constructor
  · rintro ⟨⟨k', v'⟩, hmem, rfl⟩
    obtain ⟨hin, hk⟩ := List.mem_filter.mp hmem
    have heq : k' = k := by simpa using hk
    exact heq ▸ hin
  · intro h
    exact ⟨(k, v), List.mem_filter.mpr ⟨h, by simp⟩, rfl⟩

theorem valuesOf_eq_nil : valuesOf k ps = [] ↔ ∀ v, (k, v) ∉ ps := by
  rw [List.eq_nil_iff_forall_not_mem]
  constructor
  · intro h v hv
    exact h v (mem_valuesOf.mpr hv)
  · intro h v hv
    exact h v (mem_valuesOf.mp hv)

theorem valuesOf_reverse (k : κ) (ps : List (κ × ν)) :
    valuesOf k ps.reverse = (valuesOf k ps).reverse := by
  rw [valuesOf, List.filter_reverse, List.map_reverse]
  rfl

theorem valuesOf_filter (p : κ → Bool) (k : κ) (ps : List (κ × ν)) :
    valuesOf k (ps.filter fun x => p x.1) = if p k then valuesOf k ps else [] := by
  induction ps with
  | nil => simp [valuesOf]
  | cons x ps ih =>
    rw [List.filter_cons, valuesOf_cons]
    by_cases hx : x.1 = k
    · subst hx
      by_cases hp : p x.1 = true
      · rw [if_pos hp, if_pos hp, valuesOf_cons, if_pos rfl, ih, if_pos hp, if_pos rfl]
      · rw [if_neg hp, if_neg hp, ih, if_neg hp]
    · rw [if_neg hx, ← ih]
      split
      · rw [valuesOf_cons, if_neg hx]
      · rfl

theorem valuesOf_of_nodup {v : ν} (h : (ps.map Prod.fst).Nodup) (hmem : (k, v) ∈ ps) :
    valuesOf k ps = [v] := by
  induction ps with
  | nil => cases hmem
  | cons x ps ih =>
    rw [List.map_cons, List.nodup_cons] at h
    rw [valuesOf_cons]
    rcases List.mem_cons.mp hmem with rfl | hmem
    · have hnone : valuesOf k ps = [] :=
        valuesOf_eq_nil.mpr fun w hw => h.1 (List.mem_map.mpr ⟨(k, w), hw, rfl⟩)
      rw [if_pos rfl, hnone]
    · have hne : x.1 ≠ k := by
        rintro rfl
        exact h.1 (List.mem_map.mpr ⟨_, hmem, rfl⟩)
      rw [if_neg hne, ih h.2 hmem]

theorem valuesOf_map {κ' : Type w} {ν' : Type v} [DecidableEq κ'] (f : κ → κ') (g : ν → ν')
    (hf : ∀ x ∈ ps, f x.1 = f k → x.1 = k) :
    valuesOf (f k) (ps.map fun x => (f x.1, g x.2)) = (valuesOf k ps).map g := by
  induction ps with
  | nil => rfl
  | cons x ps ih =>
    have hrest := ih fun y hy => hf y (List.mem_cons_of_mem _ hy)
    rw [List.map_cons, valuesOf_cons, valuesOf_cons, hrest]
    dsimp only
    by_cases h : x.1 = k
    · rw [if_pos h, if_pos (by rw [h]), List.map_cons]
    · rw [if_neg h, if_neg fun heq => h (hf x List.mem_cons_self heq)]

end Toolkit

/-!
## Lists sorted by a key, with equal keys in their old order

`StableSorted key L Q`: `Q` is `L` sorted, and the elements of one key stand in `Q` as they stand
in `L`. A new element of `L` goes into `Q` in front of the first larger one, and the head of `Q` is
the first of the least elements of `L`.
-/

namespace Toolkit

set_option autoImplicit false

universe u v

variable {α : Type u} {κ : Type v} [LinearOrder κ] (key : α → κ)

structure StableSorted (L Q : List α) : Prop where
  sorted : Q.Pairwise fun a b => key a ≤ key b
  same : ∀ k, (Q.filter fun a => key a = k) = L.filter fun a => key a = k

def insertBehind (a : α) (Q : List α) : List α := Q.orderedInsert (fun x y => key x < key y) a

def takeLeast : List α → Option (α × List α)
  | [] => none
  | a :: L =>
    match takeLeast L with
    | none => some (a, L)
    | some (b, M) => if key a ≤ key b then some (a, L) else some (b, a :: M)

variable {key} {a x : α} {L M Q : List α}

theorem mem_insertBehind : x ∈ insertBehind key a Q ↔ x = a ∨ x ∈ Q :=
  List.mem_orderedInsert _

theorem insertBehind_cons : insertBehind key a (x :: Q) =
    if key a < key x then a :: x :: Q else x :: insertBehind key a Q :=
  List.orderedInsert_cons _ a x Q

theorem insertBehind_sorted (h : Q.Pairwise fun a b => key a ≤ key b) :
    (insertBehind key a Q).Pairwise fun a b => key a ≤ key b := by
  induction Q with
  | nil => exact List.pairwise_singleton _ a
  | cons x Q ih =>
    obtain ⟨hx, hQ⟩ := List.pairwise_cons.mp h
    rw [insertBehind_cons]
    split
    · rename_i hlt
      refine List.pairwise_cons.mpr ⟨?_, h⟩
      intro y hy
      rcases List.mem_cons.mp hy with rfl | hy
      · exact hlt.le
      · exact hlt.le.trans (hx y hy)
    · rename_i hlt
      refine List.pairwise_cons.mpr ⟨?_, ih hQ⟩
      intro y hy
      rcases mem_insertBehind.mp hy with rfl | hy
      · exact not_lt.mp hlt
      · exact hx y hy

theorem filter_insertBehind (h : Q.Pairwise fun a b => key a ≤ key b) (k : κ) :
    ((insertBehind key a Q).filter fun b => key b = k) = (Q ++ [a]).filter fun b => key b = k := by
  induction Q with
  | nil => rfl
  | cons x Q ih =>
    obtain ⟨hx, hQ⟩ := List.pairwise_cons.mp h
    rw [insertBehind_cons]
    split
    · rename_i hlt
      by_cases hk : key a = k
      · -- all that follows is larger
        have hnone : ((x :: Q).filter fun b => key b = k) = [] := by
          apply List.filter_eq_nil_iff.mpr
          intro y hy
          have hle : key x ≤ key y := by
            rcases List.mem_cons.mp hy with rfl | hy
            · exact le_rfl
            · exact hx y hy
          have hne : key y ≠ k := (hk ▸ hlt.trans_le hle).ne'
          simpa using hne
        rw [List.filter_append, hnone, List.filter_cons, hnone]
        simp [hk]
      · simp [List.filter_cons, hk]
    · rw [List.cons_append, List.filter_cons, List.filter_cons, ih hQ]

theorem takeLeast_eq_none : takeLeast key L = none ↔ L = [] := by
  cases L with
  | nil => exact ⟨fun _ => rfl, fun _ => rfl⟩
  | cons a L =>
    rw [takeLeast]
    cases takeLeast key L with
    | none => simp
    | some p =>
      dsimp only
      split <;> simp

theorem takeLeast_split (h : takeLeast key L = some (x, M)) :
    ∃ A B, L = A ++ x :: B ∧ M = A ++ B ∧ (∀ a ∈ A, key x < key a) ∧ ∀ b ∈ B, key x ≤ key b := by
  induction L generalizing x M with
  | nil => cases h
  | cons a L ih =>
    rw [takeLeast] at h
    cases hrest : takeLeast key L with
    | none =>
      rw [hrest] at h
      cases h
      obtain rfl := takeLeast_eq_none.mp hrest
      exact ⟨[], [], rfl, rfl, by simp, by simp⟩
    | some p =>
      obtain ⟨A, B, hL, hM, hA, hB⟩ := ih hrest
      rw [hrest] at h
      dsimp only at h
      split at h
      · rename_i hle
        cases h
        refine ⟨[], L, rfl, rfl, by simp, ?_⟩
        intro b hb
        rw [hL] at hb
        rcases List.mem_append.mp hb with hb | hb
        · exact hle.trans (hA b hb).le
        · rcases List.mem_cons.mp hb with rfl | hb
          · exact hle
          · exact hle.trans (hB b hb)
      · rename_i hle
        cases h
        refine ⟨a :: A, B, by rw [hL]; rfl, by rw [hM]; rfl, ?_, hB⟩
        intro b hb
        rcases List.mem_cons.mp hb with rfl | hb
        · exact not_le.mp hle
        · exact hA b hb

theorem takeLeast_le (h : takeLeast key L = some (x, M)) (ha : a ∈ L) : key x ≤ key a := by
  obtain ⟨A, B, rfl, -, hA, hB⟩ := takeLeast_split h
  rcases List.mem_append.mp ha with ha | ha
  · exact (hA a ha).le
  · rcases List.mem_cons.mp ha with rfl | ha
    · exact le_rfl
    · exact hB a ha

theorem exists_takeLeast (key : α → κ) (ha : a ∈ L) :
    ∃ x M, takeLeast key L = some (x, M) ∧ key x ≤ key a := by
  cases h : takeLeast key L with
  | none =>
    rw [takeLeast_eq_none.mp h] at ha
    cases ha
  | some p => exact ⟨p.1, p.2, rfl, takeLeast_le h ha⟩

theorem takeLeast_erase [DecidableEq α] (h : takeLeast key L = some (x, M)) : M = L.erase x := by
  obtain ⟨A, B, rfl, rfl, hA, -⟩ := takeLeast_split h
  have hx : x ∉ A := fun hmem => lt_irrefl _ (hA x hmem)
  rw [List.erase_append_right _ hx, List.erase_cons_head]

namespace StableSorted

theorem nil : StableSorted key ([] : List α) [] := ⟨.nil, fun _ => rfl⟩

theorem mem_iff (h : StableSorted key L Q) : x ∈ Q ↔ x ∈ L := by
  have hmem := congrArg (x ∈ ·) (h.same (key x))
  simpa using hmem

theorem perm [DecidableEq α] (h : StableSorted key L Q) : Q.Perm L := by
  apply List.perm_iff_count.mpr
  intro x
  have hkeep : ∀ K : List α, List.count x (K.filter fun a => key a = key x) = List.count x K :=
    fun K => List.count_filter (by simp)
  have hcount := congrArg (List.count x) (h.same (key x))
  rwa [hkeep, hkeep] at hcount

theorem insert (h : StableSorted key L Q) (a : α) :
    StableSorted key (L ++ [a]) (insertBehind key a Q) where
  sorted := insertBehind_sorted h.sorted
  same k := by rw [filter_insertBehind h.sorted, List.filter_append, List.filter_append, h.same]

theorem filter (h : StableSorted key L Q) (p : α → Bool) :
    StableSorted key (L.filter p) (Q.filter p) where
  sorted := h.sorted.filter p
  same k := by rw [List.filter_comm, h.same, List.filter_comm]

theorem eq_nil (h : StableSorted key L []) : L = [] :=
  List.eq_nil_iff_forall_not_mem.mpr fun _ hx => List.not_mem_nil (h.mem_iff.mpr hx)

theorem takeLeast (h : StableSorted key L (x :: Q)) :
    ∃ M, Toolkit.takeLeast key L = some (x, M) ∧ StableSorted key M Q := by
  obtain ⟨hx, hQ⟩ := List.pairwise_cons.mp h.sorted
  cases htake : Toolkit.takeLeast key L with
  | none =>
    have hmem : x ∈ L := h.mem_iff.mp List.mem_cons_self
    rw [takeLeast_eq_none.mp htake] at hmem
    cases hmem
  | some p =>
    obtain ⟨y, M⟩ := p
    obtain ⟨A, B, rfl, rfl, hA, -⟩ := takeLeast_split htake
    have hyx : key y ≤ key x := takeLeast_le htake (h.mem_iff.mp List.mem_cons_self)
    have hxy : key x ≤ key y := by
      have hmem : y ∈ x :: Q := h.mem_iff.mpr (by simp)
      rcases List.mem_cons.mp hmem with rfl | hmem
      · exact le_rfl
      · exact hx y hmem
    have hkey : key x = key y := le_antisymm hxy hyx
    have hnone : (A.filter fun a => key a = key y) = [] := by
      apply List.filter_eq_nil_iff.mpr
      intro a ha
      have hne : key a ≠ key y := (hA a ha).ne'
      simpa using hne
    have hhead : x = y := by
      have hsame := h.same (key y)
      rw [List.filter_append, hnone] at hsame
      simp only [List.filter_cons, hkey, decide_true, if_true, List.nil_append,
        List.cons.injEq] at hsame
      exact hsame.1
    subst hhead
    refine ⟨A ++ B, rfl, hQ, fun k => ?_⟩
    have hsame := h.same k
    rw [List.filter_append, List.filter_cons, List.filter_cons] at hsame
    rw [List.filter_append]
    by_cases hk : key x = k
    · subst hk
      rw [hnone] at hsame ⊢
      simpa using hsame
    · simpa [hk] using hsame

end StableSorted

end Toolkit
