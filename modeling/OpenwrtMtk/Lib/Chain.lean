import Mathlib.Data.List.Basic
import Mathlib.Data.List.Nodup
import Mathlib.Logic.Function.Basic

/-!
# Singly linked lists in a table of nodes

`next` maps a node to the node its link field points to. `Chain next p L` says that
following the links from `p` visits exactly `L` and then reaches the null link, so a
head that has a chain is acyclic. `chase` is the walk a program makes: it keeps the
previous node and stops at the first node a test accepts; it is fuelled because links
may be cyclic, and `chase_eq` says that a chain shorter than the fuel is walked to the
end.
-/

namespace Toolkit

set_option autoImplicit false

universe u

variable {ι : Type u}

/-- The links from `p` visit exactly `L`, then the null link. -/
inductive Chain (next : ι → Option ι) : Option ι → List ι → Prop where
  | nil : Chain next none []
  | cons {i : ι} {L : List ι} : Chain next (next i) L → Chain next (some i) (i :: L)

/-- Walk from `cur`, whose predecessor is `pre`, to the first node accepted by `stop`.
The result is that node (or null) with its predecessor; `none` is fuel exhausted. -/
def chase (next : ι → Option ι) (stop : ι → Bool) :
    Nat → Option ι → Option ι → Option (Option ι × Option ι)
  | 0, _, _ => none
  | _ + 1, pre, none => some (pre, none)
  | n + 1, pre, some i => if stop i then some (pre, some i) else chase next stop n (some i) (next i)

def scan (stop : ι → Bool) : Option ι → List ι → Option ι × Option ι
  | pre, [] => (pre, none)
  | pre, i :: L => if stop i then (pre, some i) else scan stop (some i) L

section Equations

variable (next : ι → Option ι) (stop : ι → Bool) (pre : Option ι) (i : ι) (L : List ι) (n : Nat)

theorem chase_some : chase next stop (n + 1) pre (some i) =
    if stop i then some (pre, some i) else chase next stop n (some i) (next i) := rfl

theorem scan_cons : scan stop pre (i :: L) =
    if stop i then (pre, some i) else scan stop (some i) L := rfl

end Equations

namespace Chain

variable {next next' : ι → Option ι} {p : Option ι} {i j : ι} {L M : List ι}

theorem unique (h : Chain next p L) : ∀ {M : List ι}, Chain next p M → L = M := by
  induction h with
  | nil => intro M hM; cases hM; rfl
  | cons _ ih => intro M hM; cases hM with | cons hM => rw [ih hM]

theorem head_eq (h : Chain next p L) : p = L.head? := by
  cases h <;> rfl

theorem tail (h : Chain next p (i :: L)) : Chain next (next i) L := by
  cases h; assumption

theorem of_append (h : Chain next p (L ++ i :: M)) : Chain next (some i) (i :: M) := by
  induction L generalizing p with
  | nil => have hp := h.head_eq; simp at hp; subst hp; exact h
  | cons _ L ih => exact ih h.tail

theorem nodup (h : Chain next p L) : L.Nodup := by
  induction h with
  | nil => exact List.nodup_nil
  | @cons i L hL ih =>
    refine List.nodup_cons.mpr ⟨fun hmem => ?_, ih⟩
    obtain ⟨A, B, rfl⟩ := List.append_of_mem hmem
    have heq := (Chain.cons hL).unique hL.of_append
    have hlen := congrArg List.length heq
    simp at hlen
    omega

theorem congr (h : Chain next p L) (heq : ∀ i ∈ L, next' i = next i) : Chain next' p L := by
  induction h with
  | nil => exact .nil
  | @cons i L _ ih =>
    refine .cons ?_
    rw [heq i List.mem_cons_self]
    exact ih fun j hj => heq j (List.mem_cons_of_mem _ hj)

theorem next_eq (h : Chain next p (L ++ i :: M)) : next i = M.head? :=
  h.of_append.tail.head_eq

variable [DecidableEq ι]

theorem append (h : Chain next p (L ++ [j])) (hi : i ∉ L ++ [j]) (hnext : next i = none) :
    Chain (Function.update next j (some i)) p (L ++ [j] ++ [i]) := by
  induction L generalizing p with
  | nil =>
    have hp := h.head_eq
    simp at hp hi
    subst hp
    refine .cons ?_
    rw [Function.update_self]
    refine .cons ?_
    rw [Function.update_of_ne hi, hnext]
    exact .nil
  | cons k L ih =>
    have hp := h.head_eq
    simp at hp
    subst hp
    have hk : k ≠ j := by
      intro hkj
      have hnd := h.nodup
      rw [hkj] at hnd
      simp at hnd
    refine .cons ?_
    rw [Function.update_of_ne hk]
    exact ih h.tail (by simp only [List.cons_append, List.mem_cons, not_or] at hi; exact hi.2)

theorem unlink (h : Chain next p (L ++ j :: i :: M)) :
    Chain (Function.update next j (next i)) p (L ++ j :: M) := by
  induction L generalizing p with
  | nil =>
    have hp := h.head_eq
    simp at hp
    subst hp
    refine .cons ?_
    rw [Function.update_self]
    have hnd := h.nodup
    simp only [List.nil_append, List.nodup_cons, List.mem_cons, not_or] at hnd
    refine h.tail.tail.congr fun k hk => Function.update_of_ne ?_ _ _
    rintro rfl
    exact hnd.1.2 hk
  | cons k L ih =>
    have hp := h.head_eq
    simp at hp
    subst hp
    have hk : k ≠ j := by
      intro hkj
      have hnd := h.nodup
      rw [hkj] at hnd
      simp at hnd
    refine .cons ?_
    rw [Function.update_of_ne hk]
    exact ih h.tail

theorem insert (h : Chain next p (L ++ j :: M)) (hi : i ∉ L ++ j :: M) :
    Chain (Function.update (Function.update next i (next j)) j (some i)) p (L ++ j :: i :: M) := by
  induction L generalizing p with
  | nil =>
    have hp := h.head_eq
    simp at hp
    subst hp
    simp only [List.nil_append, List.mem_cons, not_or] at hi
    have hnd := h.nodup
    simp only [List.nil_append, List.nodup_cons] at hnd
    refine .cons ?_
    rw [Function.update_self]
    refine .cons ?_
    rw [Function.update_of_ne hi.1, Function.update_self]
    refine h.tail.congr ?_
    intro k hk
    have hkj : k ≠ j := fun heq => hnd.1 (heq ▸ hk)
    have hki : k ≠ i := fun heq => hi.2 (heq ▸ hk)
    rw [Function.update_of_ne hkj, Function.update_of_ne hki]
  | cons k L ih =>
    have hp := h.head_eq
    simp at hp
    subst hp
    simp only [List.cons_append, List.mem_cons, not_or] at hi
    have hnd := h.nodup
    simp only [List.cons_append, List.nodup_cons] at hnd
    have hkj : k ≠ j := by
      rintro rfl
      exact hnd.1 (by simp)
    refine .cons ?_
    rw [Function.update_of_ne hkj, Function.update_of_ne (Ne.symm hi.1)]
    exact ih h.tail hi.2

end Chain

section Walk

variable {next : ι → Option ι} {stop : ι → Bool} {p pre : Option ι} {L : List ι} {fuel : Nat}

theorem chase_eq (h : Chain next p L) (hfuel : L.length < fuel) :
    chase next stop fuel pre p = some (scan stop pre L) := by
  induction h generalizing pre fuel with
  | nil =>
    obtain ⟨n, rfl⟩ := Nat.exists_eq_add_of_lt hfuel
    rfl
  | @cons i L _ ih =>
    cases fuel with
    | zero => simp at hfuel
    | succ n =>
      simp only [List.length_cons, Nat.add_lt_add_iff_right] at hfuel
      rw [chase_some, scan_cons]
      split
      · rfl
      · exact ih hfuel

theorem chase_stop {pre' : Option ι} {i : ι}
    (h : chase next stop fuel pre p = some (pre', some i)) : stop i = true := by
  induction fuel generalizing pre p with
  | zero => cases h
  | succ n ih =>
    cases p with
    | none => cases h
    | some k =>
      rw [chase_some] at h
      split at h
      · rename_i hk
        simp only [Option.some.injEq, Prod.mk.injEq] at h
        exact h.2 ▸ hk
      · exact ih h

theorem chase_null {pre' : Option ι} (h : chase next stop fuel pre p = some (pre', none)) :
    ∃ L, Chain next p L ∧ L.length < fuel ∧ ∀ i ∈ L, stop i = false := by
  induction fuel generalizing pre p with
  | zero => cases h
  | succ n ih =>
    cases p with
    | none => exact ⟨[], .nil, Nat.succ_pos n, fun _ hi => absurd hi List.not_mem_nil⟩
    | some k =>
      rw [chase_some] at h
      split at h
      · simp at h
      · rename_i hk
        obtain ⟨L, hL, hlen, hpass⟩ := ih h
        refine ⟨k :: L, .cons hL, Nat.succ_lt_succ hlen, ?_⟩
        intro i hi
        rcases List.mem_cons.mp hi with rfl | hi
        · exact Bool.eq_false_iff.mpr hk
        · exact hpass i hi

theorem scan_none (h : ∀ i ∈ L, stop i = false) :
    scan stop pre L = ((pre :: L.map some).getLast (by simp), none) := by
  induction L generalizing pre with
  | nil => rfl
  | cons i L ih =>
    rw [scan_cons, if_neg (by simp [h i List.mem_cons_self]),
      ih fun j hj => h j (List.mem_cons_of_mem _ hj)]
    simp [List.getLast_cons]

theorem scan_snd (stop : ι → Bool) (pre : Option ι) (L : List ι) :
    (scan stop pre L).2 = L.find? stop := by
  induction L generalizing pre with
  | nil => rfl
  | cons i L ih =>
    rw [scan_cons, List.find?_cons]
    split
    · rename_i hi; simp [hi]
    · rename_i hi; simp [hi, ih]

theorem scan_split [DecidableEq ι] {i : ι} {A B : List ι} (h : i ∉ A) :
    scan (fun j => decide (j = i)) pre (A ++ i :: B) =
      ((pre :: A.map some).getLast (by simp), some i) := by
  induction A generalizing pre with
  | nil => simp [scan_cons]
  | cons a A ih =>
    simp only [List.mem_cons, not_or] at h
    rw [List.cons_append, scan_cons, if_neg (by simpa using Ne.symm h.1), ih h.2]
    simp [List.getLast_cons]

theorem scan_last {A : List ι} {j : ι} (h : Chain next p (A ++ [j])) :
    scan (fun k => (next k).isNone) pre (A ++ [j]) =
      ((pre :: A.map some).getLast (by simp), some j) := by
  induction A generalizing p pre with
  | nil => simp [scan_cons, h.tail.head_eq]
  | cons a A ih =>
    have ha : next a = (A ++ [j]).head? := h.tail.head_eq
    rw [List.cons_append, scan_cons, if_neg (by cases A <;> simp [ha]), ih h.tail]
    simp [List.getLast_cons]

end Walk

end Toolkit

/-!
## A walk along a linked list that may unlink what it visits

The walk keeps the node before the current one. `Cursor next head A prev cur L` says that it has
left the nodes `A` behind and has `L` before it; taking the current node off the list writes one
link, that of the previous node or the head.
-/

namespace Toolkit

set_option autoImplicit false

universe u

variable {ι : Type u}

structure Cursor (next : ι → Option ι) (head : Option ι) (A : List ι) (prev cur : Option ι)
    (L : List ι) : Prop where
  chain : Chain next head (A ++ L)
  prev_eq : prev = A.getLast?
  cur_eq : cur = L.head?

namespace Cursor

variable {next : ι → Option ι} {head prev cur : Option ι} {A L : List ι} {i : ι}

theorem start (h : Chain next head L) : Cursor next head [] none head L :=
  ⟨h, rfl, h.head_eq⟩

theorem finish (h : Cursor next head A prev none L) : L = [] :=
  List.head?_eq_none_iff.mp h.cur_eq.symm

theorem next_eq (h : Cursor next head A prev cur (i :: L)) : next i = L.head? :=
  h.chain.next_eq

theorem advance (h : Cursor next head A prev cur (i :: L)) :
    Cursor next head (A ++ [i]) (some i) (next i) L where
  chain := by
    rw [List.append_assoc]
    exact h.chain
  prev_eq := by simp
  cur_eq := h.next_eq

theorem nodup (h : Cursor next head A prev cur L) : (A ++ L).Nodup := h.chain.nodup

theorem unlink_head (h : Cursor next head A none cur (i :: L)) :
    A = [] ∧ Cursor next (next i) A none (next i) L := by
  have hA : A = [] := List.getLast?_eq_none_iff.mp h.prev_eq.symm
  subst hA
  exact ⟨rfl, h.chain.tail, rfl, h.next_eq⟩

theorem prev_mem (h : Cursor next head A (some i) cur L) : i ∈ A :=
  List.mem_of_getLast? h.prev_eq.symm

theorem unlink [DecidableEq ι] {p : ι} (h : Cursor next head A (some p) cur (i :: L)) :
    Cursor (Function.update next p (next i)) head A (some p) (next i) L where
  chain := by
    obtain ⟨B, hB⟩ := List.getLast?_eq_some_iff.mp h.prev_eq.symm
    have hchain := h.chain
    rw [hB, List.append_assoc] at hchain ⊢
    exact Chain.unlink hchain
  prev_eq := h.prev_eq
  cur_eq := h.next_eq

theorem insert_head [DecidableEq ι] (h : Cursor next head A none cur L) (hi : i ∉ A ++ L) :
    A = [] ∧ Chain (Function.update next i head) (some i) (A ++ i :: L) := by
  have hA : A = [] := List.getLast?_eq_none_iff.mp h.prev_eq.symm
  subst hA
  refine ⟨rfl, .cons ?_⟩
  rw [Function.update_self]
  refine h.chain.congr ?_
  intro k hk
  have hne : k ≠ i := by
    rintro rfl
    exact hi hk
  exact Function.update_of_ne hne _ _

theorem insert [DecidableEq ι] {p : ι} (h : Cursor next head A (some p) cur L)
    (hi : i ∉ A ++ L) :
    Chain (Function.update (Function.update next i (next p)) p (some i)) head (A ++ i :: L) := by
  obtain ⟨B, hB⟩ := List.getLast?_eq_some_iff.mp h.prev_eq.symm
  have hchain := h.chain
  rw [hB, List.append_assoc] at hchain hi ⊢
  exact Chain.insert hchain hi

end Cursor

end Toolkit
