import OpenwrtMtk.Lib.Chain
import Mathlib.Data.Fintype.Card

/-!
# Hash chains

A table of nodes is reached from the heads of its buckets. `Threaded next head L` says that the
links below the head of bucket `b` visit exactly `L b` and that no node hangs in two buckets. A
node is hung behind the last one of a bucket and taken off from wherever it is; both leave the
other buckets as they were.
-/

namespace Toolkit

set_option autoImplicit false

universe u v

variable {ι : Type u} {β : Type v}
variable {next next' : ι → Option ι} {head head' : β → Option ι} {L : β → List ι}
variable {b : β} {i k : ι} {fuel : Nat}

/-- The heads and links represent the lists `L`, no two of which share a node. -/
structure Threaded (next : ι → Option ι) (head : β → Option ι) (L : β → List ι) : Prop where
  chain : ∀ b, Chain next (head b) (L b)
  disjoint : ∀ b c i, i ∈ L b → i ∈ L c → b = c

namespace Threaded

theorem empty : Threaded next (fun _ : β => none) fun _ => [] :=
  ⟨fun _ => .nil, fun _ _ _ hi => absurd hi List.not_mem_nil⟩

theorem nodup (h : Threaded next head L) (b : β) : (L b).Nodup := (h.chain b).nodup

theorem congr (h : Threaded next head L) (hnext : ∀ i, (∃ b, i ∈ L b) → next' i = next i) :
    Threaded next' head L :=
  ⟨fun b => (h.chain b).congr fun i hi => hnext i ⟨b, hi⟩, h.disjoint⟩

theorem walk [Fintype ι] (h : Threaded next head L) (hfuel : Fintype.card ι < fuel)
    (stop : ι → Bool) (b : β) :
    chase next stop fuel none (head b) = some (scan stop none (L b)) := by
  apply chase_eq (h.chain b)
  have hcard := (h.nodup b).length_le_card
  omega

theorem miss [Fintype ι] [DecidableEq ι] (h : Threaded next head L) (hfuel : Fintype.card ι < fuel)
    (hi : i ∉ L b) :
    ∃ pre, chase next (fun k => decide (k = i)) fuel none (head b) = some (pre, none) := by
  have hpass : ∀ k ∈ L b, decide (k = i) = false := by
    intro k hk
    apply decide_eq_false
    rintro rfl
    exact hi hk
  rw [h.walk hfuel, scan_none hpass]
  exact ⟨_, rfl⟩

theorem fresh (h : Threaded next head L) (hi : ∀ c, i ∉ L c) {c : β} (hc : c ≠ b) :
    ∀ k ∈ L b ++ [i], k ∉ L c := by
  intro k hk hkc
  rcases List.mem_append.mp hk with hk | hk
  · exact hc (h.disjoint _ _ _ hkc hk)
  · rw [List.mem_singleton.mp hk] at hkc
    exact hi c hkc

variable [DecidableEq β]

theorem mem_update {M : List ι} {c : β} :
    i ∈ Function.update L b M c ↔ (c = b ∧ i ∈ M) ∨ (c ≠ b ∧ i ∈ L c) := by
  by_cases hc : c = b
  · subst hc
    simp
  · simp [hc]

theorem update (h : Threaded next head L) {M : List ι} (hM : Chain next' (head' b) M)
    (hothers : ∀ c, c ≠ b → head' c = head c ∧ ∀ k ∈ L c, next' k = next k)
    (hfresh : ∀ c, c ≠ b → ∀ k ∈ M, k ∉ L c) :
    Threaded next' head' (Function.update L b M) := by
  constructor
  · intro c
    by_cases hc : c = b
    · subst hc
      simpa using hM
    · rw [Function.update_of_ne hc, (hothers c hc).1]
      exact (h.chain c).congr (hothers c hc).2
  · intro c d k hk hk'
    rcases mem_update.mp hk with ⟨rfl, hkM⟩ | ⟨hc, hkL⟩
    · rcases mem_update.mp hk' with ⟨rfl, _⟩ | ⟨hd, hkL'⟩
      · rfl
      · exact absurd hkL' (hfresh _ hd k hkM)
    · rcases mem_update.mp hk' with ⟨rfl, hkM⟩ | ⟨_, hkL'⟩
      · exact absurd hkL (hfresh _ hc k hkM)
      · exact h.disjoint _ _ _ hkL hkL'

theorem mem_hung {c : β} :
    k ∈ Function.update L b (L b ++ [i]) c ↔ k ∈ L c ∨ (c = b ∧ k = i) := by
  by_cases hc : c = b
  · subst hc
    simp
  · simp [hc]

theorem hang_first (h : Threaded next head L) (hi : ∀ c, i ∉ L c) (hnull : next i = none)
    (hhead : head b = none) :
    Threaded next (Function.update head b (some i)) (Function.update L b (L b ++ [i])) := by
  have hempty : L b = [] :=
    List.head?_eq_none_iff.mp ((h.chain b).head_eq.symm.trans hhead)
  apply h.update _ (fun c hc => ⟨by rw [Function.update_of_ne hc], fun _ _ => rfl⟩)
    (fun c hc => h.fresh hi hc)
  rw [hempty, Function.update_self]
  apply Chain.cons
  rw [hnull]
  exact .nil

variable [DecidableEq ι]

theorem mem_erased (h : Threaded next head L) {c : β} :
    k ∈ Function.update L b ((L b).erase i) c ↔ k ∈ L c ∧ ¬(c = b ∧ k = i) := by
  by_cases hc : c = b
  · subst hc
    simp [(h.nodup c).mem_erase_iff, and_comm]
  · simp [hc]

theorem hang_last [Fintype ι] (h : Threaded next head L) (hfuel : Fintype.card ι < fuel)
    (hi : ∀ c, i ∉ L c) (hnull : next i = none) (hhead : (head b).isSome = true) :
    ∃ pre last, last ∈ L b ∧
      chase next (fun k => (next k).isNone) fuel none (head b) = some (pre, some last) ∧
      Threaded (Function.update next last (some i)) head
        (Function.update L b (L b ++ [i])) := by
  have hne : L b ≠ [] := by
    intro hnil
    rw [(h.chain b).head_eq, hnil] at hhead
    simp at hhead
  obtain ⟨M, last, hM⟩ : ∃ M last, L b = M ++ [last] :=
    ⟨_, _, (List.dropLast_append_getLast hne).symm⟩
  have hc := h.chain b
  rw [hM] at hc
  refine ⟨(none :: M.map some).getLast (by simp), last, by simp [hM], ?_, ?_⟩
  · rw [h.walk hfuel, hM]
    exact congrArg some (scan_last hc)
  · refine h.update ?_ (fun c hc' => ⟨rfl, fun k hk => ?_⟩) (fun c hc' => h.fresh hi hc')
    · rw [hM]
      exact hc.append (hM ▸ hi _) hnull
    · apply Function.update_of_ne
      rintro rfl
      exact hc' (h.disjoint _ _ _ hk (by simp [hM]))

theorem take_off [Fintype ι] (h : Threaded next head L) (hfuel : Fintype.card ι < fuel)
    (hi : i ∈ L b) :
    (chase next (fun k => decide (k = i)) fuel none (head b) = some (none, some i) ∧
      Threaded next (Function.update head b (next i)) (Function.update L b ((L b).erase i))) ∨
    ∃ pre, pre ∈ L b ∧
      chase next (fun k => decide (k = i)) fuel none (head b) = some (some pre, some i) ∧
      Threaded (Function.update next pre (next i)) head
        (Function.update L b ((L b).erase i)) := by
  have hfresh : ∀ c, c ≠ b → ∀ k ∈ (L b).erase i, k ∉ L c := fun c hc k hk hk' =>
    hc (h.disjoint _ _ _ hk' (List.mem_of_mem_erase hk))
  obtain ⟨A, B, hiA, hAB, herase⟩ := List.exists_erase_eq hi
  have hwalk := h.walk hfuel (fun k => decide (k = i)) b
  rw [hAB, scan_split hiA] at hwalk
  have hc := h.chain b
  rw [hAB] at hc
  rcases List.eq_nil_or_concat' A with rfl | ⟨A', pre, rfl⟩
  · left
    refine ⟨hwalk, h.update ?_
      (fun c hc' => ⟨by rw [Function.update_of_ne hc'], fun _ _ => rfl⟩) hfresh⟩
    rw [herase, Function.update_self]
    exact hc.tail
  · right
    refine ⟨pre, by simp [hAB], by simpa using hwalk, h.update ?_
      (fun c hc' => ⟨rfl, fun k hk => Function.update_of_ne ?_ _ _⟩) hfresh⟩
    · rw [herase]
      simp only [List.append_assoc, List.singleton_append] at hc ⊢
      exact hc.unlink
    · rintro rfl
      exact hc' (h.disjoint _ _ _ hk (by simp [hAB]))

end Threaded

end Toolkit
