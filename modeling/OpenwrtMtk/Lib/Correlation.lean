import Mathlib.Data.Set.Insert
import OpenwrtMtk.Lib.Run

/-!
# Answers matched by a reusable tag

Owners ask under a tag and wait for the answer to it. Tags are few and are used again; a ticket is
used once, and tells the questions apart. A question that is issued under a tag withdraws the
outstanding ones of that tag. Questions may be dropped and owners may stop waiting at any time.

If no tag is given to an owner while another one waits under it, every answer reaches the owner that
asked, and answers the last question it asked.
-/

namespace Toolkit

set_option autoImplicit false

universe u v w

variable {Owner : Type u} {Tag : Type v} {Ticket : Type w}

/-- The outstanding questions, the tags that owners wait under, and the tickets that were used. -/
structure Desk (Owner : Type u) (Tag : Type v) (Ticket : Type w) where
  outstanding : Set (Tag × Ticket)
  waits : Set (Owner × Tag)
  used : Set Ticket

/-- What can be told apart from outside. -/
inductive Post (Owner : Type u) (Ticket : Type w) where
  | issued (o : Owner) (k : Ticket)
  | answered (o : Owner) (k : Ticket)
  deriving DecidableEq

namespace Desk

variable {s s' : Desk Owner Tag Ticket} {o : Owner} {t : Tag} {k : Ticket}

/-- Nobody but `o` waits under the tag. -/
def Exclusive (s : Desk Owner Tag Ticket) (o : Owner) (t : Tag) : Prop :=
  ∀ o', (o', t) ∈ s.waits → o' = o

/-- Less is outstanding and fewer wait. -/
structure Shrinks (s s' : Desk Owner Tag Ticket) : Prop where
  outstanding : s'.outstanding ⊆ s.outstanding
  waits : s'.waits ⊆ s.waits
  used : s.used ⊆ s'.used

/-- `o` takes the tag `t`: it waits under no other, and what was outstanding under it is withdrawn.
-/
structure Takes (s : Desk Owner Tag Ticket) (o : Owner) (t : Tag) (s' : Desk Owner Tag Ticket) :
    Prop where
  exclusive : s.Exclusive o t
  outstanding : ∀ {t' k}, (t', k) ∈ s'.outstanding → t' ≠ t ∧ (t', k) ∈ s.outstanding
  waits : ∀ {o' t'}, (o', t') ∈ s'.waits → o' = o ∧ t' = t ∨ o' ≠ o ∧ (o', t') ∈ s.waits
  used : s.used ⊆ s'.used

/-- One thing that happens, with its posts. -/
inductive Step (s : Desk Owner Tag Ticket) :
    List (Post Owner Ticket) → Desk Owner Tag Ticket → Prop where
  | shrink {s' : Desk Owner Tag Ticket} : Shrinks s s' → Step s [] s'
  | take {o : Owner} {t : Tag} {s' : Desk Owner Tag Ticket} : Takes s o t s' → Step s [] s'
  | issue {o : Owner} {t : Tag} {k : Ticket} {mid s' : Desk Owner Tag Ticket} :
      Takes s o t mid → k ∉ mid.used → s'.outstanding ⊆ insert (t, k) mid.outstanding →
      s'.waits ⊆ mid.waits → insert k mid.used ⊆ s'.used → Step s [.issued o k] s'
  | answer {o : Owner} {t : Tag} {k : Ticket} :
      (t, k) ∈ s.outstanding → (o, t) ∈ s.waits → Step s [.answered o k] s

def lastIssued [DecidableEq Owner] (o : Owner) (log : List (Post Owner Ticket)) : Option Ticket :=
  log.reverse.findSome? fun p =>
    match p with
    | .issued o' k => if o' = o then some k else none
    | .answered _ _ => none

theorem split_snoc {log pre post : List (Post Owner Ticket)} {p q : Post Owner Ticket}
    (h : log ++ [p] = pre ++ q :: post) :
    log = pre ∧ p = q ∨ ∃ post', log = pre ++ q :: post' := by
  rcases List.eq_nil_or_concat post with rfl | ⟨post', p', rfl⟩
  · obtain ⟨hlog, hp⟩ := List.append_inj' h rfl
    exact .inl ⟨hlog, List.singleton_inj.mp hp⟩
  · rw [List.concat_eq_append, ← List.cons_append, ← List.append_assoc] at h
    exact .inr ⟨post', (List.append_inj' h rfl).1⟩

section LastIssued

variable [DecidableEq Owner] {log : List (Post Owner Ticket)}

@[simp] theorem lastIssued_issued (o o' : Owner) (k : Ticket) :
    lastIssued o (log ++ [.issued o' k]) = if o' = o then some k else lastIssued o log := by
  by_cases h : o' = o
  · simp [lastIssued, h]
  · simp [lastIssued, h]

@[simp] theorem lastIssued_answered (o o' : Owner) (k : Ticket) :
    lastIssued o (log ++ [.answered o' k]) = lastIssued o log := by
  simp [lastIssued]

theorem issued_of_lastIssued (h : lastIssued o log = some k) : .issued o k ∈ log := by
  obtain ⟨p, hp, hk⟩ := List.exists_of_findSome?_eq_some h
  cases p with
  | issued o' k' =>
    by_cases ho : o' = o
    · simp only [ho, if_true, Option.some.injEq] at hk
      rw [← ho] at *
      simpa [hk] using hp
    · simp [ho] at hk
  | answered o' k' => simp at hk

end LastIssued

variable [DecidableEq Owner]

def Answers (log : List (Post Owner Ticket)) (o : Owner) (k : Ticket) : Prop :=
  lastIssued o log = some k ∧ ∀ o', .issued o' k ∈ log → o' = o

/-- Whoever waits under the tag of an outstanding question asked it, and asked nothing since. -/
structure Aligned (log : List (Post Owner Ticket)) (s : Desk Owner Tag Ticket) : Prop where
  last : ∀ {o t k}, (t, k) ∈ s.outstanding → (o, t) ∈ s.waits → lastIssued o log = some k
  used : ∀ {o k}, .issued o k ∈ log → k ∈ s.used
  once : ∀ {o o' k}, .issued o k ∈ log → .issued o' k ∈ log → o = o'
  answered : ∀ {pre post o k}, log = pre ++ .answered o k :: post → Answers pre o k

variable {log posts : List (Post Owner Ticket)}

theorem Aligned.shrink (h : Aligned log s) (hs : Shrinks s s') : Aligned log s' where
  last hk ho := h.last (hs.outstanding hk) (hs.waits ho)
  used hi := hs.used (h.used hi)
  once := h.once
  answered := h.answered

theorem Aligned.take (h : Aligned log s) (hs : Takes s o t s') : Aligned log s' where
  last := by
    intro o' t' k' hk ho
    obtain ⟨hne, hk⟩ := hs.outstanding hk
    rcases hs.waits ho with ⟨_, rfl⟩ | ⟨_, hold⟩
    · exact absurd rfl hne
    · exact h.last hk hold
  used hi := hs.used (h.used hi)
  once := h.once
  answered := h.answered

theorem Aligned.issue {mid : Desk Owner Tag Ticket} (h : Aligned log s) (hs : Takes s o t mid)
    (hk : k ∉ mid.used) (hout : s'.outstanding ⊆ insert (t, k) mid.outstanding)
    (hwaits : s'.waits ⊆ mid.waits) (hused : insert k mid.used ⊆ s'.used) :
    Aligned (log ++ [.issued o k]) s' where
  last := by
    intro o' t' k' hk' ho'
    rw [lastIssued_issued]
    have hwait := hs.waits (hwaits ho')
    rcases hout hk' with heq | hold
    · cases heq
      -- only `o` can wait under the tag it took
      rcases hwait with ⟨rfl, _⟩ | ⟨hne, hin⟩
      · rw [if_pos rfl]
      · exact absurd (hs.exclusive _ hin) hne
    · obtain ⟨hne, hold⟩ := hs.outstanding hold
      rcases hwait with ⟨_, rfl⟩ | ⟨ho, hin⟩
      · exact absurd rfl hne
      · rw [if_neg (Ne.symm ho)]
        exact h.last hold hin
  used := by
    intro o' k' hi
    rcases List.mem_append.mp hi with hi | hi
    · exact hused (.inr (hs.used (h.used hi)))
    · cases List.mem_singleton.mp hi
      exact hused (.inl rfl)
  once := by
    intro o₁ o₂ k' h₁ h₂
    -- the ticket was not in use, so it is in no older post
    have hnew : ∀ {o'}, .issued o' k ∉ log := fun hi => hk (hs.used (h.used hi))
    rcases List.mem_append.mp h₁ with h₁ | h₁ <;> rcases List.mem_append.mp h₂ with h₂ | h₂
    · exact h.once h₁ h₂
    · cases List.mem_singleton.mp h₂
      exact absurd h₁ hnew
    · cases List.mem_singleton.mp h₁
      exact absurd h₂ hnew
    · cases List.mem_singleton.mp h₁
      cases List.mem_singleton.mp h₂
      rfl
  answered := by
    intro pre post o' k' heq
    rcases split_snoc heq with ⟨_, hp⟩ | ⟨post', hlog⟩
    · cases hp
    · exact h.answered hlog

theorem Aligned.answer (h : Aligned log s) (hk : (t, k) ∈ s.outstanding) (ho : (o, t) ∈ s.waits) :
    Aligned (log ++ [.answered o k]) s where
  last hk' ho' := by
    rw [lastIssued_answered]
    exact h.last hk' ho'
  used hi := h.used (by simpa using hi)
  once h₁ h₂ := h.once (by simpa using h₁) (by simpa using h₂)
  answered := by
    intro pre post o' k' heq
    rcases split_snoc heq with ⟨rfl, hp⟩ | ⟨post', hlog⟩
    · cases hp
      have hlast := h.last hk ho
      exact ⟨hlast, fun o'' hi => h.once hi (issued_of_lastIssued hlast)⟩
    · exact h.answered hlog

theorem Aligned.step (h : Aligned log s) (hs : Step s posts s') : Aligned (log ++ posts) s' := by
  cases hs with
  | shrink hs =>
    rw [List.append_nil]
    exact h.shrink hs
  | take hs =>
    rw [List.append_nil]
    exact h.take hs
  | issue hs hk hout hwaits hused => exact h.issue hs hk hout hwaits hused
  | answer hk ho => exact h.answer hk ho

def empty : Desk Owner Tag Ticket := ⟨∅, ∅, ∅⟩

theorem aligned_empty : Aligned [] (empty : Desk Owner Tag Ticket) where
  last hk := absurd hk (Set.notMem_empty _)
  used hi := by cases hi
  once hi := by cases hi
  answered h := by simp at h

theorem aligned_run {steps : List (List (Post Owner Ticket))}
    (h : Run Step (empty : Desk Owner Tag Ticket) steps s) : Aligned steps.flatten s := by
  induction h with
  | nil => exact aligned_empty
  | snoc _ hs ih =>
    rw [List.flatten_append, List.flatten_singleton]
    exact ih.step hs

/-- In every run each answer goes to the owner that asked, and answers its last question. -/
theorem run_answers {steps : List (List (Post Owner Ticket))}
    (h : Run Step (empty : Desk Owner Tag Ticket) steps s)
    {pre post : List (Post Owner Ticket)} (hlog : steps.flatten = pre ++ .answered o k :: post) :
    Answers pre o k :=
  (aligned_run h).answered hlog

end Desk

end Toolkit
