import Mathlib.Data.List.Perm.Subperm
import Mathlib.Data.Prod.Lex
import OpenwrtMtk.Dot1x.Eloop
import OpenwrtMtk.Lib.Chain
import OpenwrtMtk.Lib.Lists

/-!
# Runs of the event loop

The timeouts that are allocated are those on the list and the one whose handler runs. The list
spells the registrations that were neither cancelled nor called, sorted by their times, and in the
order they were made where the times are equal.
-/

namespace OpenwrtMtk.Dot1x.Eloop

open Toolkit

set_option autoImplicit false

/-- Times in the order of `timercmp`. -/
def TimeVal.key (t : TimeVal) : Int ×ₗ Int := toLex (t.sec, t.usec)

def Timer.key (t : Timer) : Int ×ₗ Int := t.time.key

theorem before_iff (a b : TimeVal) : before a b = true ↔ a.key < b.key := by
  rw [before, timercmp, TimeVal.key, TimeVal.key, Prod.Lex.toLex_lt_toLex]
  split <;> simp_all

theorem before_key (t u : Timer) : before t.time u.time = true ↔ t.key < u.key := before_iff _ _

theorem reached_iff (a b : TimeVal) : reached a b = true ↔ b.key ≤ a.key := by
  rw [reached, timercmp, TimeVal.key, TimeVal.key, Prod.Lex.toLex_le_toLex]
  split
  · rename_i heq
    simp [heq]
  · rename_i hne
    have hne' : b.sec ≠ a.sec := Ne.symm hne
    simp only [ge_iff_le, decide_eq_true_eq, hne', false_and, or_false]
    omega

/-- The links visit `L`. Allocated are its timeouts and the one whose handler runs. -/
structure Holds (d : EloopData) (running : Option Ptr) (L : List Ptr) : Prop where
  chain : Chain d.next d.timeout L
  live : ∀ p, p ∈ d.live ↔ running = some p ∨ p ∈ L
  apart : ∀ p, running = some p → p ∉ L

section Fields

variable (d : EloopData) (p : Ptr) (t : Timer) (target : Option Ptr)

@[simp] theorem alloc_next : (d.alloc p t).next = Function.update d.next p none := by
  funext q
  by_cases h : q = p
  · subst h
    simp [EloopData.next, EloopData.alloc]
  · simp [EloopData.next, EloopData.alloc, h]

@[simp] theorem alloc_timer : (d.alloc p t).timer = Function.update d.timer p t := by
  funext q
  by_cases h : q = p
  · subst h
    simp [EloopData.timer, EloopData.alloc]
  · simp [EloopData.timer, EloopData.alloc, h]

@[simp] theorem setNext_next : (d.setNext p target).next = Function.update d.next p target := by
  funext q
  by_cases h : q = p
  · subst h
    simp [EloopData.next, EloopData.setNext]
  · simp [EloopData.next, EloopData.setNext, h]

@[simp] theorem setNext_timer : (d.setNext p target).timer = d.timer := by
  funext q
  by_cases h : q = p
  · subst h
    simp [EloopData.timer, EloopData.setNext]
  · simp [EloopData.timer, EloopData.setNext, h]

end Fields

variable {d d' : EloopData} {running head prev cur : Option Ptr} {A B L M : List Ptr} {p : Ptr}
  {t : Timer}

theorem Holds.nodup (h : Holds d running L) : L.Nodup := h.chain.nodup

theorem Holds.mem_live (h : Holds d running L) (hp : p ∈ L) : p ∈ d.live := (h.live p).mpr (.inr hp)

theorem Holds.length_lt (h : Holds d running L) : L.length < fuel d :=
  Nat.lt_succ_of_le (h.nodup.subperm fun _ hp => h.mem_live hp).length_le

theorem findPlace_spec (time : TimeVal) (n : Nat) (hc : Cursor d.next head A prev cur L)
    (hlive : ∀ q ∈ L, q ∈ d.live) (hn : L.length < n) :
    ∃ B M p, findPlace d time n prev cur = some p ∧ L = B ++ M ∧
      Cursor d.next head (A ++ B) p M.head? M ∧
      ∀ t : Timer, t.time = time →
        insertBehind Timer.key t (L.map d.timer) = B.map d.timer ++ t :: M.map d.timer := by
  induction L generalizing A prev cur n with
  | nil =>
    obtain ⟨n, rfl⟩ : ∃ m, n = m + 1 := ⟨n - 1, by simp at hn; omega⟩
    have hcur : cur = none := hc.cur_eq
    subst hcur
    exact ⟨[], [], prev, rfl, rfl, by simpa using hc, fun _ _ => rfl⟩
  | cons i L ih =>
    obtain ⟨n, rfl⟩ : ∃ m, n = m + 1 := ⟨n - 1, by simp at hn; omega⟩
    have hcur : cur = some i := hc.cur_eq
    subst hcur
    rw [findPlace, if_pos (hlive i List.mem_cons_self)]
    by_cases hlt : before time (d.timer i).time = true
    · rw [if_pos hlt]
      refine ⟨[], i :: L, prev, rfl, rfl, by simpa using hc, ?_⟩
      rintro t rfl
      rw [List.map_cons, insertBehind_cons, if_pos ((before_key _ _).mp hlt)]
      rfl
    · rw [if_neg hlt]
      obtain ⟨B, M, p, hfind, rfl, hc', hins⟩ := ih n hc.advance
        (fun q hq => hlive q (List.mem_cons_of_mem i hq)) (by simpa using hn)
      refine ⟨i :: B, M, p, hfind, rfl, by simpa using hc', ?_⟩
      rintro t rfl
      rw [List.map_cons, insertBehind_cons, if_neg fun h => hlt ((before_key _ _).mpr h),
        hins t rfl]
      rfl

theorem Holds.insert (h : Holds d running (B ++ M)) (hp : p ∉ d.live)
    (hchain : Chain d'.next d'.timeout (B ++ p :: M)) (hlive : d'.live = p :: d.live) :
    Holds d' running (B ++ p :: M) where
  chain := hchain
  live q := by
    rw [hlive, List.mem_cons, h.live, List.mem_append, List.mem_append, List.mem_cons]
    tauto
  apart q hq := by
    have hq' := h.apart q hq
    have hne : q ≠ p := by
      rintro rfl
      exact hp ((h.live q).mpr (.inl hq))
    simp only [List.mem_append, List.mem_cons, not_or] at hq' ⊢
    exact ⟨hq'.1, hne, hq'.2⟩

theorem map_update {f : Ptr → Timer} (hp : p ∉ L) : L.map (Function.update f p t) = L.map f := by
  apply List.map_congr_left
  intro q hq
  have hne : q ≠ p := by
    rintro rfl
    exact hp hq
  exact Function.update_of_ne hne _ _

theorem register_spec (h : Holds d running L) (hp : p ∉ d.live) (now : TimeVal) (secs usecs : U32)
    (handler eloopData userData : Ptr)
    (ht : t = ⟨expiry now secs usecs, eloopData, userData, handler⟩) :
    ∃ d' L', eloopRegisterTimeout d now (some p) secs usecs handler eloopData userData =
        some (d', [.registered t]) ∧ Holds d' running L' ∧
      L'.map d'.timer = insertBehind Timer.key t (L.map d.timer) ∧
      d'.readers = d.readers ∧ d'.maxSock = d.maxSock := by
  have hpL : p ∉ L := fun hmem => hp (h.mem_live hmem)
  have hchain : Chain (d.alloc p t).next d.timeout L := by
    rw [alloc_next]
    refine h.chain.congr ?_
    intro q hq
    have hne : q ≠ p := by
      rintro rfl
      exact hpL hq
    exact Function.update_of_ne hne _ _
  rw [eloopRegisterTimeout, ← ht]
  dsimp only
  cases hhead : d.timeout with
  | none =>
    obtain rfl : L = [] := by
      have := h.chain.head_eq
      rw [hhead] at this
      exact List.head?_eq_none_iff.mp this.symm
    rw [show (d.alloc p t).timeout = none from hhead]
    refine ⟨_, [p], rfl, ?_, ?_, rfl, rfl⟩
    · refine Holds.insert (B := []) (M := []) h hp (.cons ?_) rfl
      have hnext : (d.alloc p t).next p = none := by simp
      exact hnext ▸ .nil
    · change [(d.alloc p t).timer p] = [t]
      simp
  | some head =>
    rw [show (d.alloc p t).timeout = some head from hhead]
    dsimp only
    have hc := Cursor.start hchain
    rw [hhead] at hc
    obtain ⟨B, M, prev, hfind, rfl, hc, hins⟩ := findPlace_spec t.time (fuel (d.alloc p t)) hc
      (fun q hq => List.mem_cons_of_mem p (h.mem_live hq))
      (Nat.lt_succ_of_lt (Nat.lt_of_lt_of_le h.length_lt (by simp [fuel, EloopData.alloc])))
    rw [hfind, Option.bind_some]
    have hmap : (B ++ p :: M).map (d.alloc p t).timer =
        insertBehind Timer.key t ((B ++ M).map d.timer) := by
      have hB : p ∉ B := fun hmem => hpL (List.mem_append_left M hmem)
      have hM : p ∉ M := fun hmem => hpL (List.mem_append_right B hmem)
      rw [← map_update hpL (t := t), ← alloc_timer, hins t rfl, alloc_timer, List.map_append,
        List.map_cons, Function.update_self]
    cases prev with
    | none =>
      obtain ⟨-, hchain'⟩ := hc.insert_head hpL
      refine ⟨_, B ++ p :: M, rfl, h.insert hp ?_ rfl, ?_, rfl, rfl⟩
      · change Chain ((d.alloc p t).setNext p (some head)).next (some p) (B ++ p :: M)
        rw [setNext_next]
        exact hchain'
      · change (B ++ p :: M).map ((d.alloc p t).setNext p (some head)).timer = _
        rw [setNext_timer, hmap]
    | some q =>
      have hq : q ∈ (d.alloc p t).live :=
        List.mem_cons_of_mem p (h.mem_live (List.mem_append_left M hc.prev_mem))
      dsimp only
      rw [if_pos hq]
      refine ⟨_, B ++ p :: M, rfl, h.insert hp ?_ rfl, ?_, rfl, rfl⟩
      · change Chain _ d.timeout (B ++ p :: M)
        rw [setNext_next, setNext_next, hhead]
        exact hc.insert hpL
      · rw [setNext_timer, setNext_timer, hmap]

theorem cancelLoop_spec (handler eloopData userData : Ptr) (n removed : Nat)
    (hc : Cursor d.next d.timeout A prev cur L) (hlive : ∀ q ∈ A ++ L, q ∈ d.live)
    (hn : L.length < n) :
    let gone := fun q => cancels handler eloopData userData (d.timer q)
    ∃ d', cancelLoop handler eloopData userData n d prev cur removed =
        some (d', removed + L.countP gone) ∧
      Chain d'.next d'.timeout (A ++ L.filter fun q => !gone q) ∧ d'.timer = d.timer ∧
      (∀ q, q ∈ d'.live ↔ q ∈ d.live ∧ ¬(q ∈ L ∧ gone q = true)) ∧
      d'.readers = d.readers ∧ d'.maxSock = d.maxSock := by
  intro gone
  induction L generalizing d A prev cur n removed with
  | nil =>
    obtain ⟨n, rfl⟩ : ∃ m, n = m + 1 := ⟨n - 1, by simp at hn; omega⟩
    have hcur : cur = none := hc.cur_eq
    subst hcur
    exact ⟨d, rfl, hc.chain, rfl, by simp, rfl, rfl⟩
  | cons i L ih =>
    obtain ⟨n, rfl⟩ : ∃ m, n = m + 1 := ⟨n - 1, by simp at hn; omega⟩
    have hcur : cur = some i := hc.cur_eq
    subst hcur
    have hlen : L.length < n := by simpa using hn
    have hnd := List.nodup_append.mp hc.nodup
    have hi : i ∈ d.live := hlive i (by simp)
    have hiL : i ∉ L := (List.nodup_cons.mp hnd.2.1).1
    rw [cancelLoop, if_pos hi]
    dsimp only
    by_cases hgone : gone i = true
    · rw [if_pos hgone]
      have hiA : i ∉ A := fun hmem => hnd.2.2 i hmem i List.mem_cons_self rfl
      obtain ⟨d₁, hlink, hc₁, htimer₁, hlive₁, hreaders₁, hmax₁⟩ : ∃ d₁,
          d.link prev (d.next i) = some d₁ ∧ Cursor d₁.next d₁.timeout A prev (d.next i) L ∧
          d₁.timer = d.timer ∧ d₁.live = d.live ∧ d₁.readers = d.readers ∧
          d₁.maxSock = d.maxSock := by
        cases prev with
        | none =>
          obtain ⟨rfl, hc'⟩ := hc.unlink_head
          exact ⟨_, rfl, hc', rfl, rfl, rfl, rfl⟩
        | some q =>
          have hq : q ∈ d.live := hlive q (List.mem_append_left _ hc.prev_mem)
          refine ⟨d.setNext q (d.next i), if_pos hq, ?_, setNext_timer _ _ _, rfl, rfl, rfl⟩
          rw [setNext_next]
          exact hc.unlink
      have hfree : d₁.free i = some { d₁ with live := d₁.live.filter (· ≠ i) } :=
        if_pos (by rw [hlive₁]; exact hi)
      rw [hlink, Option.bind_some, hfree, Option.bind_some]
      have hrest := ih (d := { d₁ with live := d₁.live.filter (· ≠ i) }) n (removed + 1) hc₁ ?_ hlen
      · obtain ⟨d', hrun, hchain', htimer', hlive', hreaders', hmax'⟩ := hrest
        change d'.timer = d₁.timer at htimer'
        change (∀ q, q ∈ d'.live ↔ q ∈ d₁.live.filter (· ≠ i) ∧
          ¬(q ∈ L ∧ cancels handler eloopData userData (d₁.timer q) = true)) at hlive'
        change Chain d'.next d'.timeout (A ++ L.filter fun q =>
          !cancels handler eloopData userData (d₁.timer q)) at hchain'
        rw [htimer₁] at hchain' htimer' hlive'
        refine ⟨d', ?_, ?_, htimer', ?_, hreaders'.trans hreaders₁, hmax'.trans hmax₁⟩
        · rw [hrun, List.countP_cons_of_pos hgone]
          change some (d', removed + 1 +
            L.countP fun q => cancels handler eloopData userData (d₁.timer q)) = _
          rw [htimer₁, Nat.add_assoc, Nat.add_comm 1]
        · rw [List.filter_cons_of_neg (by simp [hgone])]
          exact hchain'
        · intro q
          rw [hlive', List.mem_filter, hlive₁, List.mem_cons]
          by_cases hqi : q = i
          · subst hqi
            simp [hgone]
          · simp [hqi, gone]
      · intro q hq
        refine List.mem_filter.mpr ⟨?_, ?_⟩
        · rw [hlive₁]
          exact hlive q (List.mem_append.mpr ((List.mem_append.mp hq).imp_right
            (List.mem_cons_of_mem i)))
        · have hne : q ≠ i := by
            rintro rfl
            rcases List.mem_append.mp hq with hq | hq
            · exact hiA hq
            · exact hiL hq
          simpa using hne
    · rw [if_neg hgone]
      obtain ⟨d', hrun, hchain', htimer', hlive', hreaders', hmax'⟩ :=
        ih n removed hc.advance (by simpa using hlive) hlen
      refine ⟨d', ?_, ?_, htimer', ?_, hreaders', hmax'⟩
      · rw [hrun, List.countP_cons_of_neg hgone]
      · rw [List.filter_cons_of_pos (by simpa using hgone)]
        simpa using hchain'
      · intro q
        rw [hlive', List.mem_cons]
        by_cases hqi : q = i
        · subst hqi
          simp [hgone, hiL]
        · simp [hqi, gone]

theorem cancel_spec (h : Holds d running L) (handler eloopData userData : Ptr) :
    ∃ d' L', eloopCancelTimeout d handler eloopData userData =
        some (d', [.cancelled handler eloopData userData
          ((L.map d.timer).countP (cancels handler eloopData userData))]) ∧
      Holds d' running L' ∧
      L'.map d'.timer = (L.map d.timer).filter (fun t => !cancels handler eloopData userData t) ∧
      d'.readers = d.readers ∧ d'.maxSock = d.maxSock := by
  obtain ⟨d', hrun, hchain, htimer, hlive, hreaders, hmax⟩ :=
    cancelLoop_spec handler eloopData userData (fuel d) 0 (Cursor.start h.chain)
      (fun q hq => h.mem_live hq) h.length_lt
  refine ⟨d', L.filter fun q => !cancels handler eloopData userData (d.timer q), ?_,
    ⟨hchain, ?_, ?_⟩, ?_, hreaders, hmax⟩
  · rw [eloopCancelTimeout, hrun, Option.map_some, Nat.zero_add, List.countP_map]
    rfl
  · intro q
    rw [hlive, h.live, List.mem_filter]
    have hapart := h.apart q
    by_cases hq : q ∈ L
    · have hne : running ≠ some q := fun heq => hapart heq hq
      simp [hq, hne]
    · simp [hq]
  · intro q hq hmem
    exact h.apart q hq (List.mem_of_mem_filter hmem)
  · rw [htimer, List.filter_map]
    rfl

theorem freeAll_spec (n : Nat) (hc : Chain d.next cur L) (hlive : ∀ q ∈ L, q ∈ d.live)
    (hn : L.length < n) :
    ∃ d', freeAll n d cur = some d' ∧ ∀ q, q ∈ d'.live ↔ q ∈ d.live ∧ q ∉ L := by
  induction L generalizing d cur n with
  | nil =>
    obtain ⟨n, rfl⟩ : ∃ m, n = m + 1 := ⟨n - 1, by simp at hn; omega⟩
    obtain rfl : cur = none := hc.head_eq
    exact ⟨d, rfl, by simp⟩
  | cons i L ih =>
    obtain ⟨n, rfl⟩ : ∃ m, n = m + 1 := ⟨n - 1, by simp at hn; omega⟩
    obtain rfl : cur = some i := hc.head_eq
    have hi : i ∈ d.live := hlive i List.mem_cons_self
    have hiL : i ∉ L := (List.nodup_cons.mp hc.nodup).1
    have hfree : d.free i = some { d with live := d.live.filter (· ≠ i) } := if_pos hi
    rw [freeAll, if_pos hi]
    dsimp only
    rw [hfree, Option.bind_some]
    obtain ⟨d', hrun, hlive'⟩ := ih (d := { d with live := d.live.filter (· ≠ i) }) n hc.tail (by
      intro q hq
      have hne : q ≠ i := by
        rintro rfl
        exact hiL hq
      exact List.mem_filter.mpr ⟨hlive q (List.mem_cons_of_mem i hq), by simpa using hne⟩)
      (by simpa using hn)
    refine ⟨d', hrun, ?_⟩
    intro q
    rw [hlive' q, List.mem_filter, List.mem_cons]
    simp only [ne_eq, decide_not, Bool.not_eq_eq_eq_not, Bool.not_true, decide_eq_false_iff_not]
    tauto

/-!
## The schedule

What is pending is read off the log: the timers that were registered, in that order, without those
that were cancelled since or whose handler was called.
-/

def track (pending : List Timer) : Did → List Timer
  | .registered t => pending ++ [t]
  | .cancelled handler eloopData userData _ =>
    pending.filter fun t => !cancels handler eloopData userData t
  | .checked _ (some t) => pending.erase t
  | _ => pending

def pendingOf (log : List Did) : List Timer := log.foldl track []

def firstOf (pending : List Timer) : Option Timer := (takeLeast Timer.key pending).map (·.1)

/-- What the loop does in view of what it did before: `select` watches every socket and wakes up
for the first timer; a check calls the handler of the first timer where it is due, and no other;
a cancellation takes what it counts. -/
def Scheduled (log : List Did) : Did → Prop
  | .asked now nfds rfds timeout =>
    (∀ s ∈ rfds, s < nfds) ∧ timeout = (firstOf (pendingOf log)).map fun t => remaining now t.time
  | .checked now called => called = (firstOf (pendingOf log)).filter fun t => reached now t.time
  | .cancelled handler eloopData userData removed =>
    removed = (pendingOf log).countP (cancels handler eloopData userData)
  | _ => True

variable {log more : List Did} {x : Did}

theorem pendingOf_snoc : pendingOf (log ++ [x]) = track (pendingOf log) x := by
  simp [pendingOf]

def Phase.runs : Phase → Option Ptr
  | .inTimer tmp _ => some tmp
  | _ => none

structure Good (d : EloopData) (running : Option Ptr) (log : List Did) : Prop where
  list : ∃ L, Holds d running L ∧ StableSorted Timer.key (pendingOf log) (L.map d.timer)
  socks : ∀ s ∈ d.readers, s.sock ≤ d.maxSock
  scheduled : Always Scheduled log

theorem Holds.first (h : Holds d running L)
    (hs : StableSorted Timer.key (pendingOf log) (L.map d.timer)) :
    firstOf (pendingOf log) = d.timeout.map d.timer := by
  rw [h.chain.head_eq]
  cases L with
  | nil => rw [hs.eq_nil]; rfl
  | cons p L =>
    obtain ⟨M, htake, -⟩ := hs.takeLeast
    rw [firstOf, htake]
    rfl

theorem Good.did (h : Good d running log) (hx : Scheduled log x)
    (hpending : track (pendingOf log) x = pendingOf log) : Good d running (log ++ [x]) where
  list := by rw [pendingOf_snoc, hpending]; exact h.list
  socks := h.socks
  scheduled := always_snoc h.scheduled hx

theorem Good.idle (h : Good d running log) (hd : d'.live = d.live)
    (hnode : d'.node = d.node) (htimeout : d'.timeout = d.timeout)
    (hsocks : ∀ s ∈ d'.readers, s.sock ≤ d'.maxSock) : Good d' running log where
  list := by
    obtain ⟨L, hL, hs⟩ := h.list
    have hnext : d'.next = d.next := by funext p; rw [EloopData.next, hnode]; rfl
    have htimer : d'.timer = d.timer := by funext p; rw [EloopData.timer, hnode]; rfl
    refine ⟨L, ⟨?_, ?_, hL.apart⟩, ?_⟩
    · rw [hnext, htimeout]
      exact hL.chain
    · rw [hd]
      exact hL.live
    · rw [htimer]
      exact hs
  socks := hsocks
  scheduled := h.scheduled

theorem dispatch_good (h : Good d none log) (rfds : List Int) (i : Nat) (readers : List EloopSock) :
    (dispatch rfds i readers).1.runs = none ∧ (dispatch rfds i readers).1 ≠ .destroyed ∧
      Good d none (log ++ (dispatch rfds i readers).2) := by
  induction readers generalizing i with
  | nil => exact ⟨rfl, by simp [dispatch], by simpa [dispatch] using h⟩
  | cons s readers ih =>
    rw [dispatch]
    split
    · exact ⟨rfl, by simp, h.did trivial rfl⟩
    · exact ih (i + 1)

def Fine (l : Loop) (log : List Did) : Prop :=
  l.phase ≠ .destroyed ∧ Good l.data l.phase.runs log

theorem readFrom_good (h : Good d none log) (rfds : List Int) (i : Nat) :
    Fine (readFrom d rfds i).1 (log ++ (readFrom d rfds i).2) := by
  obtain ⟨hrun, hphase, hgood⟩ := dispatch_good h rfds i (d.readers.drop i)
  exact ⟨hphase, hrun ▸ hgood⟩

theorem afterTimeouts_good (h : Good d none log) (res : Selected) :
    Fine (afterTimeouts d res).1 (log ++ (afterTimeouts d res).2) := by
  have htest : Fine ⟨d, .test⟩ (log ++ []) := ⟨by simp, by rw [List.append_nil]; exact h⟩
  cases res with
  | failed eintr => exact htest
  | ready rfds =>
    cases rfds with
    | nil => exact htest
    | cons s rfds => exact readFrom_good h (s :: rfds) 0

theorem checkTimeouts_good (h : Good d none log) (now : TimeVal) (res : Selected) :
    ∃ l more, checkTimeouts d now res = some (l, more) ∧ Fine l (log ++ more) := by
  obtain ⟨L, hL, hs⟩ := h.list
  have hfirst := hL.first hs
  rw [checkTimeouts]
  cases htimeout : d.timeout with
  | none => exact ⟨_, _, rfl, afterTimeouts_good h res⟩
  | some tmp =>
    rw [htimeout, Option.map_some] at hfirst
    obtain ⟨M, rfl⟩ : ∃ M, L = tmp :: M := by
      have hhead := hL.chain.head_eq
      rw [htimeout] at hhead
      exact List.head?_eq_some_iff.mp hhead.symm
    dsimp only
    rw [if_pos (hL.mem_live List.mem_cons_self)]
    split
    · rename_i hreached
      refine ⟨_, _, rfl, by simp, ⟨M, ⟨hL.chain.tail, ?_, ?_⟩, ?_⟩, h.socks,
        always_snoc h.scheduled ?_⟩
      · intro p
        rw [hL.live, List.mem_cons]
        simp [Phase.runs, eq_comm]
      · rintro p ⟨⟩
        exact (List.nodup_cons.mp hL.nodup).1
      · obtain ⟨rest, htake, hrest⟩ := hs.takeLeast
        obtain rfl := takeLeast_erase htake
        rw [pendingOf_snoc]
        exact hrest
      · change some (d.timer tmp) = _
        rw [hfirst, Option.filter_some, if_pos hreached]
    · rename_i hreached
      have hchecked : Good d none (log ++ [.checked now none]) := by
        refine h.did ?_ rfl
        change none = _
        rw [hfirst, Option.filter_some, if_neg hreached]
      have hfine := afterTimeouts_good hchecked res
      rw [List.append_assoc] at hfine
      exact ⟨_, _, rfl, hfine⟩

theorem selectTimeout_good (h : Good d none log) (now : TimeVal) :
    selectTimeout d now =
      some ((firstOf (pendingOf log)).map fun t => remaining now t.time) := by
  obtain ⟨L, hL, hs⟩ := h.list
  rw [hL.first hs, selectTimeout]
  cases htimeout : d.timeout with
  | none => rfl
  | some p =>
    have hp : p ∈ L := by
      have hhead := hL.chain.head_eq
      rw [htimeout] at hhead
      exact List.mem_of_head? hhead.symm
    dsimp only
    rw [if_pos (hL.mem_live hp)]
    rfl

theorem turn_good (h : Good d none log) (now : TimeVal) (res : Selected) (later : TimeVal) :
    ∃ l more, turn d now res later = some (l, more) ∧ Fine l (log ++ more) := by
  rw [turn]
  split
  · rw [selectTimeout_good h, Option.bind_some]
    dsimp only
    have hasked := h.did (x := .asked now (d.maxSock + 1) (d.readers.map (·.sock))
      ((firstOf (pendingOf log)).map fun t => remaining now t.time)) (by
        refine ⟨?_, rfl⟩
        intro s hs
        obtain ⟨r, hr, rfl⟩ := List.mem_map.mp hs
        exact Int.lt_add_one_of_le (h.socks r hr)) rfl
    have hcheck : ∀ res, ∃ l more, ((checkTimeouts d later res).map fun r =>
        (r.1, Did.asked now (d.maxSock + 1) (d.readers.map (·.sock))
          ((firstOf (pendingOf log)).map fun t => remaining now t.time) :: r.2)) =
        some (l, more) ∧ Fine l (log ++ more) := by
      intro res
      obtain ⟨l, more, hrun, hfine⟩ := checkTimeouts_good hasked later res
      rw [List.append_assoc] at hfine
      rw [hrun]
      exact ⟨l, _, rfl, hfine⟩
    cases res with
    | ready rfds => exact hcheck (.ready rfds)
    | failed eintr =>
      cases eintr with
      | true => exact hcheck (.failed true)
      | false =>
        have hleft := hasked.did (x := .left) trivial rfl
        rw [List.append_assoc] at hleft
        exact ⟨_, _, rfl, by simp, hleft⟩
  · exact ⟨_, _, rfl, by simp, h.did trivial rfl⟩

theorem call_good (h : Good d running log) (c : Call) (hc : c.Fresh d) :
    ∃ d' more, call d c = some (d', more) ∧ Good d' running (log ++ more) := by
  cases c with
  | registerTimeout now mem secs usecs handler eloopData userData =>
    cases mem with
    | none => exact ⟨d, _, rfl, h.did trivial rfl⟩
    | some p =>
      obtain ⟨L, hL, hs⟩ := h.list
      obtain ⟨d', L', hrun, hL', hmap, hreaders, hmax⟩ :=
        register_spec hL hc now secs usecs handler eloopData userData rfl
      refine ⟨d', _, hrun, ⟨L', hL', ?_⟩, ?_, always_snoc h.scheduled trivial⟩
      · rw [pendingOf_snoc, hmap]
        exact hs.insert _
      · rw [hreaders, hmax]
        exact h.socks
  | cancelTimeout handler eloopData userData =>
    obtain ⟨L, hL, hs⟩ := h.list
    obtain ⟨d', L', hrun, hL', hmap, hreaders, hmax⟩ := cancel_spec hL handler eloopData userData
    refine ⟨d', _, hrun, ⟨L', hL', ?_⟩, ?_, always_snoc h.scheduled ?_⟩
    · rw [pendingOf_snoc, hmap]
      exact hs.filter _
    · rw [hreaders, hmax]
      exact h.socks
    · exact hs.perm.countP_eq _
  | registerReadSock mem s =>
    refine ⟨_, [], rfl, ?_⟩
    rw [List.append_nil, eloopRegisterReadSock]
    split
    · refine h.idle rfl rfl rfl ?_
      intro r hr
      rcases List.mem_append.mp hr with hr | hr
      · have hold := h.socks r hr
        dsimp only
        split
        · omega
        · exact hold
      · obtain rfl := List.mem_singleton.mp hr
        dsimp only
        split
        · exact le_rfl
        · omega
    · exact h
  | terminate =>
    refine ⟨_, [], rfl, ?_⟩
    rw [List.append_nil]
    exact h.idle rfl rfl rfl h.socks

structure Inv (t : Trace Loop Did) : Prop where
  fine : t.state.phase ≠ .destroyed → Good t.state.data t.state.phase.runs t.log
  freed : t.state.phase = .destroyed → t.state.data.live = []
  scheduled : Always Scheduled t.log

theorem Fine.inv {l : Loop} (h : Fine l log) : Inv ⟨l, log⟩ where
  fine _ := h.2
  freed heq := absurd heq h.1
  scheduled := h.2.scheduled

/-- Whatever may come has a result, and the result is as it should be. -/
theorem step_inv {s : Trace Loop Did} (h : Inv s) {e : Event} (he : Allowed s.state e) :
    ∃ s', traceStep step s e = some s' ∧ Inv s' := by
  obtain ⟨⟨d, phase⟩, log⟩ := s
  have of_fine : ∀ l more, step ⟨d, phase⟩ e = some (l, more) → Fine l (log ++ more) →
      ∃ s', traceStep step ⟨⟨d, phase⟩, log⟩ e = some s' ∧ Inv s' := by
    intro l more hrun hfine
    refine ⟨⟨l, log ++ more⟩, ?_, hfine.inv⟩
    rw [traceStep, hrun]
    rfl
  cases e with
  | call c =>
    obtain ⟨hphase, hfresh⟩ := he
    obtain ⟨d', more, hrun, hgood⟩ := call_good (h.fine hphase) c hfresh
    refine of_fine ⟨d', phase⟩ more ?_ ⟨hphase, hgood⟩
    change (call d c).map _ = _
    rw [hrun]
    rfl
  | run =>
    obtain rfl : phase = .setup := he
    refine of_fine ⟨d, .test⟩ [] rfl ⟨by simp, ?_⟩
    rw [List.append_nil]
    exact h.fine (by simp)
  | turn now res later =>
    obtain rfl : phase = .test := he
    obtain ⟨l, more, hrun, hfine⟩ := turn_good (h.fine (by simp)) now res later
    exact of_fine l more hrun hfine
  | handled =>
    cases phase with
    | setup | test | returned | destroyed => cases he
    | inTimer tmp res =>
      obtain ⟨hlist, hsocks, hscheduled⟩ := h.fine (by simp)
      obtain ⟨L, hL, hs⟩ := hlist
      have htmp : tmp ∈ d.live := (hL.live tmp).mpr (.inl rfl)
      have hfree : d.free tmp = some { d with live := d.live.filter (· ≠ tmp) } := if_pos htmp
      have hgood : Good { d with live := d.live.filter (· ≠ tmp) } none log := by
        refine ⟨⟨L, ⟨hL.chain, ?_, fun p hp => by cases hp⟩, hs⟩, hsocks, hscheduled⟩
        intro p
        rw [List.mem_filter, hL.live]
        have hapart := hL.apart tmp rfl
        by_cases hp : p = tmp
        · subst hp
          simp [hapart]
        · have hne : tmp ≠ p := Ne.symm hp
          simp [Phase.runs, hp, hne]
      refine of_fine _ _ ?_ (afterTimeouts_good hgood res)
      change (d.free tmp).map _ = _
      rw [hfree]
      rfl
    | inReader i rfds => exact of_fine _ _ rfl (readFrom_good (h.fine (by simp)) rfds i)
  | destroy =>
    obtain rfl : phase = .returned := he
    obtain ⟨L, hL, -⟩ := (h.fine (by simp)).list
    obtain ⟨d', hrun, hlive⟩ :=
      freeAll_spec (fuel d) hL.chain (fun q hq => hL.mem_live hq) hL.length_lt
    refine ⟨⟨⟨d', .destroyed⟩, log ++ []⟩, ?_, fun hne => absurd rfl hne, fun _ => ?_, ?_⟩
    · change ((freeAll (fuel d) d d.timeout).map _).map _ = _
      rw [hrun]
      rfl
    · apply List.eq_nil_iff_forall_not_mem.mpr
      intro q hq
      obtain ⟨hq, hout⟩ := (hlive q).mp hq
      rcases (hL.live q).mp hq with hq | hq
      · cases hq
      · exact hout hq
    · rw [List.append_nil]
      exact h.scheduled

/-- The runs from `eloop_init`, in which `malloc` returns what is free. -/
abbrev LoopRun (es : List Event) (t : Trace Loop Did) : Prop :=
  Run (Guarded (fun t e => Allowed t.state e) (Graph (traceStep step))) ⟨init, []⟩ es t

theorem init_inv : Inv ⟨init, []⟩ where
  fine _ := by
    refine ⟨⟨[], ⟨.nil, ?_, fun _ _ => List.not_mem_nil⟩, .nil⟩, ?_, always_nil⟩
    · intro p
      simp [init, Phase.runs]
    · intro s hs
      cases hs
  freed h := by cases h
  scheduled := always_nil

theorem run_inv {es : List Event} {t : Trace Loop Did} (hrun : LoopRun es t) : Inv t := by
  refine hrun.invariant Inv ?_ init_inv
  rintro s e s' hs ⟨he, hstep⟩
  obtain ⟨s'', hstep', hinv⟩ := step_inv hs he
  obtain rfl := Option.some.inj (hstep.symm.trans hstep')
  exact hinv

/-- Two timers for one second. The handler of the first cancels the second and ends the loop. -/
def twoTimers : List Event :=
  [.call (.registerTimeout ⟨0, 0⟩ (some 1) 1 0 2 3 4),
    .call (.registerTimeout ⟨0, 0⟩ (some 5) 1 0 2 3 6), .run, .turn ⟨0, 0⟩ (.ready []) ⟨2, 0⟩,
    .call (.cancelTimeout 2 eloopAllCtx 6), .call .terminate, .handled,
    .turn ⟨2, 0⟩ (.ready []) ⟨2, 0⟩, .destroy]

def firstTimer : Timer := ⟨⟨1, 0⟩, 3, 4, 2⟩

def secondTimer : Timer := ⟨⟨1, 0⟩, 3, 6, 2⟩

theorem twoTimers_run : ∃ t, LoopRun twoTimers t ∧ t.state.phase = .destroyed ∧ t.log =
    [.registered firstTimer, .registered secondTimer] ++
      [.asked ⟨0, 0⟩ 1 [] (some ⟨1, 0⟩), .checked ⟨2, 0⟩ (some firstTimer),
        .cancelled 2 eloopAllCtx 6 1, .left] := by
  have hexec : (exec (guardStep (fun t e => Allowed t.state e) (traceStep step)) ⟨init, []⟩
      twoTimers).map (fun t => (t.state.phase, t.log)) =
    some (.destroyed, [.registered firstTimer, .registered secondTimer] ++
      [.asked ⟨0, 0⟩ 1 [] (some ⟨1, 0⟩), .checked ⟨2, 0⟩ (some firstTimer),
        .cancelled 2 eloopAllCtx 6 1, .left]) := by decide +kernel
  obtain ⟨t, ht, heq⟩ := Option.map_eq_some_iff.mp hexec
  obtain ⟨hphase, hlog⟩ := Prod.mk.inj heq
  exact ⟨t, exec_guarded_run ht, hphase, hlog⟩

/-- In every run, whatever may come next has a result: no timeout is used or freed that is not
allocated, and no walk goes round. Allocated are the timeouts on the list, which spells what is
pending, and the one whose handler runs; behind `eloop_destroy`, none. -/
theorem eloop_memory {es : List Event} {t : Trace Loop Did} (hrun : LoopRun es t) :
    (∀ e, Allowed t.state e → (step t.state e).isSome) ∧
      (t.state.phase ≠ .destroyed → ∃ L, Chain t.state.data.next t.state.data.timeout L ∧
        (∀ p, p ∈ t.state.data.live ↔ t.state.phase.runs = some p ∨ p ∈ L) ∧
        (∀ p, t.state.phase.runs = some p → p ∉ L) ∧
        StableSorted Timer.key (pendingOf t.log) (L.map t.state.data.timer)) ∧
      (t.state.phase = .destroyed → t.state.data.live = []) := by
  have hinv := run_inv hrun
  refine ⟨?_, ?_, hinv.freed⟩
  · intro e he
    obtain ⟨s', hstep, -⟩ := step_inv hinv he
    obtain ⟨r, hr, -⟩ := Option.map_eq_some_iff.mp hstep
    rw [hr]
    rfl
  · intro hphase
    obtain ⟨L, hL, hs⟩ := (hinv.fine hphase).list
    exact ⟨L, hL.chain, hL.live, hL.apart, hs⟩

theorem eloop_memory_twoTimers : ∃ t, LoopRun twoTimers t ∧ t.state.data.live = [] := by
  obtain ⟨t, hrun, hphase, -⟩ := twoTimers_run
  exact ⟨t, hrun, (eloop_memory hrun).2.2 hphase⟩

/-- The timers that come before `t`, which stands between `A` and `B`. -/
def ahead (t : Timer) (A B : List Timer) : Nat :=
  A.countP (fun u => u.key ≤ t.key) + B.countP (fun u => u.key < t.key)

def Did.isCheck : Did → Bool
  | .checked _ _ => true
  | _ => false

/-- `t` was called or cancelled. -/
def Done (t : Timer) (log : List Did) : Prop :=
  (∃ now, .checked now (some t) ∈ log) ∨
    ∃ handler eloopData userData removed,
      .cancelled handler eloopData userData removed ∈ log ∧
        cancels handler eloopData userData t = true

theorem Done.cons {t : Timer} (h : Done t log) : Done t (x :: log) := by
  rcases h with ⟨now, h⟩ | ⟨handler, eloopData, userData, removed, h, hc⟩
  · exact .inl ⟨now, List.mem_cons_of_mem x h⟩
  · exact .inr ⟨handler, eloopData, userData, removed, List.mem_cons_of_mem x h, hc⟩

/-- A check that does not call a timer that is due calls one ahead of it. -/
theorem ahead_check {u : Timer} {A B M : List Timer} (hA : t ∉ A)
    (htake : takeLeast Timer.key (A ++ t :: B) = some (u, M)) (hne : u ≠ t) :
    ∃ A' B', M = A' ++ t :: B' ∧ t ∉ A' ∧ ahead t A' B' + 1 = ahead t A B := by
  obtain ⟨A₀, B₀, heq, rfl, hA₀, hB₀⟩ := takeLeast_split htake
  rcases List.append_eq_append_iff.mp heq with ⟨C, rfl, htail⟩ | ⟨C, rfl, htail⟩
  · -- it stands behind `t`, and comes before it
    cases C with
    | nil =>
      simp only [List.nil_append, List.cons.injEq] at htail
      exact absurd htail.1.symm hne
    | cons c C =>
      simp only [List.cons_append, List.cons.injEq] at htail
      obtain ⟨rfl, rfl⟩ := htail
      have hlt : u.key < t.key := hA₀ t (by simp)
      refine ⟨A, C ++ B₀, by simp, hA, ?_⟩
      simp only [ahead, List.countP_append, List.countP_cons, hlt, decide_true, if_true]
      omega
  · -- it stands before `t`, and does not come later
    cases C with
    | nil =>
      simp only [List.nil_append, List.cons.injEq] at htail
      exact absurd htail.1 hne
    | cons c C =>
      simp only [List.cons_append, List.cons.injEq] at htail
      obtain ⟨rfl, rfl⟩ := htail
      have hle : u.key ≤ t.key := hB₀ t (by simp)
      refine ⟨A₀ ++ C, B, by simp, ?_, ?_⟩
      · simp only [List.mem_append, List.mem_cons, not_or] at hA ⊢
        exact ⟨hA.1, hA.2.2⟩
      · simp only [ahead, List.countP_append, List.countP_cons, hle, decide_true, if_true]
        omega

theorem ahead_filter (p : Timer → Bool) (A B : List Timer) :
    ahead t (A.filter p) (B.filter p) ≤ ahead t A B :=
  Nat.add_le_add List.filter_sublist.countP_le List.filter_sublist.countP_le

theorem done_of_checks {pre mid : List Did} {A B : List Timer}
    (hsched : Always Scheduled (pre ++ mid)) (hpending : pendingOf pre = A ++ t :: B) (hA : t ∉ A)
    (hcome : ∀ now called, .checked now called ∈ mid → reached now t.time = true)
    (hlater : ∀ u, .registered u ∈ mid → t.key ≤ u.key)
    (hmany : ahead t A B < mid.countP Did.isCheck) : Done t mid := by
  induction mid generalizing pre A B with
  | nil => cases hmany
  | cons x mid ih =>
    have hx : Scheduled pre x := hsched pre x mid rfl
    have hnext : Always Scheduled ((pre ++ [x]) ++ mid) := by simpa using hsched
    have hcome' := fun now called h => hcome now called (List.mem_cons_of_mem x h)
    have hlater' := fun u h => hlater u (List.mem_cons_of_mem x h)
    -- where the timer stays pending and nothing gets ahead of it
    have hkeep : ∀ A' B', track (pendingOf pre) x = A' ++ t :: B' → t ∉ A' →
        ahead t A' B' < mid.countP Did.isCheck → Done t (x :: mid) := by
      intro A' B' htrack hA' hmany'
      exact (ih hnext (pendingOf_snoc.trans htrack) hA' hcome' hlater' hmany').cons
    cases x with
    | registered u =>
      refine hkeep A (B ++ [u]) ?_ hA ?_
      · rw [track, hpending]
        simp
      · have hu : ¬u.key < t.key := not_lt.mpr (hlater u List.mem_cons_self)
        simpa [ahead, Did.isCheck, hu] using hmany
    | cancelled handler eloopData userData removed =>
      by_cases hc : cancels handler eloopData userData t = true
      · exact .inr ⟨handler, eloopData, userData, removed, List.mem_cons_self, hc⟩
      · refine hkeep (A.filter fun t => !cancels handler eloopData userData t)
          (B.filter fun t => !cancels handler eloopData userData t) ?_ ?_ ?_
        · rw [track, hpending, List.filter_append, List.filter_cons_of_pos (by simpa using hc)]
        · exact fun hmem => hA (List.mem_of_mem_filter hmem)
        · exact (ahead_filter _ A B).trans_lt (by simpa [Did.isCheck] using hmany)
    | checked now called =>
      have hdue : reached now t.time = true := hcome now called List.mem_cons_self
      have hmem : t ∈ A ++ t :: B := by simp
      obtain ⟨u, M, htake, hle⟩ := exists_takeLeast Timer.key hmem
      have hfirst : firstOf (pendingOf pre) = some u := by rw [firstOf, hpending, htake]; rfl
      have hreached : reached now u.time = true :=
        (reached_iff _ _).mpr (hle.trans ((reached_iff _ _).mp hdue))
      obtain rfl : called = some u := by
        have hcalled : called = _ := hx
        rw [hcalled, hfirst, Option.filter_some, if_pos hreached]
      by_cases hut : u = t
      · exact .inl ⟨now, hut ▸ List.mem_cons_self⟩
      · obtain ⟨A', B', hM, hA', hahead⟩ := ahead_check hA htake hut
        refine hkeep A' B' ?_ hA' ?_
        · rw [track, hpending, ← takeLeast_erase htake, hM]
        · rw [List.countP_cons_of_pos rfl] at hmany
          omega
    | refused => exact hkeep A B hpending hA (by simpa [Did.isCheck] using hmany)
    | asked now nfds rfds timeout =>
      exact hkeep A B hpending hA (by simpa [Did.isCheck] using hmany)
    | read s => exact hkeep A B hpending hA (by simpa [Did.isCheck] using hmany)
    | left => exact hkeep A B hpending hA (by simpa [Did.isCheck] using hmany)

/-- In every run, a timer whose time has come and which is not overtaken by an earlier one is
called, unless it is cancelled, after as many checks as there are timers ahead of it. -/
theorem eloop_timer_called {es : List Event} {s : Trace Loop Did} (hrun : LoopRun es s)
    {pre mid : List Did} (hlog : s.log = pre ++ mid) {A B : List Timer}
    (hpending : pendingOf pre = A ++ t :: B) (hA : t ∉ A)
    (hcome : ∀ now called, .checked now called ∈ mid → reached now t.time = true)
    (hlater : ∀ u, .registered u ∈ mid → t.key ≤ u.key)
    (hmany : ahead t A B < mid.countP Did.isCheck) : Done t mid := by
  have hsched := (run_inv hrun).scheduled
  rw [hlog] at hsched
  exact done_of_checks hsched hpending hA hcome hlater hmany

theorem eloop_timer_called_twoTimers : ∃ t, LoopRun twoTimers t ∧ Done firstTimer
    [.asked ⟨0, 0⟩ 1 [] (some ⟨1, 0⟩), .checked ⟨2, 0⟩ (some firstTimer),
      .cancelled 2 eloopAllCtx 6 1, .left] := by
  obtain ⟨t, hrun, -, hlog⟩ := twoTimers_run
  refine ⟨t, hrun, eloop_timer_called hrun hlog (A := []) (B := [secondTimer]) rfl
    List.not_mem_nil ?_ ?_ ?_⟩
  · intro now called h
    simp only [List.mem_cons, reduceCtorEq, List.not_mem_nil, false_or, or_false,
      Did.checked.injEq] at h
    rw [h.1]
    decide
  · intro u h
    simp at h
  · decide

end OpenwrtMtk.Dot1x.Eloop
