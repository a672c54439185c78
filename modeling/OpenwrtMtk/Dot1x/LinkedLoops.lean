import OpenwrtMtk.Dot1x.LinkedClient
import OpenwrtMtk.Lib.Loops
import Mathlib.Data.List.Perm.Subperm

/-!
# The loops over the pending requests

What each loop of the client does to the entries in memory, in terms of the list that the links
spell. None of them meets an entry that is freed, but for the loop of `Radius_client_get_id`, which
fails where its counterpart on lists does.
-/

namespace OpenwrtMtk.Dot1x.Linked

open Toolkit

set_option autoImplicit false

/-- The links visit `L`, whose entries are allocated. -/
structure Holds (r : RadiusClientData) (L : List Nat) : Prop where
  chain : Chain r.next r.msgs L
  live : ∀ i ∈ L, i ∈ r.live

/-- A walk over `L`, behind `A`, that has kept `M` of it: it freed entries of `L` only, and wrote
to those only. -/
structure Walked (r : RadiusClientData) (A L : List Nat) (r' : RadiusClientData) (M : List Nat) :
    Prop where
  holds : Holds r' (A ++ M)
  sub : M.Sublist L
  live : ∀ j ∈ r.live, j ∉ L → j ∈ r'.live
  entry : ∀ j, j ∉ L → r'.entry j = r.entry j
  identifier : r'.nextRadiusIdentifier = r.nextRadiusIdentifier

variable {r r' : RadiusClientData} {A L M : List Nat} {prev cur : Option Nat} {i : Nat}

theorem Holds.nodup (h : Holds r L) : L.Nodup := h.chain.nodup

theorem Holds.length_lt (h : Holds r L) : L.length < fuel r :=
  Nat.lt_succ_of_le (h.nodup.subperm h.live).length_le

theorem Walked.stay (h : Holds r (A ++ L)) : Walked r A L r L :=
  ⟨h, List.Sublist.refl L, fun _ hj _ => hj, fun _ _ => rfl, rfl⟩

theorem Walked.keep (h : Walked r (A ++ [i]) L r' M) : Walked r A (i :: L) r' (i :: M) where
  holds := by
    have := h.holds
    rwa [List.append_assoc] at this
  sub := h.sub.cons_cons i
  live := fun j hj hout => h.live j hj fun hmem => hout (List.mem_cons_of_mem i hmem)
  entry := fun j hout => h.entry j fun hmem => hout (List.mem_cons_of_mem i hmem)
  identifier := h.identifier

theorem Walked.trans {r₀ : RadiusClientData} (h : Walked r A L r' M)
    (hlive : ∀ j ∈ r₀.live, j ≠ i → j ∈ r.live) (hentry : ∀ j, j ≠ i → r.entry j = r₀.entry j)
    (hid : r.nextRadiusIdentifier = r₀.nextRadiusIdentifier) : Walked r₀ A (i :: L) r' M where
  holds := h.holds
  sub := h.sub.trans (List.sublist_cons_self i L)
  live := fun j hj hout => h.live j (hlive j hj (List.ne_of_not_mem_cons hout))
    (List.not_mem_of_not_mem_cons hout)
  entry := fun j hout => (h.entry j (List.not_mem_of_not_mem_cons hout)).trans
    (hentry j (List.ne_of_not_mem_cons hout))
  identifier := h.identifier.trans hid

theorem Walked.keep_written {r₀ : RadiusClientData} (h : Walked r (A ++ [i]) L r' M)
    (hentry : ∀ j, j ≠ i → r.entry j = r₀.entry j) (hlive : r.live = r₀.live := by rfl)
    (hid : r.nextRadiusIdentifier = r₀.nextRadiusIdentifier := by rfl) :
    Walked r₀ A (i :: L) r' (i :: M) where
  holds := h.keep.holds
  sub := h.keep.sub
  live := fun j hj hout => h.keep.live j (hlive ▸ hj) hout
  entry := fun j hout => (h.keep.entry j hout).trans (hentry j (List.ne_of_not_mem_cons hout))
  identifier := h.identifier.trans hid

theorem map_setEntry {e : Entry} (hi : i ∉ L) :
    L.map (r.setEntry i e).entry = L.map r.entry := by
  apply List.map_congr_left
  intro j hj
  apply Function.update_of_ne
  rintro rfl
  exact hi hj

theorem unlink_spec (hc : Cursor r.next r.msgs A prev cur (i :: L))
    (hlive : ∀ j ∈ A ++ i :: L, j ∈ r.live) :
    ∃ head next, r.link prev (r.next i) = some { r with msgs := head, next := next } ∧
      Cursor next head A prev (r.next i) L ∧ next i = r.next i := by
  cases prev with
  | none =>
    obtain ⟨rfl, hc'⟩ := hc.unlink_head
    exact ⟨r.next i, r.next, rfl, hc', rfl⟩
  | some p =>
    have hp : p ∈ A := hc.prev_mem
    have hpi : i ≠ p := by
      rintro rfl
      have hnd := List.nodup_append.mp hc.nodup
      exact hnd.2.2 i hp i List.mem_cons_self rfl
    refine ⟨r.msgs, Function.update r.next p (r.next i), ?_, hc.unlink, ?_⟩
    · rw [RadiusClientData.link]
      exact if_pos (hlive p (List.mem_append_left _ hp))
    · exact Function.update_of_ne hpi _ _

theorem free_spec (hi : i ∈ r.live) :
    radiusClientMsgFree r i = some { r with live := r.live.filter (· ≠ i) } :=
  if_pos hi

theorem live_filter (hnd : (A ++ i :: L).Nodup) (hlive : ∀ j ∈ A ++ i :: L, j ∈ r.live) :
    ∀ j ∈ A ++ L, j ∈ r.live.filter (· ≠ i) := by
  intro j hj
  have hmid : j ∈ A ++ i :: L := by
    rcases List.mem_append.mp hj with hA | hL
    · exact List.mem_append_left _ hA
    · exact List.mem_append_right _ (List.mem_cons_of_mem i hL)
  have hne : j ≠ i := by
    rintro rfl
    exact (List.nodup_middle.mp hnd).notMem hj
  exact List.mem_filter.mpr ⟨hlive j hmid, by simpa using hne⟩

theorem removeId_sim (id : U8) (n : Nat) (p : Option Nat) (stale : Bool)
    (hc : Cursor r.next r.msgs A prev cur L) (hlive : ∀ j ∈ A ++ L, j ∈ r.live)
    (hn : L.length < n) (hp : if stale then ∃ j, p = some j ∧ j ∉ r.live else p = prev) :
    Option.Rel (fun r' es => ∃ M, Walked r A L r' M ∧ r'.numMsgs = r.numMsgs ∧
        es = M.map r'.entry)
      (removeId id n p cur r) (Dot1x.removeId id stale (L.map r.entry)) := by
  induction L generalizing r A prev cur n p stale with
  | nil =>
    obtain ⟨n, rfl⟩ : ∃ m, n = m + 1 := ⟨n - 1, by simp at hn; omega⟩
    have hcur : cur = none := hc.cur_eq
    subst hcur
    exact .some ⟨[], Walked.stay ⟨hc.chain, hlive⟩, rfl, rfl⟩
  | cons i L ih =>
    obtain ⟨n, rfl⟩ : ∃ m, n = m + 1 := ⟨n - 1, by simp at hn; omega⟩
    have hcur : cur = some i := hc.cur_eq
    subst hcur
    have hi : i ∈ r.live := hlive i (by simp)
    have hlen : L.length < n := by simpa using hn
    rw [removeId, if_pos hi, List.map_cons, Dot1x.removeId]
    by_cases hid : (r.entry i).msg.identifier = id
    · rw [if_pos hid, if_pos hid]
      cases stale with
      | true =>
        -- the entry before this one was freed, and `prev` still points to it
        obtain ⟨j, rfl, hj⟩ := hp
        rw [RadiusClientData.link, if_neg hj]
        exact .none
      | false =>
        obtain rfl : p = prev := hp
        obtain ⟨head, next, hlink, hc', hnext⟩ := unlink_spec hc hlive
        rw [hlink, Option.bind_some, free_spec (r := { r with msgs := head, next := next }) hi,
          Option.bind_some]
        dsimp only
        rw [hnext]
        have hlive' := live_filter hc.nodup hlive
        have hrest := ih (r := { r with
          msgs := head, next := next, live := r.live.filter (· ≠ i) }) n (some i) true hc' hlive'
          hlen ⟨i, rfl, by simp⟩
        refine rel_mono hrest fun r' es ⟨M, hw, hnum, hes⟩ => ⟨M, hw.trans ?_ (fun _ _ => rfl) rfl, hnum, hes⟩
        intro j hj hne
        exact List.mem_filter.mpr ⟨hj, by simpa using hne⟩
    · rw [if_neg hid, if_neg hid]
      have hrest := ih n (some i) false hc.advance (by simpa using hlive) hlen rfl
      refine rel_map_right hrest fun r' es ⟨M, hw, hnum, hes⟩ => ?_
      refine ⟨i :: M, hw.keep, hnum, ?_⟩
      have hout : i ∉ L := fun hmem =>
        (List.nodup_append.mp hc.nodup).2.1.notMem hmem
      rw [List.map_cons, hes, hw.entry i hout]

theorem findRequest_sim (id : U8) (n : Nat) (hc : Cursor r.next r.msgs A prev cur L)
    (hlive : ∀ j ∈ L, j ∈ r.live) (hn : L.length < n) :
    (∃ B, B = A ++ L ∧ findRequest id r n prev cur = some (B.getLast?, none) ∧
      takeRequest id (L.map r.entry) = none) ∨
    ∃ B i M p, Cursor r.next r.msgs (A ++ B) p (some i) (i :: M) ∧ L = B ++ i :: M ∧
      findRequest id r n prev cur = some (p, some i) ∧
      takeRequest id (L.map r.entry) = some (r.entry i, (B ++ M).map r.entry) := by
  induction L generalizing A prev cur n with
  | nil =>
    obtain ⟨n, rfl⟩ : ∃ m, n = m + 1 := ⟨n - 1, by simp at hn; omega⟩
    have hcur : cur = none := hc.cur_eq
    subst hcur
    refine .inl ⟨_, rfl, ?_, rfl⟩
    rw [findRequest, hc.prev_eq, List.append_nil]
  | cons i L ih =>
    obtain ⟨n, rfl⟩ : ∃ m, n = m + 1 := ⟨n - 1, by simp at hn; omega⟩
    have hcur : cur = some i := hc.cur_eq
    subst hcur
    have hi : i ∈ r.live := hlive i (by simp)
    rw [findRequest, if_pos hi, List.map_cons, takeRequest]
    by_cases hid : (r.entry i).msg.identifier = id
    · rw [if_pos hid, if_pos hid]
      refine .inr ⟨[], i, L, prev, ?_, rfl, rfl, rfl⟩
      rw [List.append_nil]
      exact hc
    · rw [if_neg hid, if_neg hid]
      rcases ih n hc.advance (fun j hj => hlive j (List.mem_cons_of_mem i hj)) (by simpa using hn) with
        ⟨B, rfl, hfind, htake⟩ | ⟨B, j, M, p, hcur, rfl, hfind, htake⟩
      · exact .inl ⟨_, rfl, by simpa using hfind, by rw [htake]; rfl⟩
      · refine .inr ⟨i :: B, j, M, p, by simpa using hcur, rfl, hfind, ?_⟩
        rw [htake]
        rfl

theorem walkToLast_spec (n : Nat) (hc : Cursor r.next r.msgs A prev (some i) (i :: L))
    (hlive : ∀ j ∈ i :: L, j ∈ r.live) (hn : (i :: L).length < n) :
    ∃ B last p, Cursor r.next r.msgs (A ++ B) p (some last) [last] ∧ i :: L = B ++ [last] ∧
      walkToLast r n prev i = some (p, last) := by
  induction L generalizing A prev i n with
  | nil =>
    obtain ⟨n, rfl⟩ : ∃ m, n = m + 1 := ⟨n - 1, by simp at hn; omega⟩
    refine ⟨[], i, prev, by simpa using hc, rfl, ?_⟩
    rw [walkToLast, if_pos (hlive i (by simp)), hc.next_eq]
    rfl
  | cons j L ih =>
    obtain ⟨n, rfl⟩ : ∃ m, n = m + 1 := ⟨n - 1, by simp at hn; omega⟩
    have hadv : Cursor r.next r.msgs (A ++ [i]) (some i) (some j) (j :: L) := by
      have := hc.advance
      rwa [hc.next_eq] at this
    obtain ⟨B, last, p, hcur, hL, hwalk⟩ :=
      ih n hadv (fun k hk => hlive k (List.mem_cons_of_mem i hk)) (by simp at hn ⊢; omega)
    refine ⟨i :: B, last, p, by simpa using hcur, by rw [hL]; rfl, ?_⟩
    rw [walkToLast, if_pos (hlive i (by simp)), hc.next_eq]
    exact hwalk

def failedOf (es : List Entry) : List Nat :=
  (es.filter fun e => radiusClientNumFailover < e.attempts).map (·.apIdx)

theorem failedOf_cons (e : Entry) (es : List Entry) : failedOf (e :: es) =
    (if radiusClientNumFailover < e.attempts then [e.apIdx] else []) ++ failedOf es := by
  unfold failedOf
  rw [List.filter_cons]
  split
  · rename_i h
    simp at h
    rw [if_pos h]
    rfl
  · rename_i h
    simp at h
    rw [if_neg (by omega)]
    rfl

/-- The loop of the timer does to the list what `retransmitAll` does. -/
structure Resent (r : RadiusClientData) (A L : List Nat) (again : Retransmitted)
    (out : RadiusClientData × List Nat × List Nat) (M : List Nat) : Prop where
  walked : Walked r A L out.1 M
  msgs : again.msgs = M.map out.1.entry
  numMsgs : out.1.numMsgs = r.numMsgs - BitVec.ofNat 32 again.removed
  failed : out.2.1 = failedOf again.msgs
  serials : out.2.2 = again.again

theorem retransmitLoop_sim (now n : Nat) (hc : Cursor r.next r.msgs A prev cur L)
    (hlive : ∀ j ∈ A ++ L, j ∈ r.live) (hn : L.length < n) :
    ∃ out M, retransmitLoop now n prev cur r = some out ∧
      Resent r A L (retransmitAll now (L.map r.entry)) out M := by
  induction L generalizing r A prev cur n with
  | nil =>
    obtain ⟨n, rfl⟩ : ∃ m, n = m + 1 := ⟨n - 1, by simp at hn; omega⟩
    have hcur : cur = none := hc.cur_eq
    subst hcur
    exact ⟨_, [], rfl, Walked.stay ⟨hc.chain, hlive⟩, rfl, by simp [retransmitAll], rfl, rfl⟩
  | cons i L ih =>
    obtain ⟨n, rfl⟩ : ∃ m, n = m + 1 := ⟨n - 1, by simp at hn; omega⟩
    have hcur : cur = some i := hc.cur_eq
    subst hcur
    have hi : i ∈ r.live := hlive i (by simp)
    have hlen : L.length < n := by simpa using hn
    have hout : i ∉ L := fun hmem => (List.nodup_append.mp hc.nodup).2.1.notMem hmem
    have hlive' : ∀ j ∈ A ++ [i] ++ L, j ∈ r.live := by simpa using hlive
    rw [retransmitLoop, if_pos hi, List.map_cons, retransmitAll]
    by_cases hdue : (r.entry i).nextTry ≤ now
    · rw [if_pos hdue, if_pos hdue]
      cases hsend : radiusClientRetransmit now (r.entry i) with
      | none =>
        dsimp only
        obtain ⟨head, next, hlink, hc', hnext⟩ := unlink_spec hc hlive
        rw [hlink, Option.bind_some, free_spec (r := { r with msgs := head, next := next }) hi,
          Option.bind_some]
        dsimp only
        rw [hnext]
        obtain ⟨⟨last, failed, again⟩, M, hrun, hres⟩ := ih (r := { r with
          msgs := head, next := next, live := r.live.filter (· ≠ i), numMsgs := r.numMsgs - 1 })
          n hc' (live_filter hc.nodup hlive) hlen
        rw [hrun]
        refine ⟨_, M, rfl, hres.walked.trans ?_ (fun _ _ => rfl) rfl, hres.msgs, ?_, hres.failed, ?_⟩
        · intro j hj hne
          exact List.mem_filter.mpr ⟨hj, by simpa using hne⟩
        · refine hres.numMsgs.trans ?_
          dsimp only
          rw [BitVec.ofNat_add]
          bv_omega
        · exact congrArg ((r.entry i).serial :: ·) hres.serials
      | some e =>
        dsimp only
        have hmap : L.map (r.setEntry i e).entry = L.map r.entry := map_setEntry hout
        obtain ⟨⟨last, failed, again⟩, M, hrun, hres⟩ :=
          ih (r := r.setEntry i e) n hc.advance hlive' hlen
        rw [hmap] at hres
        rw [hrun]
        have hlast : last.entry i = e :=
          (hres.walked.entry i hout).trans (Function.update_self (β := fun _ => Entry) i e r.entry)
        refine ⟨_, i :: M, rfl, ?_, ?_, hres.numMsgs, ?_, ?_⟩
        · refine Walked.keep_written hres.walked fun j hne => ?_
          exact Function.update_of_ne hne e r.entry
        · rw [List.map_cons, hlast, ← hres.msgs]
        · rw [failedOf_cons]
          exact congrArg (_ ++ ·) hres.failed
        · exact congrArg (e.serial :: ·) hres.serials
    · rw [if_neg hdue, if_neg hdue]
      obtain ⟨⟨last, failed, again⟩, M, hrun, hres⟩ := ih n hc.advance hlive' hlen
      rw [hrun]
      refine ⟨_, i :: M, rfl, hres.walked.keep, ?_, hres.numMsgs, ?_, hres.serials⟩
      · rw [List.map_cons, hres.walked.entry i hout, ← hres.msgs]
      · rw [failedOf_cons]
        exact congrArg (_ ++ ·) hres.failed

theorem freeAll_spec (n : Nat) (hc : Chain r.next cur L) (hlive : ∀ j ∈ L, j ∈ r.live)
    (hn : L.length < n) :
    freeAll n cur r = some { r with live := r.live.filter (· ∉ L) } := by
  induction L generalizing r cur n with
  | nil =>
    obtain ⟨n, rfl⟩ : ∃ m, n = m + 1 := ⟨n - 1, by simp at hn; omega⟩
    have hcur : cur = none := hc.head_eq
    subst hcur
    simp [freeAll]
  | cons i L ih =>
    obtain ⟨n, rfl⟩ : ∃ m, n = m + 1 := ⟨n - 1, by simp at hn; omega⟩
    have hcur : cur = some i := hc.head_eq
    subst hcur
    have hrest : ∀ j ∈ L, j ∈ r.live.filter (· ≠ i) := live_filter (A := []) hc.nodup hlive
    rw [freeAll, free_spec (hlive i (by simp)), Option.bind_some]
    rw [ih (r := { r with live := r.live.filter (· ≠ i) }) n hc.tail hrest (by simpa using hn)]
    simp [List.filter_filter, Bool.and_comm]

theorem resetAll_spec (n : Nat) (hc : Cursor r.next r.msgs A prev cur L)
    (hlive : ∀ j ∈ A ++ L, j ∈ r.live) (hn : L.length < n) :
    ∃ r', resetAll n cur r = some r' ∧ Walked r A L r' L ∧ r'.numMsgs = r.numMsgs ∧
      r'.msgs = r.msgs ∧ L.map r'.entry = (L.map r.entry).map resetEntry := by
  induction L generalizing r A prev cur n with
  | nil =>
    obtain ⟨n, rfl⟩ : ∃ m, n = m + 1 := ⟨n - 1, by simp at hn; omega⟩
    have hcur : cur = none := hc.cur_eq
    subst hcur
    exact ⟨r, rfl, Walked.stay ⟨hc.chain, hlive⟩, rfl, rfl, rfl⟩
  | cons i L ih =>
    obtain ⟨n, rfl⟩ : ∃ m, n = m + 1 := ⟨n - 1, by simp at hn; omega⟩
    have hcur : cur = some i := hc.cur_eq
    subst hcur
    have hout : i ∉ L := fun hmem => (List.nodup_append.mp hc.nodup).2.1.notMem hmem
    have hlive' : ∀ j ∈ A ++ [i] ++ L, j ∈ r.live := by simpa using hlive
    have hmap := map_setEntry (r := r) (e := resetEntry (r.entry i)) hout
    obtain ⟨r', hrun, hw, hnum, hmsgs, hes⟩ :=
      ih (r := r.setEntry i (resetEntry (r.entry i))) n hc.advance hlive'
        (by simpa using hn)
    rw [hmap] at hes
    refine ⟨r', ?_, ?_, hnum, hmsgs, ?_⟩
    · rw [resetAll, if_pos (hlive i (by simp))]
      exact hrun
    · exact Walked.keep_written hw fun j hne => Function.update_of_ne hne _ r.entry
    · rw [List.map_cons, List.map_cons, List.map_cons, hes, hw.entry i hout]
      congr 1
      exact Function.update_self (β := fun _ => Entry) i _ r.entry

end OpenwrtMtk.Dot1x.Linked
