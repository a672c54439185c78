import OpenwrtMtk.Bndstrg.HashInvariant
import OpenwrtMtk.Bndstrg.Steering

/-!
# The client that keeps asking on 2.4G

The daemon together with what has happened since each slot was last filled. The two counters of an
entry are the numbers of authentication requests since then, modulo 256, and the 2G_PERSIST
condition reads the counters.
-/

namespace OpenwrtMtk.Bndstrg

open Toolkit

set_option autoImplicit false

structure History where
  daemon : Daemon
  since : Slot → List Event

def fills (t : CliTable) (i : Slot) : Event → Bool
  | .msg m _ => decide (insertedSlot t m = some i)
  | .tick _ => false

def historyNext (h : History) (ev : Event) : Option History :=
  (daemonNext h.daemon ev).map fun d =>
    { daemon := d
      since := fun i => if fills h.daemon.table i ev then [ev] else h.since i ++ [ev] }

def History.init : History := ⟨.init, fun _ => []⟩

/-- An authentication request of the client `a` on the radio `b`. -/
def isAuthReq (a : MacAddr) (b : Band) : Event → Bool
  | .msg m _ => decide (m.action = .connectionReq ∧ m.addr = a ∧ bandOf m.band = some b ∧
      m.frameType = 3#8)
  | .tick _ => false

def History.authReqs (h : History) (i : Slot) (b : Band) : Nat :=
  (h.since i).countP (isAuthReq (h.daemon.table.entry i).addr b)

def FindsEntries (h : History) : Event → Prop
  | .msg m _ => m.action = .connectionReq → ∀ i, (h.daemon.table.entry i).bValid = true →
      (h.daemon.table.entry i).addr = m.addr →
        bndstrgTableLookup h.daemon.table m.addr = some (some i)
  | .tick _ => True

instance (h : History) : (ev : Event) → Decidable (FindsEntries h ev)
  | .msg m _ => inferInstanceAs (Decidable (m.action = .connectionReq → ∀ _, _ → _ → _))
  | .tick _ => inferInstanceAs (Decidable True)

section Counters

variable {t t' : CliTable} {i : Slot} {m : BndstrgMsg} {now : Timespec} {ret : ReturnCode}

theorem notedEntry_count (t : CliTable) (m : BndstrgMsg) (b b' : Band) (e : CliEntry) :
    ((notedEntry t m b e).statistics b').authReqCount =
      (e.statistics b').authReqCount + if b' = b ∧ m.frameType = 3#8 then 1#8 else 0#8 := by
  have hstat : (notedEntry t m b e).statistics = Function.update e.statistics b
      (bndstrgUpdateEntryStatistics (e.statistics b) (maxRssi m.rssi) m.frameType).1 := by
    unfold notedEntry noteConnReq CliEntry.set CliEntry.clear
    simp only
    split <;> split <;> try split
    all_goals rfl
  rw [hstat]
  by_cases hb : b' = b
  · subst hb
    rw [Function.update_self]
    unfold bndstrgUpdateEntryStatistics
    dsimp only
    by_cases hprobe : m.frameType = 0#8
    · simp [hprobe]
    · by_cases hauth : m.frameType = 3#8 <;> simp [hprobe, hauth]
  · simp [hb]

theorem isAuthReq_msg {b' : Band} (hact : m.action = .connectionReq)
    (hb : bandOf m.band = some b') (now : Timespec) (b : Band) :
    isAuthReq m.addr b (.msg m now) = decide (b = b' ∧ m.frameType = 3#8) := by
  rw [isAuthReq, decide_eq_decide]
  constructor
  · rintro ⟨-, -, hband, hauth⟩
    exact ⟨Option.some.inj (hband.symm.trans hb), hauth⟩
  · rintro ⟨rfl, hauth⟩
    exact ⟨hact, rfl, hb, hauth⟩

/-- The table takes requests as soon as it has an entry. -/
structure Ready (t : CliTable) : Prop where
  slots : SlotsInv t
  initialized : t.bInitialized = true
  enabled : ∀ i, (t.entry i).bValid = true → t.bEnabled = true

theorem eventHandle_enabled (hinv : SlotsInv t) (h : bndstrgEventHandle t m now = some (t', ret)) :
    t'.bInitialized = t.bInitialized ∧ (t.bEnabled = true → t'.bEnabled = true) := by
  by_cases hw : m.writesEntries = true
  · have hset := (eventHandle_effect hinv.size h).settings hw
    have hinit : t'.settings.bInitialized = t.settings.bInitialized := by rw [hset]
    have hen : t'.settings.bEnabled = t.settings.bEnabled := by rw [hset]
    exact ⟨hinit, fun henabled => hen.trans henabled⟩
  · unfold bndstrgEventHandle at h
    split at h <;> rename_i hact
    all_goals first
      | (exfalso; apply hw; simp [BndstrgMsg.writesEntries, hact]; done)
      | (simp only [Option.some.injEq, Prod.mk.injEq] at h
         obtain ⟨rfl, -⟩ := h
         first
           | exact ⟨rfl, id⟩
           | (unfold bndstrgEventOnOff
              simp only
              repeat' split
              all_goals first
                | exact ⟨rfl, id⟩
                | exact ⟨rfl, fun _ => rfl⟩))

theorem valid_before (hinv : SlotsInv t) (h : bndstrgEventHandle t m now = some (t', ret))
    (hv : (t'.entry i).bValid = true) (hold : insertedSlot t m ≠ some i) :
    (t.entry i).bValid = true ∧ (t'.entry i).addr = (t.entry i).addr := by
  rcases eventHandle_holder hinv h i hv with hsame | ⟨hfill, -⟩
  · exact ⟨hsame.valid, hsame.addr⟩
  · exact absurd hfill hold

theorem Ready.message (hready : Ready t) (h : bndstrgEventHandle t m now = some (t', ret)) :
    Ready t' := by
  obtain ⟨hinit, hen⟩ := eventHandle_enabled hready.slots h
  refine ⟨(eventHandle_effect hready.slots.size h).slotsInv hready.slots,
    hinit.trans hready.initialized, ?_⟩
  intro i hv
  apply hen
  by_cases hfill : insertedSlot t m = some i
  · exact (insertedSlot_spec hfill).2.1
  · exact hready.enabled i (valid_before hready.slots h hv hfill).1

theorem Ready.tick (hready : Ready t) (now : Slot → Timespec) :
    Ready (bndstrgPeriodicExec t now).1 := by
  have hkeeps : (bndstrgPeriodicExec t now).1.bInitialized = t.bInitialized ∧
      (bndstrgPeriodicExec t now).1.bEnabled = t.bEnabled := by
    unfold bndstrgPeriodicExec
    repeat' split
    all_goals exact ⟨rfl, rfl⟩
  refine ⟨periodicExec_slotsInv hready.slots now, hkeeps.1.trans hready.initialized, ?_⟩
  intro i hv
  obtain ⟨flags, elapsed, hframe⟩ := periodicExec_frame t now i
  rw [hframe] at hv
  exact hkeeps.2.trans (hready.enabled i hv)

theorem noted_at_slot (hready : Ready t) (hact : m.action = .connectionReq)
    (hv : (t.entry i).bValid = true) (hfound : bndstrgTableLookup t m.addr = some (some i))
    (h : bndstrgEventHandle t m now = some (t', ret)) :
    ∃ b, bandOf m.band = some b ∧ t' = t.setEntry i (notedEntry t m b (t.entry i)) := by
  simp only [bndstrgEventHandle, hact] at h
  obtain ⟨⟨t₁, ret₁⟩, hreq, heq⟩ := Option.map_eq_some_iff.mp h
  cases heq
  unfold bndstrgCheckConnReq at hreq
  rw [hready.initialized, hready.enabled i hv, hfound] at hreq
  obtain ⟨b, hb, heq⟩ := Option.map_eq_some_iff.mp hreq
  cases heq
  exact ⟨b, hb, rfl⟩

theorem counted_inserted (hready : Ready t) (hfill : insertedSlot t m = some i)
    (h : bndstrgEventHandle t m now = some (t', ret)) (b : Band) :
    (t'.entry i).addr = m.addr ∧ ((t'.entry i).statistics b).authReqCount =
      if isAuthReq m.addr b (.msg m now) then 1#8 else 0#8 := by
  have hact := (insertedSlot_spec hfill).1
  cases eventHandle_effect hready.slots.size h with
  | insert j b' hb hfill' hr =>
    obtain rfl := Option.some.inj (hfill.symm.trans hfill')
    have hcount := notedEntry_count t m b' b (freshEntry i m.addr now)
    obtain ⟨flags, stat, hframe⟩ := notedEntry_frame t m b' (freshEntry i m.addr now)
    have hat := hr.at_slot rfl
    refine ⟨by rw [hat, hframe]; rfl, ?_⟩
    have hkeep : ((t'.entry i).statistics b).authReqCount =
        ((notedEntry t m b' (freshEntry i m.addr now)).statistics b).authReqCount := by rw [hat]
    rw [hkeep, hcount, isAuthReq_msg hact hb]
    simp [freshEntry, CliEntry.zero]
  | keep hnone => rw [hfill] at hnone; cases hnone
  | note _ _ _ _ hnone => rw [hfill] at hnone; cases hnone
  | confirm _ _ hact' => rw [hact] at hact'; cases hact'
  | confirmFree _ _ hact' => rw [hact] at hact'; cases hact'
  | free _ hact' => rw [hact] at hact'; cases hact'

theorem counted_kept (hready : Ready t) (hold : insertedSlot t m ≠ some i)
    (hfinds : m.action = .connectionReq → (t.entry i).addr = m.addr →
      bndstrgTableLookup t m.addr = some (some i))
    (h : bndstrgEventHandle t m now = some (t', ret)) (hv : (t'.entry i).bValid = true)
    (b : Band) :
    ((t'.entry i).statistics b).authReqCount = ((t.entry i).statistics b).authReqCount +
      if isAuthReq (t.entry i).addr b (.msg m now) then 1#8 else 0#8 := by
  obtain ⟨hvalid, -⟩ := valid_before hready.slots h hv hold
  by_cases habout : m.action = .connectionReq ∧ (t.entry i).addr = m.addr
  · obtain ⟨hact, haddr⟩ := habout
    obtain ⟨b', hb, rfl⟩ := noted_at_slot hready hact hvalid (hfinds hact haddr) h
    rw [setEntry_entry, Function.update_self, notedEntry_count, haddr, isAuthReq_msg hact hb]
    simp
  · have hnot : isAuthReq (t.entry i).addr b (.msg m now) = false := by
      refine decide_eq_false ?_
      rintro ⟨hact, haddr, -⟩
      exact habout ⟨hact, haddr.symm⟩
    have hsame : (t'.entry i).statistics = (t.entry i).statistics := by
      cases eventHandle_effect hready.slots.size h with
      | keep _ hentry => rw [hentry]
      | note j b' hact _ _ hfound hr =>
        have hij : i ≠ j := by
          rintro rfl
          exact habout ⟨hact, hfound hvalid⟩
        rw [hr.off_slot rfl hij]
      | insert j b' _ hfill hr =>
        have hij : i ≠ j := by
          rintro rfl
          exact hold hfill
        rw [hr.off_slot rfl hij]
      | confirm j _ _ _ _ hr | confirmFree j _ _ _ _ _ hr | free j _ _ _ hr =>
        by_cases hij : i = j
        · subst hij
          rw [hr.at_slot rfl]
          rfl
        · rw [hr.off_slot rfl hij]
    rw [hsame, hnot]
    simp

end Counters

section Runs

variable {h h' : History} {ev : Event} {es : List Event} {i : Slot}

theorem historyNext_daemon (hnext : historyNext h ev = some h') :
    daemonNext h.daemon ev = some h'.daemon ∧
      ∀ i, h'.since i = if fills h.daemon.table i ev then [ev] else h.since i ++ [ev] := by
  obtain ⟨d, hd, rfl⟩ := Option.map_eq_some_iff.mp hnext
  exact ⟨hd, fun _ => rfl⟩

structure Counts (h : History) : Prop where
  ready : Ready h.daemon.table
  count : ∀ i, (h.daemon.table.entry i).bValid = true → ∀ b,
    ((h.daemon.table.entry i).statistics b).authReqCount = BitVec.ofNat 8 (h.authReqs i b)

theorem ofNat_count_snoc (n : Nat) (p : Bool) :
    BitVec.ofNat 8 n + (if p then 1#8 else 0#8) = BitVec.ofNat 8 (n + if p then 1 else 0) := by
  cases p
  · simp
  · simp [BitVec.ofNat_add]

theorem Counts.step (hc : Counts h) (hfinds : FindsEntries h ev)
    (hnext : historyNext h ev = some h') : Counts h' := by
  obtain ⟨hd, hsince⟩ := historyNext_daemon hnext
  obtain ⟨⟨d, cmds⟩, hstep, hfirst⟩ := Option.map_eq_some_iff.mp hd
  cases hfirst
  cases ev with
  | tick now =>
    have htable := (daemonStep_tick hstep).1
    refine ⟨htable ▸ hc.ready.tick now, ?_⟩
    intro i hv b
    obtain ⟨flags, elapsed, hframe⟩ := periodicExec_frame h.daemon.table now i
    rw [← htable] at hframe
    rw [hframe] at hv
    have hlog : h'.since i = h.since i ++ [.tick now] := by
      rw [hsince]
      rfl
    rw [History.authReqs, hlog, hframe, List.countP_append]
    exact hc.count i hv b
  | msg m now =>
    obtain ⟨ret, hhandle, -⟩ := daemonStep_msg hstep
    refine ⟨hc.ready.message hhandle, ?_⟩
    intro i hv b
    rw [History.authReqs, hsince]
    by_cases hfill : insertedSlot h.daemon.table m = some i
    · obtain ⟨haddr, hcount⟩ := counted_inserted hc.ready hfill hhandle b
      rw [fills, decide_eq_true hfill, if_pos rfl, hcount, haddr, List.countP_singleton]
      split <;> rfl
    · obtain ⟨hvalid, haddr⟩ := valid_before hc.ready.slots hhandle hv hfill
      have hreach := fun hact haddr => hfinds hact i hvalid haddr
      rw [fills, decide_eq_false hfill, if_neg Bool.false_ne_true, haddr, List.countP_append,
        List.countP_singleton, counted_kept hc.ready hfill hreach hhandle hv b, hc.count i hvalid b]
      exact ofNat_count_snoc _ _

theorem counts_init : Counts .init := by
  refine ⟨⟨tableInit_slotsInv, rfl, ?_⟩, ?_⟩
  · intro i hv
    cases hv
  · intro i hv
    cases hv

theorem counts_of_run (hrun : Run (Guarded FindsEntries (Graph historyNext)) .init es h) :
    Counts h :=
  hrun.invariant Counts (fun _ _ _ hc hstep => hc.step hstep.1 hstep.2) counts_init

end Runs

section Finding

variable {t t' : CliTable} {i : Slot} {a : MacAddr} {m : BndstrgMsg} {now : Timespec}
variable {ret : ReturnCode}

def DistinctClients (t : CliTable) : Prop :=
  ∀ i j, (t.entry i).bValid = true → (t.entry j).bValid = true →
    (t.entry i).addr = (t.entry j).addr → i = j

theorem tableLookup_inv (hinv : TableInv t) (a : MacAddr) :
    (∃ i, bndstrgTableLookup t a = some (some i) ∧ (t.entry i).bValid = true ∧
      (t.entry i).addr = a) ∨
    (bndstrgTableLookup t a = some none ∧
      ∀ i, (t.entry i).bValid = true → (t.entry i).addr ≠ a) := by
  obtain ⟨L, hB⟩ := hinv.buckets
  have hlookup : bndstrgTableLookup t a = some ((L (macAddrHashIndex a)).find?
      fun i => !(t.entry i).bValid || decide ((t.entry i).addr = a)) := by
    rw [bndstrgTableLookup, hB.linked.walk, Option.map_some, scan_snd]
  cases hfind : (L (macAddrHashIndex a)).find?
      fun i => !(t.entry i).bValid || decide ((t.entry i).addr = a) with
  | some i =>
    have hv := (hB.valid _ i (List.mem_of_find?_eq_some hfind)).1
    have hstop := List.find?_some hfind
    rw [hv] at hstop
    exact .inl ⟨i, hlookup.trans (congrArg some hfind), hv, of_decide_eq_true hstop⟩
  | none =>
    refine .inr ⟨hlookup.trans (congrArg some hfind), ?_⟩
    rintro i hv rfl
    have hmem := (hB.mem_iff _ i).mpr ⟨hv, rfl⟩
    have hmiss := List.find?_eq_none.mp hfind i hmem
    simp at hmiss

theorem DistinctClients.finds (hinv : TableInv t) (hdist : DistinctClients t)
    (hv : (t.entry i).bValid = true) :
    bndstrgTableLookup t (t.entry i).addr = some (some i) := by
  rcases tableLookup_inv hinv (t.entry i).addr with ⟨j, hlookup, hvj, haddr⟩ | ⟨-, hnone⟩
  · rw [hlookup, hdist i j hv hvj haddr.symm]
  · exact absurd rfl (hnone i hv)

theorem DistinctClients.message (hinv : TableInv t) (hslots : SlotsInv t)
    (hdist : DistinctClients t) (h : bndstrgEventHandle t m now = some (t', ret)) :
    DistinctClients t' := by
  have hnew {i j : Slot} (hfill : insertedSlot t m = some i) (hv : (t'.entry j).bValid = true)
      (haddr : (t'.entry i).addr = (t'.entry j).addr) (hvi : (t'.entry i).bValid = true) :
      i = j := by
    by_contra hne
    have hold : insertedSlot t m ≠ some j := fun hj => hne (Option.some.inj (hfill.symm.trans hj))
    obtain ⟨hvj, haddrj⟩ := valid_before hslots h hv hold
    have hlookup := (insertedSlot_spec hfill).2.2.1
    have hwasfree := firstVacancy_spec (insertedSlot_spec hfill).2.2.2
    have haddri : (t'.entry i).addr = m.addr := by
      rcases eventHandle_holder hslots h i hvi with hsame | ⟨-, haddri, -⟩
      · rw [hsame.valid] at hwasfree
        cases hwasfree
      · exact haddri
    rcases tableLookup_inv hinv m.addr with ⟨k, hfound, -⟩ | ⟨-, hnone⟩
    · rw [hlookup] at hfound
      cases hfound
    · exact hnone j hvj (by rw [← haddrj, ← haddr, haddri])
  intro i j hvi hvj haddr
  by_cases hi : insertedSlot t m = some i
  · exact hnew hi hvj haddr hvi
  · by_cases hj : insertedSlot t m = some j
    · exact (hnew hj hvi haddr.symm hvj).symm
    · obtain ⟨hvi', haddri⟩ := valid_before hslots h hvi hi
      obtain ⟨hvj', haddrj⟩ := valid_before hslots h hvj hj
      exact hdist i j hvi' hvj' (by rw [← haddri, ← haddrj, haddr])

theorem findsEntries_of_ownBucket {h : History} {es : List Event}
    (hrun : Run (Guarded (fun h ev => OwnBucket h.daemon ev) (Graph historyNext)) .init es h) :
    Run (Guarded FindsEntries (Graph historyNext)) .init es h := by
  have hkeeps : Run (Guarded FindsEntries (Graph historyNext)) .init es h ∧
      TableInv h.daemon.table ∧ SlotsInv h.daemon.table ∧ DistinctClients h.daemon.table := by
    induction hrun with
    | nil =>
      refine ⟨.nil, tableInit_inv, tableInit_slotsInv, ?_⟩
      intro i j hv
      cases hv
    | @snoc es h h' ev _ hstep ih =>
      obtain ⟨hrun', hinv, hslots, hdist⟩ := ih
      obtain ⟨hown, hnext⟩ := hstep
      have hd := (historyNext_daemon hnext).1
      have hfinds : FindsEntries h ev := by
        cases ev with
        | tick now => exact trivial
        | msg m now =>
          intro _ i hv haddr
          rw [← haddr]
          exact hdist.finds hinv hv
      refine ⟨.snoc hrun' ⟨hfinds, hnext⟩, (daemonNext_inv hinv hd).mpr hown,
        daemonNext_slotsInv hslots hd, ?_⟩
      obtain ⟨⟨d, cmds⟩, hstep, hfirst⟩ := Option.map_eq_some_iff.mp hd
      cases hfirst
      cases ev with
      | msg m now =>
        obtain ⟨ret, hhandle, -⟩ := daemonStep_msg hstep
        exact hdist.message hinv hslots hhandle
      | tick now =>
        have htable := (daemonStep_tick hstep).1
        intro i j hvi hvj haddr
        obtain ⟨flags, elapsed, hi⟩ := periodicExec_frame h.daemon.table now i
        obtain ⟨flags', elapsed', hj⟩ := periodicExec_frame h.daemon.table now j
        rw [htable, hi] at hvi
        rw [htable, hj] at hvj
        rw [htable, hi, hj] at haddr
        exact hdist i j hvi hvj haddr
  exact hkeeps.1

end Finding

section Condition

/-- The entry that the tick hands to `_bndstrg_allow_sta_conn_2g`. -/
def asked2G (t : CliTable) (e : CliEntry) (now : Timespec) : CliEntry :=
  mark2GOnly t (agedAt e now)

/-- The entry that the tick hands to `_bndstrg_allow_sta_conn_5g`. -/
def asked5G (t : CliTable) (e : CliEntry) (now : Timespec) : CliEntry :=
  (periodicEntry2G t (agedAt e now)).1

/-- The condition says that the client has sent `n2G` authentication requests on 2.4G, at least
one, and `n5G` on 5G, none. -/
structure PersistMeant (t : CliTable) (e : CliEntry) (n2G n5G : Nat) : Prop where
  sound : persistCondition t e = true → n5G = 0 ∧ 0 < n2G
  complete : n5G = 0 → 0 < n2G → t.checks .persist2G = true → t.holdTime ≤ e.elapsedTime →
    persistCondition t e = true

/-- One byte tells these numbers from others. -/
structure CountersFit (n2G n5G : Nat) : Prop where
  none5G : 256 ∣ n5G → n5G = 0 ∨ 256 ∣ n2G
  some2G : n5G = 0 → 256 ∣ n2G → n2G = 0

theorem ofNat_eq_zero_iff (n : Nat) : BitVec.ofNat 8 n = 0#8 ↔ 256 ∣ n := by
  rw [BitVec.toNat_eq, BitVec.toNat_ofNat]
  exact (Nat.dvd_iff_mod_eq_zero).symm

theorem persistCondition_iff {t : CliTable} {e : CliEntry} {n2G n5G : Nat}
    (h2G : (e.statistics .b2G).authReqCount = BitVec.ofNat 8 n2G)
    (h5G : (e.statistics .b5G).authReqCount = BitVec.ofNat 8 n5G) :
    persistCondition t e = true ↔
      (t.checks .persist2G = true ∧ t.holdTime ≤ e.elapsedTime) ∧ 256 ∣ n5G ∧ ¬256 ∣ n2G := by
  rw [persistCondition, h2G, h5G, ← ofNat_eq_zero_iff, ← ofNat_eq_zero_iff]
  simp [and_assoc]

theorem persistMeant_iff {t : CliTable} {e : CliEntry} {n2G n5G : Nat}
    (h2G : (e.statistics .b2G).authReqCount = BitVec.ofNat 8 n2G)
    (h5G : (e.statistics .b5G).authReqCount = BitVec.ofNat 8 n5G) :
    PersistMeant t e n2G n5G ↔
      (t.checks .persist2G = true ∧ t.holdTime ≤ e.elapsedTime → CountersFit n2G n5G) := by
  have hiff := persistCondition_iff (t := t) h2G h5G
  constructor
  · intro hmeant hasked
    constructor
    · intro hdvd
      by_contra hbad
      rw [not_or] at hbad
      exact hbad.1 (hmeant.sound (hiff.mpr ⟨hasked, hdvd, hbad.2⟩)).1
    · intro hnone hdvd
      by_contra hbad
      have hpos := Nat.pos_of_ne_zero hbad
      exact (hiff.mp (hmeant.complete hnone hpos hasked.1 hasked.2)).2.2 hdvd
  · intro hfit
    constructor
    · intro htrue
      obtain ⟨hasked, hdvd, hnot⟩ := hiff.mp htrue
      refine ⟨((hfit hasked).none5G hdvd).resolve_right hnot, Nat.pos_of_ne_zero ?_⟩
      rintro rfl
      exact hnot (Nat.dvd_zero 256)
    · intro hnone hpos hchecks hhold
      refine hiff.mpr ⟨⟨hchecks, hhold⟩, hnone ▸ Nat.dvd_zero 256, ?_⟩
      intro hdvd
      exact Nat.ne_of_gt hpos ((hfit ⟨hchecks, hhold⟩).some2G hnone hdvd)

theorem asked2G_reads (t : CliTable) (e : CliEntry) (now : Timespec) :
    (asked2G t e now).statistics = e.statistics ∧
      (asked2G t e now).elapsedTime = bndstrgGetEntryElapsedTime e now := by
  obtain ⟨flags, hframe⟩ := mark2GOnly_frame t (agedAt e now)
  rw [asked2G, hframe]
  exact ⟨rfl, rfl⟩

theorem asked5G_reads (t : CliTable) (e : CliEntry) (now : Timespec) :
    (asked5G t e now).statistics = e.statistics ∧
      (asked5G t e now).elapsedTime = bndstrgGetEntryElapsedTime e now := by
  obtain ⟨flags, hframe⟩ := periodicEntry2G_frame t (agedAt e now)
  rw [asked5G, hframe]
  exact ⟨rfl, rfl⟩

/-- In both functions the condition means what it says as long as the counters fit. -/
theorem persistCondition_meant_iff {es : List Event} {h : History}
    (hrun : Run (Guarded FindsEntries (Graph historyNext)) .init es h) {i : Slot}
    (hv : (h.daemon.table.entry i).bValid = true) (now : Timespec) :
    (PersistMeant h.daemon.table (asked2G h.daemon.table (h.daemon.table.entry i) now)
        (h.authReqs i .b2G) (h.authReqs i .b5G) ∧
      PersistMeant h.daemon.table (asked5G h.daemon.table (h.daemon.table.entry i) now)
        (h.authReqs i .b2G) (h.authReqs i .b5G)) ↔
    (h.daemon.table.checks .persist2G = true ∧ h.daemon.table.holdTime ≤
        bndstrgGetEntryElapsedTime (h.daemon.table.entry i) now →
      CountersFit (h.authReqs i .b2G) (h.authReqs i .b5G)) := by
  have hcount := (counts_of_run hrun).count i hv
  obtain ⟨hstat, helapsed⟩ := asked2G_reads h.daemon.table (h.daemon.table.entry i) now
  obtain ⟨hstat', helapsed'⟩ := asked5G_reads h.daemon.table (h.daemon.table.entry i) now
  rw [persistMeant_iff (hstat ▸ hcount .b2G) (hstat ▸ hcount .b5G),
    persistMeant_iff (hstat' ▸ hcount .b2G) (hstat' ▸ hcount .b5G), helapsed, helapsed']
  exact and_self_iff

end Condition

section Repeated

variable {h : History} {m : BndstrgMsg} {now : Timespec} {i : Slot} {b : Band}

def persistSetup (a : MacAddr) : List Event :=
  (bringUp ++ [{ action := .setChekConditions, conditionCheck := 2 }, { action := .setHoldTime },
    connectionReq band2G a (-50)]).map fun m => .msg m ⟨1, 0⟩

theorem tableLookup_setEntry {t : CliTable} {e : CliEntry} (hvalid : e.bValid = (t.entry i).bValid)
    (haddr : e.addr = (t.entry i).addr) (hnext : e.pNext = (t.entry i).pNext) (a : MacAddr) :
    bndstrgTableLookup (t.setEntry i e) a = bndstrgTableLookup t a := by
  have hlinks : (t.setEntry i e).next = t.next := by
    rw [setEntry_next, hnext]
    exact Function.update_eq_self i t.next
  have hstop : (fun k => !((t.setEntry i e).entry k).bValid ||
      decide (((t.setEntry i e).entry k).addr = a)) =
        fun k => !(t.entry k).bValid || decide ((t.entry k).addr = a) := by
    funext k
    by_cases hk : k = i
    · subst hk
      rw [setEntry_entry, Function.update_self, hvalid, haddr]
    · rw [setEntry_entry, Function.update_of_ne hk]
  rw [bndstrgTableLookup, bndstrgTableLookup, hlinks, hstop, setEntry_hash]

structure Asking (h : History) (i : Slot) (m : BndstrgMsg) : Prop where
  running : h.daemon.running = true
  initialized : h.daemon.table.bInitialized = true
  enabled : h.daemon.table.bEnabled = true
  valid : (h.daemon.table.entry i).bValid = true
  addr : (h.daemon.table.entry i).addr = m.addr
  found : bndstrgTableLookup h.daemon.table m.addr = some (some i)
  checks : h.daemon.table.checks .persist2G = true
  holdTime : h.daemon.table.holdTime = 0
  only : ∀ j, (h.daemon.table.entry j).bValid = true →
    (h.daemon.table.entry j).addr = m.addr → j = i

theorem Asking.repeats (hask : Asking h i m) (now : Timespec) (hact : m.action = .connectionReq)
    (hb : bandOf m.band = some b) (n : Nat) :
    ∃ h', Run (Guarded FindsEntries (Graph historyNext)) h (List.replicate n (.msg m now)) h' ∧
      Asking h' i m ∧ h'.since i = h.since i ++ List.replicate n (.msg m now) := by
  induction n with
  | zero => exact ⟨h, .nil, hask, (List.append_nil _).symm⟩
  | succ n ih =>
    obtain ⟨h₁, hrun, hask₁, hsince⟩ := ih
    have hcheck : bndstrgEventHandle h₁.daemon.table m now = some (h₁.daemon.table.setEntry i
        (notedEntry h₁.daemon.table m b (h₁.daemon.table.entry i)), .success) := by
      simp only [bndstrgEventHandle, hact]
      unfold bndstrgCheckConnReq
      rw [hask₁.initialized, hask₁.enabled, hask₁.found, hb]
      rfl
    have hold : insertedSlot h₁.daemon.table m = none := by
      unfold insertedSlot
      rw [hask₁.found]
      exact if_neg fun hand => Option.some_ne_none i (Option.some.inj hand.2.2.2.1)
    obtain ⟨flags, stat, hframe⟩ :=
      notedEntry_frame h₁.daemon.table m b (h₁.daemon.table.entry i)
    generalize hnoted : notedEntry h₁.daemon.table m b (h₁.daemon.table.entry i) = e at *
    have hfinds : FindsEntries h₁ (.msg m now) := by
      intro _ j hv haddr
      rw [hask₁.only j hv haddr]
      exact hask₁.found
    have hnext : historyNext h₁ (.msg m now) = some
        { daemon := ⟨h₁.daemon.table.setEntry i e, h₁.daemon.running⟩
          since := fun j => if fills h₁.daemon.table j (.msg m now) then [.msg m now]
            else h₁.since j ++ [.msg m now] } := by
      rw [historyNext, daemonNext, daemonStep, hask₁.running, if_pos rfl, hcheck]
      rfl
    have hvalid : e.bValid = (h₁.daemon.table.entry i).bValid := by rw [hframe]
    have haddr : e.addr = (h₁.daemon.table.entry i).addr := by rw [hframe]
    have hlink : e.pNext = (h₁.daemon.table.entry i).pNext := by rw [hframe]
    rw [List.replicate_succ']
    refine ⟨_, .snoc hrun ⟨hfinds, hnext⟩, ?_, ?_⟩
    · constructor
      · exact hask₁.running
      · exact hask₁.initialized
      · exact hask₁.enabled
      · rw [setEntry_entry, Function.update_self, hvalid, hask₁.valid]
      · rw [setEntry_entry, Function.update_self, haddr, hask₁.addr]
      · exact (tableLookup_setEntry hvalid haddr hlink m.addr).trans hask₁.found
      · exact hask₁.checks
      · exact hask₁.holdTime
      · intro j hv hj
        by_cases hji : j = i
        · exact hji
        · rw [setEntry_entry, Function.update_of_ne hji] at hv hj
          exact hask₁.only j hv hj
    · dsimp only
      rw [fills, hold, hsince, List.append_assoc]
      rfl

theorem persistSetup_asking :
    ∃ h, Run (Guarded FindsEntries (Graph historyNext)) .init
        (persistSetup ⟨0, 0, 0, 0, 0, 1⟩) h ∧
      Asking h 0 (connectionReq band5G ⟨0, 0, 0, 0, 0, 1⟩ (-50)) ∧
      (h.since 0).countP (isAuthReq ⟨0, 0, 0, 0, 0, 1⟩ .b2G) = 1 ∧
      (h.since 0).countP (isAuthReq ⟨0, 0, 0, 0, 0, 1⟩ .b5G) = 0 := by
  have hsetup : ((exec (guardStep FindsEntries historyNext) .init
      (persistSetup ⟨0, 0, 0, 0, 0, 1⟩)).any fun h =>
        (((h.daemon.running && h.daemon.table.bInitialized && h.daemon.table.bEnabled) &&
          (h.daemon.table.checks .persist2G && h.daemon.table.holdTime == 0)) &&
        (decide (bndstrgTableLookup h.daemon.table ⟨0, 0, 0, 0, 0, 1⟩ = some (some 0)) &&
          decide (∀ j, (h.daemon.table.entry j).bValid = decide (j = 0)))) &&
        (decide ((h.daemon.table.entry 0).addr = ⟨0, 0, 0, 0, 0, 1⟩) &&
          ((h.since 0).countP (isAuthReq ⟨0, 0, 0, 0, 0, 1⟩ .b2G) == 1 &&
          (h.since 0).countP (isAuthReq ⟨0, 0, 0, 0, 0, 1⟩ .b5G) == 0))) = true := by
    decide +kernel
  obtain ⟨h, hrun, hall⟩ := (Option.any_eq_true _ _).mp hsetup
  simp only [Bool.and_eq_true, decide_eq_true_eq, beq_iff_eq] at hall
  obtain ⟨⟨⟨⟨⟨hrunning, hinit⟩, hen⟩, hchecks, hhold⟩, hfound, hvalid⟩, haddr, hcount⟩ := hall
  refine ⟨h, exec_guarded_run hrun, ?_, hcount⟩
  constructor
  · exact hrunning
  · exact hinit
  · exact hen
  · exact (hvalid 0).trans (decide_eq_true rfl)
  · exact haddr
  · exact hfound
  · exact hchecks
  · exact hhold
  · intro j hv _
    exact of_decide_eq_true ((hvalid j).symm.trans hv)

theorem persistCondition_meant_setup :
    ∃ h, Run (Guarded FindsEntries (Graph historyNext)) .init
        (persistSetup ⟨0, 0, 0, 0, 0, 1⟩) h ∧
      PersistMeant h.daemon.table (asked2G h.daemon.table (h.daemon.table.entry 0) ⟨3, 0⟩)
        (h.authReqs 0 .b2G) (h.authReqs 0 .b5G) := by
  obtain ⟨h, hrun, hask, h2G, h5G⟩ := persistSetup_asking
  refine ⟨h, hrun, ((persistCondition_meant_iff hrun hask.valid ⟨3, 0⟩).mpr ?_).1⟩
  intro _
  unfold History.authReqs
  rw [hask.addr]
  constructor
  · intro _
    exact .inl h5G
  · intro _ hdvd
    have hone : 256 ∣ 1 := h2G ▸ hdvd
    omega

/-- After 256 requests on 5G the client seems to have sent none. -/
theorem persistCondition_wraps :
    ∃ h, Run (Graph historyNext) .init (persistSetup ⟨0, 0, 0, 0, 0, 1⟩ ++
        List.replicate 256 (.msg (connectionReq band5G ⟨0, 0, 0, 0, 0, 1⟩ (-50)) ⟨2, 0⟩)) h ∧
      (h.daemon.table.entry 0).bValid = true ∧
      ¬PersistMeant h.daemon.table (asked2G h.daemon.table (h.daemon.table.entry 0) ⟨3, 0⟩)
        (h.authReqs 0 .b2G) (h.authReqs 0 .b5G) := by
  obtain ⟨h₀, hrun₀, hask₀, hone, hzero⟩ := persistSetup_asking
  obtain ⟨h, hrun, hask, hsince⟩ := hask₀.repeats ⟨2, 0⟩ rfl rfl 256
  have hall := hrun₀.trans hrun
  have haddr : (h.daemon.table.entry 0).addr = ⟨0, 0, 0, 0, 0, 1⟩ := hask.addr
  have h2G : h.authReqs 0 .b2G = 1 := by
    rw [History.authReqs, haddr, hsince, List.countP_append, hone, List.countP_replicate]
    rfl
  have h5G : h.authReqs 0 .b5G = 256 := by
    rw [History.authReqs, haddr, hsince, List.countP_append, hzero, List.countP_replicate]
    rfl
  have hcount := (counts_of_run hall).count 0 hask.valid
  obtain ⟨hstat, -⟩ := asked2G_reads h.daemon.table (h.daemon.table.entry 0) ⟨3, 0⟩
  refine ⟨h, hall.unguard, hask.valid, ?_⟩
  intro hmeant
  rw [persistMeant_iff (hstat ▸ hcount .b2G) (hstat ▸ hcount .b5G), hask.holdTime] at hmeant
  have hfit := hmeant ⟨hask.checks, Nat.zero_le _⟩
  rw [h2G, h5G] at hfit
  rcases hfit.none5G (Nat.dvd_refl 256) with hno | hno <;> omega

end Repeated

end OpenwrtMtk.Bndstrg
