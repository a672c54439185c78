import Mathlib.Data.List.Count
import OpenwrtMtk.Bndstrg.Effect
import OpenwrtMtk.Lib.Buckets

/-!
# What one operation does to the hash chains

The 256 bucket heads and the link fields represent a family of lists `L`. Linking appends
to the list of one bucket and unlinking erases from it; neither touches another field of
an entry.
-/

namespace OpenwrtMtk.Bndstrg

open Toolkit

set_option autoImplicit false

variable {t t' : CliTable} {L : U8 → List Slot} {h : U8} {i : Slot}

/-- The bucket heads and links represent the lists `L`, no two of which share a slot. -/
structure Linked (t : CliTable) (L : U8 → List Slot) : Prop where
  chain : ∀ h, Chain t.next (t.hash h) (L h)
  disjoint : ∀ h h' i, i ∈ L h → i ∈ L h' → h = h'

theorem Linked.threaded (hL : Linked t L) : Threaded t.next t.hash L := ⟨hL.chain, hL.disjoint⟩

theorem Linked.nodup (hL : Linked t L) (h : U8) : (L h).Nodup := (hL.chain h).nodup

theorem card_lt_chainFuel : Fintype.card Slot < chainFuel := by
  rw [Fintype.card_fin]
  exact Nat.lt_succ_self _

theorem Linked.walk (hL : Linked t L) (stop : Slot → Bool) (h : U8) :
    chase t.next stop chainFuel none (t.hash h) = some (scan stop none (L h)) :=
  hL.threaded.walk card_lt_chainFuel stop h

theorem Linked.congr (hL : Linked t L) (hnext : ∀ i, (∃ h, i ∈ L h) → t'.next i = t.next i)
    (hhash : t'.hash = t.hash) : Linked t' L := by
  have hthreaded := hL.threaded.congr hnext
  rw [← hhash] at hthreaded
  exact ⟨hthreaded.chain, hthreaded.disjoint⟩

theorem linkEntry_spec (hL : Linked t L) (a : MacAddr) (hi : ∀ h, i ∉ L h)
    (hnull : t.next i = none) :
    ∃ t', linkEntry t a i = some t' ∧
      Linked t' (Function.update L (macAddrHashIndex a) (L (macAddrHashIndex a) ++ [i])) := by
  cases hhead : t.hash (macAddrHashIndex a) with
  | none =>
    have hhung := hL.threaded.hang_first hi hnull hhead
    exact ⟨t.setHash (macAddrHashIndex a) (some i), by simp [linkEntry, hhead],
      hhung.chain, hhung.disjoint⟩
  | some head =>
    obtain ⟨pre, last, -, hwalk, hhung⟩ := hL.threaded.hang_last card_lt_chainFuel hi hnull
      (b := macAddrHashIndex a) (by rw [hhead]; rfl)
    rw [hhead] at hwalk
    rw [← setNext_next] at hhung
    exact ⟨t.setNext last (some i), by simp [linkEntry, hhead, hwalk],
      hhung.chain, hhung.disjoint⟩

theorem unlinkEntry_spec (hL : Linked t L) (h : U8) (i : Slot) :
    ∃ t', unlinkEntry t h i = some t' ∧ (i ∉ L h → t' = t) ∧
      Linked t' (Function.update L h ((L h).erase i)) := by
  by_cases hi : i ∈ L h
  · rcases hL.threaded.take_off card_lt_chainFuel hi with ⟨hwalk, hoff⟩ | ⟨pre, -, hwalk, hoff⟩
    · exact ⟨t.setHash h (t.next i), by simp [unlinkEntry, hwalk], fun hni => absurd hi hni,
        hoff.chain, hoff.disjoint⟩
    · rw [← setNext_next] at hoff
      exact ⟨t.setNext pre (t.next i), by simp [unlinkEntry, hwalk], fun hni => absurd hi hni,
        hoff.chain, hoff.disjoint⟩
  · obtain ⟨pre, hwalk⟩ := hL.threaded.miss card_lt_chainFuel hi
    refine ⟨t, by simp [unlinkEntry, hwalk], fun _ => rfl, ?_⟩
    rw [List.erase_of_not_mem hi, Function.update_eq_self]
    exact hL

end OpenwrtMtk.Bndstrg

/-!
# Representation invariant of the client table

Valid entries hang exactly once on the bucket of their address, chains hold nothing else and
end, and `Size` counts the valid entries. Insertion keeps this. Deletion keeps it exactly when
the address it is given hashes to the bucket of the slot it frees.
-/

namespace OpenwrtMtk.Bndstrg

open Toolkit

set_option autoImplicit false

variable {t t' : CliTable} {L : U8 → List Slot} {i : Slot} {a : MacAddr} {m : BndstrgMsg}
variable {now : Timespec} {ret : ReturnCode} {d d' : Daemon} {es : List Event} {e : Event}

/-- The chains are the lists `L`: of valid entries of the bucket, each exactly once. -/
structure Buckets (t : CliTable) (L : U8 → List Slot) : Prop where
  chain : ∀ h, Chain t.next (t.hash h) (L h)
  valid : ∀ h, ∀ i ∈ L h, (t.entry i).bValid = true ∧ macAddrHashIndex (t.entry i).addr = h
  once : ∀ i, (t.entry i).bValid = true → (L (macAddrHashIndex (t.entry i).addr)).count i = 1

structure TableInv (t : CliTable) : Prop where
  buckets : ∃ L, Buckets t L
  size : t.size = (validSlots t).card

theorem Buckets.linked (hB : Buckets t L) : Linked t L := by
  refine ⟨hB.chain, fun h h' i hi hi' => ?_⟩
  rw [← (hB.valid h i hi).2, (hB.valid h' i hi').2]

theorem Linked.buckets (hL : Linked t L)
    (hmem : ∀ h i, i ∈ L h ↔
      (t.entry i).bValid = true ∧ macAddrHashIndex (t.entry i).addr = h) : Buckets t L :=
  ⟨hL.chain, fun h i => (hmem h i).mp,
    fun i hi => List.count_eq_one_of_mem (hL.nodup _) ((hmem _ i).mpr ⟨hi, rfl⟩)⟩

theorem Buckets.mem_iff (hB : Buckets t L) (h : U8) (i : Slot) :
    i ∈ L h ↔ (t.entry i).bValid = true ∧ macAddrHashIndex (t.entry i).addr = h := by
  refine ⟨hB.valid h i, ?_⟩
  rintro ⟨hi, rfl⟩
  exact List.count_pos_iff.mp (by rw [hB.once i hi]; exact Nat.one_pos)

theorem TableInv.congr (hinv : TableInv t) (hvalid : ∀ i, (t'.entry i).bValid = (t.entry i).bValid)
    (haddr : ∀ i, (t'.entry i).addr = (t.entry i).addr) (hnext : t'.next = t.next)
    (hhash : t'.hash = t.hash) (hsize : t'.size = t.size) : TableInv t' := by
  obtain ⟨L, hB⟩ := hinv.buckets
  refine ⟨⟨L, fun h => ?_, fun h i hi => ?_, fun i hi => ?_⟩, ?_⟩
  · rw [hnext, hhash]
    exact hB.chain h
  · rw [hvalid, haddr]
    exact hB.valid h i hi
  · rw [hvalid] at hi
    rw [haddr]
    exact hB.once i hi
  · rw [hsize, hinv.size, validSlots_congr hvalid]

theorem TableInv.setEntry (hinv : TableInv t) {e : CliEntry}
    (hvalid : e.bValid = (t.entry i).bValid) (haddr : e.addr = (t.entry i).addr)
    (hnext : e.pNext = (t.entry i).pNext) : TableInv (t.setEntry i e) := by
  refine hinv.congr (fun k => ?_) (fun k => ?_) ?_ rfl rfl
  · by_cases hk : k = i
    · subst hk; simpa using hvalid
    · simp [hk]
  · by_cases hk : k = i
    · subst hk; simpa using haddr
    · simp [hk]
  · rw [setEntry_next, hnext]
    exact Function.update_eq_self i t.next

theorem insertEntry_inv (hinv : TableInv t) (a : MacAddr) (now : Timespec) :
    ∃ r, bndstrgInsertEntry t a now = some r ∧ TableInv r.1 := by
  obtain ⟨L, hB⟩ := hinv.buckets
  by_cases hfull : maxTableSize ≤ t.size
  · exact ⟨(t, .tableFull, none), by simp [bndstrgInsertEntry, hfull], hinv⟩
  obtain ⟨i, hi⟩ := firstVacancy_exists (t := t) (by have := hinv.size; omega)
  have hfree := firstVacancy_spec hi
  have hunlisted : ∀ h, i ∉ L h := fun h hmem => by simp [hB.mem_iff, hfree] at hmem
  have hL : Linked (t.setEntry i (freshEntry i a now)) L := by
    refine hB.linked.congr (fun k hk => ?_) rfl
    rw [setEntry_next, Function.update_of_ne]
    rintro rfl
    exact hk.elim fun h hmem => hunlisted h hmem
  have hnull : (t.setEntry i (freshEntry i a now)).next i = none := by
    simp [setEntry_next, freshEntry, CliEntry.zero]
  obtain ⟨t₁, hlink, hL₁⟩ := linkEntry_spec hL a hunlisted hnull
  have hr := linkEntry_relinked hlink
  refine ⟨(t₁.setSize (t₁.size + 1), .success, some i),
    by simp [bndstrgInsertEntry, hfull, hi, hlink],
    ⟨Function.update L (macAddrHashIndex a) (L (macAddrHashIndex a) ++ [i]), ?_⟩, ?_⟩
  · refine Linked.buckets (t := t₁.setSize (t₁.size + 1)) ⟨hL₁.chain, hL₁.disjoint⟩
      fun h k => ?_
    rw [Threaded.mem_hung, hB.mem_iff, setSize_entry, hr.bValid, hr.addr]
    by_cases hk : k = i
    · subst hk
      simp [hfree, freshEntry, eq_comm]
    · simp [hk]
  · rw [setSize_size, hr.size, setEntry_size, hinv.size, ← card_validSlots_set (e := freshEntry i a now)
      hfree rfl]
    exact congrArg _ (validSlots_congr hr.bValid).symm

/-- The address of a deletion hashes to the bucket of the slot it frees. -/
def SameBucket (t : CliTable) (a : MacAddr) (i : Slot) : Prop :=
  (t.entry i).bValid = true → macAddrHashIndex a = macAddrHashIndex (t.entry i).addr

instance (t : CliTable) (a : MacAddr) (i : Slot) : Decidable (SameBucket t a i) :=
  inferInstanceAs (Decidable (_ → _))

theorem deleteTarget_ends (hinv : TableInv t) (a : MacAddr) (index : Nat) :
    ∃ target, deleteTarget t a index = some target := by
  obtain ⟨L, hB⟩ := hinv.buckets
  unfold deleteTarget
  split
  · exact ⟨_, rfl⟩
  · rw [hB.linked.walk]
    exact ⟨_, rfl⟩

/-- Deletion ends; it keeps the invariant exactly when it unlinks in the slot's own bucket. -/
theorem deleteEntry_inv (hinv : TableInv t) (a : MacAddr) (index : Nat) :
    ∃ r, bndstrgDeleteEntry t a index = some r ∧
      (TableInv r.1 ↔ ∀ i, deleteTarget t a index = some (some i) → SameBucket t a i) := by
  obtain ⟨L, hB⟩ := hinv.buckets
  obtain ⟨target, htarget⟩ := deleteTarget_ends hinv a index
  cases target with
  | none => exact ⟨_, by rw [bndstrgDeleteEntry, htarget], by simp [htarget, hinv]⟩
  | some i =>
    by_cases hv : (t.entry i).bValid = true
    swap
    · refine ⟨(t, .success), by simp [bndstrgDeleteEntry, htarget, hv], ?_⟩
      simp [htarget, hinv, SameBucket, hv]
    obtain ⟨t₁, hunlink, hmiss, hL₁⟩ := unlinkEntry_spec hB.linked (macAddrHashIndex a) i
    have hr := unlinkEntry_relinked hunlink
    refine ⟨((t₁.setEntry i (freeEntry (t₁.entry i))).setSize (t₁.size - 1), .success),
      by simp [bndstrgDeleteEntry, htarget, hv, hunlink], ?_⟩
    simp only [htarget, Option.some.injEq, forall_eq', SameBucket, hv, forall_const]
    have hnext : (t₁.setEntry i (freeEntry (t₁.entry i))).next = t₁.next := by
      rw [setEntry_next]
      exact Function.update_eq_self i t₁.next
    constructor
    · -- outside the bucket the slot stays on its chain, where it is no longer valid
      rintro ⟨⟨M, hM⟩, -⟩
      by_contra hne
      obtain rfl := hmiss fun hi => hne ((hB.mem_iff _ i).mp hi).2.symm
      have hchain := hM.chain (macAddrHashIndex (t₁.entry i).addr)
      rw [setSize_next, hnext] at hchain
      have hmem := (hB.mem_iff _ i).mpr ⟨hv, rfl⟩
      rw [(hB.chain _).unique hchain, hM.mem_iff] at hmem
      simp [freeEntry] at hmem
    · intro hbucket
      refine ⟨⟨Function.update L (macAddrHashIndex a) ((L (macAddrHashIndex a)).erase i),
        Linked.buckets (t := (t₁.setEntry i (freeEntry (t₁.entry i))).setSize (t₁.size - 1))
          ⟨fun h => ?_, hL₁.disjoint⟩ fun h k => ?_⟩, ?_⟩
      · rw [setSize_next, hnext]
        exact hL₁.chain h
      · rw [hB.linked.threaded.mem_erased, hB.mem_iff]
        by_cases hk : k = i
        · subst hk
          simp only [setSize_entry, setEntry_entry, Function.update_self, freeEntry, hbucket, hv]
          simp [eq_comm]
        · simp [hk, hr.bValid, hr.addr]
      · rw [setSize_size, hr.size, hinv.size, ← validSlots_congr hr.bValid]
        exact (card_validSlots_clear (by rw [hr.bValid]; exact hv) rfl).symm

def slotOf (index : Nat) : Option Slot :=
  if h : index < maxTableSize then some ⟨index, h⟩ else none

def agingCompletes (t : CliTable) (m : BndstrgMsg) (i : Slot) : Bool :=
  m.returnCode == 0#8 && (confirmedBands m.band).any fun confirmed =>
    (confirmAging (t.entry i) confirmed).agingConfirmed .b2G &&
      (confirmAging (t.entry i) confirmed).agingConfirmed .b5G

def freedSlot (t : CliTable) (m : BndstrgMsg) : Option Slot :=
  match m.action with
  | .cliDel => slotOf m.talbeIndex.toNat
  | .cliAgingRsp => (slotOf m.talbeIndex.toNat).filter (agingCompletes t m)
  | _ => none

/-- No message frees a slot under an address of another bucket. -/
def OwnBucket (d : Daemon) : Event → Prop
  | .msg m _ => ∀ i ∈ freedSlot d.table m, SameBucket d.table m.addr i
  | .tick _ => True

instance (d : Daemon) : (e : Event) → Decidable (OwnBucket d e)
  | .msg m _ => inferInstanceAs (Decidable (∀ i ∈ freedSlot d.table m, _))
  | .tick _ => inferInstanceAs (Decidable True)

theorem deleteTarget_bucket {index : Nat} :
    (∀ i, deleteTarget t a index = some (some i) → SameBucket t a i) ↔
      ∀ i ∈ slotOf index, SameBucket t a i := by
  by_cases hindex : index < maxTableSize
  · simp [deleteTarget, slotOf, hindex]
  · refine ⟨fun _ i hi => by simp [slotOf, hindex] at hi, fun _ i htarget _ => ?_⟩
    rcases deleteTarget_found htarget with rfl | ⟨_, haddr⟩
    · exact absurd i.isLt hindex
    · rw [haddr]

theorem checkConnReq_inv (hinv : TableInv t) (band : U8) (frameType : U8) (rssi : Fin 4 → U8)
    (ht : U8) (h : bndstrgCheckConnReq t band a frameType rssi ht now = some (t', ret)) :
    TableInv t' := by
  have hnote : ∀ {t₁ : CliTable} {i : Slot} {ret₁ : ReturnCode}, TableInv t₁ →
      (bandOf band).map (fun b => (t₁.setEntry i
        (noteConnReq t₁.rssiLow b frameType rssi ht (t₁.entry i)), ret₁)) = some (t', ret) →
      TableInv t' := by
    intro t₁ i ret₁ hinv₁ hmap
    obtain ⟨b, -, heq⟩ := Option.map_eq_some_iff.mp hmap
    simp only [Prod.mk.injEq] at heq
    obtain ⟨rfl, -⟩ := heq
    obtain ⟨flags, stat, hframe⟩ := noteConnReq_frame t₁.rssiLow b frameType rssi ht (t₁.entry i)
    exact hinv₁.setEntry (by rw [hframe]) (by rw [hframe]) (by rw [hframe])
  unfold bndstrgCheckConnReq at h
  split at h
  · simp only [Option.some.injEq, Prod.mk.injEq] at h
    exact h.1 ▸ hinv
  split at h
  · simp at h
  rename_i found _
  cases found with
  | some i => exact hnote hinv h
  | none =>
    obtain ⟨⟨t₁, ret₁, slot⟩, hinsert, hinv₁⟩ := insertEntry_inv hinv a now
    simp only [hinsert] at h
    cases slot with
    | none =>
      simp only [Option.some.injEq, Prod.mk.injEq] at h
      exact h.1 ▸ hinv₁
    | some i => exact hnote hinv₁ h

theorem agingRsp_inv (hinv : TableInv t) (hact : m.action = .cliAgingRsp)
    (h : bndstrgEventAgingRsp t m = some (t', ret)) :
    TableInv t' ↔ ∀ i ∈ freedSlot t m, SameBucket t m.addr i := by
  unfold bndstrgEventAgingRsp at h
  simp only [freedSlot, hact, Option.mem_filter_iff]
  split at h
  swap
  · rename_i hcode
    simp only [Option.some.injEq, Prod.mk.injEq] at h
    simp [← h.1, hinv, agingCompletes, hcode]
  rename_i hcode
  split at h
  · rename_i hc
    simp only [Option.some.injEq, Prod.mk.injEq] at h
    simp [← h.1, hinv, agingCompletes, hc]
  rename_i confirmed hc
  split at h
  swap
  · simp at h
  rename_i hindex
  simp only at h
  have hinv₁ : TableInv (t.setEntry ⟨_, hindex⟩ (confirmAging (t.entry ⟨_, hindex⟩) confirmed)) :=
    hinv.setEntry rfl rfl rfl
  have hcompletes : agingCompletes t m ⟨_, hindex⟩ =
      ((confirmAging (t.entry ⟨_, hindex⟩) confirmed).agingConfirmed .b2G &&
        (confirmAging (t.entry ⟨_, hindex⟩) confirmed).agingConfirmed .b5G) := by
    simp [agingCompletes, hcode, hc]
  split at h
  · rename_i hboth
    obtain ⟨⟨t₁, ret₁⟩, hdel, heq⟩ := Option.map_eq_some_iff.mp h
    simp only [Prod.mk.injEq] at heq
    obtain ⟨rfl, -⟩ := heq
    obtain ⟨r, hr, hiff⟩ := deleteEntry_inv hinv₁ m.addr m.talbeIndex.toNat
    obtain rfl := Option.some.inj (hr.symm.trans hdel)
    rw [hiff, deleteTarget_bucket]
    rw [hboth] at hcompletes
    simp [slotOf, hindex, SameBucket, hcompletes, confirmAging]
  · rename_i hboth
    simp only [Option.some.injEq, Prod.mk.injEq] at h
    rw [Bool.not_eq_true] at hboth
    rw [hboth] at hcompletes
    simp [← h.1, hinv₁, slotOf, hindex, hcompletes]

theorem eventHandle_inv (hinv : TableInv t) (h : bndstrgEventHandle t m now = some (t', ret)) :
    TableInv t' ↔ ∀ i ∈ freedSlot t m, SameBucket t m.addr i := by
  by_cases hm : m.writesEntries = true
  · simp only [BndstrgMsg.writesEntries, Bool.or_eq_true, decide_eq_true_eq] at hm
    rcases hm with (hact | hact) | hact <;> simp only [bndstrgEventHandle, hact] at h
    · obtain ⟨⟨t₁, ret₁⟩, hreq, heq⟩ := Option.map_eq_some_iff.mp h
      simp only [Prod.mk.injEq] at heq
      obtain ⟨rfl, -⟩ := heq
      simp [freedSlot, hact, checkConnReq_inv hinv _ _ _ _ hreq]
    · exact agingRsp_inv hinv hact h
    · obtain ⟨⟨t₁, ret₁⟩, hdel, heq⟩ := Option.map_eq_some_iff.mp h
      simp only [Prod.mk.injEq] at heq
      obtain ⟨rfl, -⟩ := heq
      obtain ⟨r, hr, hiff⟩ := deleteEntry_inv hinv m.addr m.talbeIndex.toNat
      obtain rfl := Option.some.inj (hr.symm.trans hdel)
      rw [hiff, deleteTarget_bucket]
      simp [freedSlot, hact]
  · obtain ⟨hentry, hhash, hsize⟩ := eventHandle_settings (by simpa using hm) h
    have hinv' : TableInv t' :=
      hinv.congr (by simp [hentry]) (by simp [hentry])
        (funext fun i => by simp [CliTable.next, hentry]) hhash hsize
    simp only [BndstrgMsg.writesEntries, Bool.or_eq_true, decide_eq_true_eq, not_or] at hm
    simp only [hinv', true_iff]
    intro i hi
    unfold freedSlot at hi
    split at hi
    · exact absurd ‹_› hm.2
    · exact absurd ‹_› hm.1.2
    · simp at hi

theorem periodicLoop_inv (hinv : TableInv t) (now : Slot → Timespec) :
    TableInv (periodicLoop t now).1 := by
  have hframe := fun i => periodicEntry_frame t (now i) (t.entry i)
  refine hinv.congr (fun i => ?_) (fun i => ?_) (funext fun i => ?_) rfl rfl <;>
    obtain ⟨flags, elapsed, heq⟩ := hframe i <;>
    simp [periodicLoop, CliTable.next, heq]

theorem periodicExec_inv (hinv : TableInv t) (now : Slot → Timespec) :
    TableInv (bndstrgPeriodicExec t now).1 := by
  rcases periodicExec_cases t now with ⟨-, htable, -⟩ | ⟨-, hentry, hhash, hsize, -⟩
  · rw [htable]
    exact periodicLoop_inv hinv now
  · exact hinv.congr (by simp [hentry]) (by simp [hentry])
      (funext fun i => by simp [CliTable.next, hentry]) hhash hsize

theorem daemonNext_inv (hinv : TableInv d.table) (h : daemonNext d e = some d') :
    TableInv d'.table ↔ OwnBucket d e := by
  obtain ⟨⟨d₁, cmds⟩, hstep, rfl⟩ := Option.map_eq_some_iff.mp h
  cases e with
  | msg m now =>
    obtain ⟨ret₁, hhandle, -⟩ := daemonStep_msg hstep
    exact eventHandle_inv hinv hhandle
  | tick now =>
    have hinv' := periodicExec_inv hinv now
    rw [← (daemonStep_tick hstep).1] at hinv'
    simp [OwnBucket, hinv']

theorem tableInit_inv : TableInv (bndstrgTableInit .zero) := by
  refine ⟨⟨fun _ => [], fun h => .nil, fun h i hi => by simp at hi, fun i hi => ?_⟩, ?_⟩
  · simp [bndstrgTableInit, CliTable.zero, CliEntry.zero] at hi
  · simp [bndstrgTableInit, CliTable.zero, CliEntry.zero, validSlots]

/-- Every run in which no message frees a slot in a foreign bucket keeps the invariant. -/
theorem tableInv_of_run (h : Run (Guarded OwnBucket (Graph daemonNext)) Daemon.init es d) :
    TableInv d.table :=
  h.invariant (fun d => TableInv d.table)
    (fun _ _ _ hinv hstep => (daemonNext_inv hinv hstep.2).mpr hstep.1) tableInit_inv

/-- The events that enable the table and then insert the client `a`. -/
def enableAndInsert (a : MacAddr) : List Event :=
  (bringUp ++ [connectionReq band2G a (-50)]).map fun m => .msg m ⟨1, 0⟩

/-- A deletion of slot 0 under the address `a`. -/
def deleteFirst (a : MacAddr) : Event :=
  .msg { action := .cliDel, talbeIndex := 0, addr := a } ⟨2, 0⟩

/-- A run that inserts and deletes a client under its own address. -/
theorem tableInv_of_run_delete :
    ∃ d, Run (Guarded OwnBucket (Graph daemonNext)) Daemon.init
      (enableAndInsert ⟨0, 0, 0, 0, 0, 1⟩ ++ [deleteFirst ⟨0, 0, 0, 0, 0, 1⟩]) d ∧
      TableInv d.table := by
  have hrun : (exec (guardStep OwnBucket daemonNext) Daemon.init
      (enableAndInsert ⟨0, 0, 0, 0, 0, 1⟩ ++ [deleteFirst ⟨0, 0, 0, 0, 0, 1⟩])).isSome = true := by
    decide +kernel
  obtain ⟨d, hd⟩ := Option.isSome_iff_exists.mp hrun
  exact ⟨d, exec_guarded_run hd, tableInv_of_run (exec_guarded_run hd)⟩

/-- Deleting slot 0 under an address of bucket 0 leaves the freed slot in bucket 1. -/
theorem foreign_delete_breaks_inv :
    ∃ d, Run (Graph daemonNext) Daemon.init
      (enableAndInsert ⟨0, 0, 0, 0, 0, 1⟩ ++ [deleteFirst .zero]) d ∧ ¬TableInv d.table := by
  have hrun : (exec daemonNext Daemon.init
      (enableAndInsert ⟨0, 0, 0, 0, 0, 1⟩ ++ [deleteFirst .zero])).map
      (fun d => (d.table.hash 1#8, (d.table.entry 0).bValid)) = some (some 0, false) := by
    decide +kernel
  obtain ⟨d, hd, hpair⟩ := Option.map_eq_some_iff.mp hrun
  simp only [Prod.mk.injEq] at hpair
  refine ⟨d, exec_run hd, fun hinv => ?_⟩
  obtain ⟨L, hB⟩ := hinv.buckets
  have hchain := hB.chain 1#8
  rw [hpair.1] at hchain
  have hmem : (0 : Slot) ∈ L 1#8 := List.mem_of_head? hchain.head_eq.symm
  rw [hB.mem_iff, hpair.2] at hmem
  simp at hmem

end OpenwrtMtk.Bndstrg
