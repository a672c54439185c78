import OpenwrtMtk.Wapi.StaTable

/-!
# Runs of the station table

Frames of stations, deletions and resets from a zeroed table: `TableInv` is kept by each of them,
and the entry a lookup finds is the one that the history says is there.
-/

namespace OpenwrtMtk.Wapi

open Toolkit StaTable

set_option autoImplicit false

variable {t t' : StaTable} {L : U8 → List StaSlot} {h : U8} {i k : StaSlot} {a : MacAddr}
variable {mbss : U8 → Bss}

/-- The chains hold the valid entries and nothing else. -/
structure Hashed (t : StaTable) (L : U8 → List StaSlot) : Prop where
  threaded : Threaded t.next t.hash L
  mem_iff : ∀ h i, i ∈ L h ↔ t.valid i = true ∧ macAddrHashIndex (t.addr i) = h

structure TableInv (t : StaTable) : Prop where
  size : t.size.toNat = t.validEntries.card
  used : ∀ i, t.valid i = true → 0 < i.val
  aid : ∀ i, t.valid i = true → (t.content i).aid = BitVec.ofNat 16 i
  distinct : ∀ i k, t.valid i = true → t.valid k = true → t.addr i = t.addr k → i = k
  cleared : ∀ i, t.valid i = false → t.content i = .zero
  hashed : ∃ L, Hashed t L

theorem Hashed.not_mem (hL : Hashed t L) (hi : t.valid i = false) (h : U8) : i ∉ L h := by
  intro hmem
  rw [hL.mem_iff, hi] at hmem
  simp at hmem

theorem TableInv.next_free (hinv : TableInv t) (hi : t.valid i = false) : t.next i = none := by
  rw [next, hinv.cleared i hi]
  rfl

theorem zero_inv : TableInv .zero := by
  constructor
  · simp [StaTable.zero, validEntries, valid, StaTableEntry.zero, Entry.zero]
  · intro i hi
    simp [StaTable.zero, valid, StaTableEntry.zero, Entry.zero] at hi
  · intro i hi
    simp [StaTable.zero, valid, StaTableEntry.zero, Entry.zero] at hi
  · intro i k hi
    simp [StaTable.zero, valid, StaTableEntry.zero, Entry.zero] at hi
  · intro i _
    rfl
  · refine ⟨fun _ => [], .empty, fun h i => ?_⟩
    simp [StaTable.zero, valid, StaTableEntry.zero, Entry.zero]

/-- The unused entry leaves at most 31 valid ones. -/
theorem TableInv.card_lt (hinv : TableInv t) : t.validEntries.card < maxStaNum := by
  have hpos : 0 < maxStaNum := by decide
  have hsub : t.validEntries ⊆ Finset.univ.erase ⟨0, hpos⟩ := by
    intro i hi
    apply Finset.mem_erase.mpr
    refine ⟨?_, Finset.mem_univ i⟩
    rintro rfl
    exact absurd (hinv.used _ (mem_validEntries.mp hi)) (lt_irrefl _)
  have hcard := Finset.card_le_card hsub
  rw [Finset.card_erase_of_mem (Finset.mem_univ _), Finset.card_univ, Fintype.card_fin] at hcard
  omega

section Lookup

theorem lookup_spec (hinv : TableInv t) (a : MacAddr) :
    ∃ r, staTableLookup t a = some r ∧
      ∀ i, r = some i ↔ t.valid i = true ∧ t.addr i = a := by
  obtain ⟨L, hL⟩ := hinv.hashed
  refine ⟨_, by rw [staTableLookup, hL.threaded.walk card_lt_walkFuel, Option.map_some, scan_snd],
    fun i => ?_⟩
  constructor
  · intro hfound
    have hstop := List.find?_some hfound
    have hvalid := ((hL.mem_iff _ i).mp (List.mem_of_find?_eq_some hfound)).1
    rw [hvalid] at hstop
    exact ⟨hvalid, by simpa using hstop⟩
  · rintro ⟨hvalid, rfl⟩
    have hmem := (hL.mem_iff _ i).mpr ⟨hvalid, rfl⟩
    cases hfound : (L (macAddrHashIndex (t.addr i))).find?
        (fun k => !t.valid k || decide (t.addr k = t.addr i)) with
    | none =>
      have hpass := List.find?_eq_none.mp hfound i hmem
      simp at hpass
    | some k =>
      have hstop := List.find?_some hfound
      have hk := ((hL.mem_iff _ k).mp (List.mem_of_find?_eq_some hfound)).1
      rw [hk] at hstop
      rw [hinv.distinct k i hk hvalid (by simpa using hstop)]

end Lookup

section Insert

theorem vacancy_spec (h : vacancy t = some i) : 0 < i.val ∧ t.valid i = false := by
  have hstop := List.find?_some h
  simpa using hstop

section Allocate

variable (mbss) (apidx : U8)

theorem allocate_next (i : StaSlot) : (t.allocate mbss i a apidx).next = t.next := by
  rw [allocate, setSize_next, setEntry_next]
  exact Function.update_eq_self i t.next

theorem allocate_valid (i : StaSlot) :
    (t.allocate mbss i a apidx).valid = Function.update t.valid i true := by
  rw [allocate, setSize_valid, setEntry_valid]
  rfl

theorem allocate_addr (i : StaSlot) :
    (t.allocate mbss i a apidx).addr = Function.update t.addr i a := by
  rw [allocate, setSize_addr, setEntry_addr]
  rfl

theorem allocate_content (hk : k ≠ i) :
    (t.allocate mbss i a apidx).content k = t.content k := by
  rw [allocate, setSize_content, setEntry_content, Function.update_of_ne hk]

theorem allocate_entry (hinv : TableInv t) (hfree : t.valid i = false) :
    ((t.allocate mbss i a apidx).content i).entry = (mbss apidx).mbss.insertEntry a := by
  rw [allocate, setSize_content, setEntry_content, Function.update_self, hinv.cleared i hfree]
  rfl

theorem allocate_aid (hinv : TableInv t)
    (hk : (t.allocate mbss i a apidx).valid k = true) :
    ((t.allocate mbss i a apidx).content k).aid = BitVec.ofNat 16 k := by
  rw [allocate_valid] at hk
  by_cases hki : k = i
  · subst hki
    simp [allocate, allocated]
  · rw [Function.update_of_ne hki] at hk
    simpa [allocate, hki] using hinv.aid k hk

theorem allocate_size (hinv : TableInv t) (hfree : t.valid i = false) :
    (t.allocate mbss i a apidx).size.toNat = (t.allocate mbss i a apidx).validEntries.card := by
  have hins : (t.allocate mbss i a apidx).validEntries = insert i t.validEntries := by
    ext k
    rw [mem_validEntries, allocate_valid, Finset.mem_insert, mem_validEntries]
    by_cases hk : k = i
    · subst hk
      simp
    · simp [hk]
  have hlt := hinv.card_lt
  have h32 : maxStaNum = 32 := rfl
  have hone : (1 : U16).toNat = 1 := rfl
  rw [hins, Finset.card_insert_of_notMem (by simp [hfree]), allocate, setSize_size,
    BitVec.toNat_add, hinv.size, hone]
  omega

theorem allocate_distinct (hinv : TableInv t) (habsent : ∀ i, t.valid i = true → t.addr i ≠ a)
    {l : StaSlot} (hk : (t.allocate mbss i a apidx).valid k = true)
    (hl : (t.allocate mbss i a apidx).valid l = true)
    (heq : (t.allocate mbss i a apidx).addr k = (t.allocate mbss i a apidx).addr l) : k = l := by
  rw [allocate_valid] at hk hl
  rw [allocate_addr] at heq
  by_cases hki : k = i
  · by_cases hli : l = i
    · rw [hki, hli]
    · rw [Function.update_of_ne hli] at hl
      rw [hki, Function.update_self, Function.update_of_ne hli] at heq
      exact absurd heq.symm (habsent l hl)
  · rw [Function.update_of_ne hki] at hk
    by_cases hli : l = i
    · rw [hli, Function.update_self, Function.update_of_ne hki] at heq
      exact absurd heq (habsent k hk)
    · rw [Function.update_of_ne hli] at hl
      rw [Function.update_of_ne hki, Function.update_of_ne hli] at heq
      exact hinv.distinct k l hk hl heq

end Allocate

theorem insert_spec (hinv : TableInv t) (mbss : U8 → Bss) (apidx : U8)
    (habsent : ∀ i, t.valid i = true → t.addr i ≠ a) :
    staTableInsertEntry mbss t a apidx = some (t, none) ∨
    ∃ t' i, staTableInsertEntry mbss t a apidx = some (t', some i) ∧ TableInv t' ∧
      t'.valid = Function.update t.valid i true ∧ t'.addr = Function.update t.addr i a ∧
      t.valid i = false ∧ (t'.content i).entry = (mbss apidx).mbss.insertEntry a := by
  have hroom : ¬maxStaNum ≤ t.size.toNat := by
    rw [hinv.size]
    exact Nat.not_le_of_lt hinv.card_lt
  cases hvac : vacancy t with
  | none =>
    left
    rw [staTableInsertEntry, if_neg hroom, hvac]
  | some i =>
    right
    obtain ⟨hpos, hfree⟩ := vacancy_spec hvac
    obtain ⟨L, hL⟩ := hinv.hashed
    have hthread : Threaded (t.allocate mbss i a apidx).next t.hash L := by
      rw [allocate_next]
      exact hL.threaded
    obtain ⟨t', hadd, hr, hhung, hlinks⟩ := addToHash_spec (t := t.allocate mbss i a apidx)
      hthread (macAddrHashIndex a) (hL.not_mem hfree)
      (by rw [allocate_next]; exact hinv.next_free hfree)
    have hvalid := hr.valid.trans (allocate_valid mbss apidx i)
    have haddr := hr.addr.trans (allocate_addr mbss apidx i)
    refine ⟨t', i, ?_, ⟨?_, fun k hk => ?_, fun k hk => ?_, fun k l hk hl hkl => ?_,
      fun k hk => ?_, _, hhung, fun c k => ?_⟩, hvalid, haddr, hfree, ?_⟩
    · rw [staTableInsertEntry, if_neg hroom, hvac]
      exact congrArg (Option.map fun t => (t, some i)) hadd
    · rw [hr.size, hr.validEntries]
      exact allocate_size mbss apidx hinv hfree
    · by_cases hki : k = i
      · rw [hki]
        exact hpos
      · rw [hvalid, Function.update_of_ne hki] at hk
        exact hinv.used k hk
    · rw [hr.valid] at hk
      rw [hr.aid]
      exact allocate_aid mbss apidx hinv hk
    · rw [hr.valid] at hk hl
      rw [hr.addr] at hkl
      exact allocate_distinct mbss apidx hinv habsent hk hl hkl
    · have hki : k ≠ i := by
        rintro rfl
        rw [hvalid, Function.update_self] at hk
        simp at hk
      rw [hvalid, Function.update_of_ne hki] at hk
      rw [hr.content_eq (hlinks k (hL.not_mem hk)), allocate_content mbss apidx hki]
      exact hinv.cleared k hk
    · rw [Threaded.mem_hung, hL.mem_iff, hvalid, haddr]
      by_cases hki : k = i
      · subst hki
        simp [hfree, eq_comm]
      · simp [hki]
    · rw [← allocate_entry mbss apidx hinv hfree]
      obtain ⟨p, hp⟩ := hr.content i
      rw [hp]

end Insert

section Delete

theorem toNat_slot (i : StaSlot) : (BitVec.ofNat 16 i : U16).toNat = i := by
  have hlt := i.isLt
  have h32 : maxStaNum = 32 := rfl
  rw [BitVec.toNat_ofNat]
  omega

theorem delete_spec (hinv : TableInv t) (hi : t.valid i = true) :
    ∃ t', staTableDeleteEntry t (BitVec.ofNat 16 i) (t.addr i) = some (t', true) ∧ TableInv t' ∧
      t'.valid = Function.update t.valid i false ∧ ∀ k, k ≠ i → t'.addr k = t.addr k := by
  obtain ⟨L, hL⟩ := hinv.hashed
  have hmem := (hL.mem_iff _ i).mpr ⟨hi, rfl⟩
  obtain ⟨t₁, hremove, hr, hoff, hlinks⟩ := removeFromHash_spec hL.threaded hmem
  have hvalid : (t₁.setEntry i .zero).valid = Function.update t.valid i false := by
    rw [setEntry_valid, hr.valid]
    rfl
  have haddr : ∀ k, k ≠ i → (t₁.setEntry i .zero).addr k = t.addr k := by
    intro k hk
    rw [setEntry_addr, Function.update_of_ne hk, hr.addr]
  have hnext : (t₁.setEntry i .zero).next = Function.update t₁.next i none := setEntry_next i _
  have hstill : ∀ k, (t₁.setEntry i .zero).valid k = true → k ≠ i ∧ t.valid k = true := by
    intro k hk
    rw [hvalid] at hk
    by_cases hki : k = i
    · rw [hki, Function.update_self] at hk
      simp at hk
    · rw [Function.update_of_ne hki] at hk
      exact ⟨hki, hk⟩
  refine ⟨(t₁.setEntry i .zero).setSize (t₁.size - 1), ?_, ⟨?_, fun k hk => ?_, fun k hk => ?_,
    fun k l hk hl hkl => ?_, fun k hk => ?_, _, ⟨fun c => ?_, hoff.disjoint⟩, fun c k => ?_⟩,
    hvalid, haddr⟩
  · have hslot : (BitVec.ofNat 16 i : U16).toNat < maxStaNum := by
      rw [toNat_slot]
      exact i.isLt
    have heq : (⟨(BitVec.ofNat 16 i : U16).toNat, hslot⟩ : StaSlot) = i := Fin.ext (toNat_slot i)
    rw [staTableDeleteEntry, dif_pos hslot, heq, if_pos ⟨hi, rfl⟩, hremove]
    rfl
  · have hera : ((t₁.setEntry i .zero).setSize (t₁.size - 1)).validEntries =
        t.validEntries.erase i := by
      ext k
      rw [mem_validEntries, setSize_valid, hvalid, Finset.mem_erase, mem_validEntries]
      by_cases hk : k = i
      · subst hk
        simp
      · simp [hk]
    have hcard : 0 < t.validEntries.card := Finset.card_pos.mpr ⟨i, mem_validEntries.mpr hi⟩
    have hlt := hinv.card_lt
    have h32 : maxStaNum = 32 := rfl
    have hone : (1 : U16).toNat = 1 := rfl
    rw [hera, Finset.card_erase_of_mem (mem_validEntries.mpr hi), setSize_size, BitVec.toNat_sub,
      hr.size, hinv.size, hone]
    omega
  · exact hinv.used k (hstill k hk).2
  · obtain ⟨hki, hkv⟩ := hstill k hk
    rw [setSize_content, setEntry_content, Function.update_of_ne hki, hr.aid]
    exact hinv.aid k hkv
  · obtain ⟨hki, hkv⟩ := hstill k hk
    obtain ⟨hli, hlv⟩ := hstill l hl
    rw [setSize_addr, haddr k hki, haddr l hli] at hkl
    exact hinv.distinct k l hkv hlv hkl
  · rw [setSize_valid, hvalid] at hk
    rw [setSize_content, setEntry_content]
    by_cases hki : k = i
    · rw [hki, Function.update_self]
    · rw [Function.update_of_ne hki] at hk ⊢
      rw [hr.content_eq (hlinks k (hL.not_mem hk))]
      exact hinv.cleared k hk
  · -- the zeroed entry is on no chain any more
    rw [setSize_next, hnext]
    apply (hoff.chain c).congr
    intro k hk
    apply Function.update_of_ne
    rintro rfl
    rw [hL.threaded.mem_erased, hL.mem_iff] at hk
    exact hk.2 ⟨hk.1.2.symm, rfl⟩
  · rw [hL.threaded.mem_erased, hL.mem_iff, setSize_valid, setSize_addr, hvalid]
    by_cases hki : k = i
    · subst hki
      simp [hi, eq_comm]
    · simp [hki, haddr k hki]

end Delete

/-- The history of insertions and deletions says which entries are valid. -/
structure TrackedInv (s : Tracked) : Prop where
  inv : TableInv s.table
  live : ∀ a i, s.live a = some i ↔ s.table.valid i = true ∧ s.table.addr i = a

theorem start_inv : TrackedInv .start := by
  refine ⟨zero_inv, fun a i => ?_⟩
  simp [Tracked.start, StaTable.zero, valid, StaTableEntry.zero, Entry.zero]

section Step

variable {s : Tracked}

theorem TrackedInv.lookup (hs : TrackedInv s) (a : MacAddr) :
    staTableLookup s.table a = some (s.live a) := by
  obtain ⟨r, hlookup, hr⟩ := lookup_spec hs.inv a
  have hlive : s.live a = r := by
    apply Option.ext
    intro i
    rw [hs.live, hr]
  rw [hlookup, hlive]

theorem receive_step (hs : TrackedInv s) (mbss : U8 → Bss) (a : MacAddr) (apidx : U8) :
    ∃ s', s.step mbss (.receive a apidx) = some s' ∧ TrackedInv s' := by
  have hlookup := hs.lookup a
  cases hlive : s.live a with
  | some i =>
    rw [hlive] at hlookup
    exact ⟨s, by simp [Tracked.step, Tracked.receive, hlookup], hs⟩
  | none =>
    rw [hlive] at hlookup
    have habsent : ∀ i, s.table.valid i = true → s.table.addr i ≠ a := by
      intro i hi haddr
      rw [(hs.live a i).mpr ⟨hi, haddr⟩] at hlive
      simp at hlive
    rcases insert_spec hs.inv mbss apidx habsent with
      hfull | ⟨t', i, hins, hinv, hvalid, haddr, hfree, _⟩
    · exact ⟨s, by simp [Tracked.step, Tracked.receive, hlookup, hfull], hs⟩
    · refine ⟨⟨t', Function.update s.live a (some i)⟩,
        by simp [Tracked.step, Tracked.receive, hlookup, hins], hinv, fun b k => ?_⟩
      dsimp only
      rw [hvalid, haddr]
      by_cases hki : k = i
      · subst hki
        by_cases hb : b = a
        · simp [hb]
        · have hnot : s.live b ≠ some k := fun hsome => by simp [(hs.live b k).mp hsome] at hfree
          simp [hb, hnot, Ne.symm hb]
      · by_cases hb : b = a
        · subst hb
          have hnot : ¬(s.table.valid k = true ∧ s.table.addr k = b) := fun h => habsent k h.1 h.2
          simp [hki, hnot, Ne.symm hki]
        · simp [hki, hb, hs.live]

theorem delete_step (hs : TrackedInv s) (mbss : U8 → Bss) {i : StaSlot}
    (hi : s.table.valid i = true) :
    ∃ s', s.step mbss (.delete i) = some s' ∧ TrackedInv s' := by
  obtain ⟨t', hdel, hinv, hvalid, haddr⟩ := delete_spec hs.inv hi
  refine ⟨⟨t', Function.update s.live (s.table.addr i) none⟩,
    by simp [Tracked.step, hdel], hinv, fun b k => ?_⟩
  dsimp only
  rw [hvalid]
  by_cases hki : k = i
  · subst hki
    by_cases hb : b = s.table.addr k
    · simp [hb]
    · have hnot : s.live b ≠ some k := fun hsome => hb ((hs.live b k).mp hsome).2.symm
      simp [hb, hnot]
  · rw [haddr k hki, Function.update_of_ne hki]
    by_cases hb : b = s.table.addr i
    · subst hb
      have hnot : ¬(s.table.valid k = true ∧ s.table.addr k = s.table.addr i) :=
        fun h => hki (hs.inv.distinct k i h.1 hi h.2)
      simp [hnot]
    · rw [Function.update_of_ne hb, hs.live]

theorem tracked_step (hs : TrackedInv s) (mbss : U8 → Bss) {e : StaEvent}
    (he : e.Enabled s) : ∃ s', s.step mbss e = some s' ∧ TrackedInv s' := by
  cases e with
  | receive saddr apidx => exact receive_step hs mbss saddr apidx
  | delete i => exact delete_step hs mbss he
  | reset => exact ⟨_, rfl, start_inv⟩

theorem run_inv {es : List StaEvent} (hrun : Run (TableStep mbss) .start es s) :
    TrackedInv s := by
  apply hrun.invariant TrackedInv _ start_inv
  intro s e s' hs hstep
  obtain ⟨s₁, heq, hs₁⟩ := tracked_step hs mbss hstep.1
  obtain rfl : s₁ = s' := Option.some.inj (heq.symm.trans hstep.2)
  exact hs₁

end Step

/-- What the table is for: `live` is the entry of every address that has one. -/
structure Represents (t : StaTable) (live : MacAddr → Option StaSlot) : Prop where
  size : t.size.toNat = (Finset.univ.filter fun i => t.valid i).card
  bound : t.size.toNat ≤ maxStaNum - 1
  /-- The chains end, a valid entry is on the chain of its address once, and they hold nothing
  else. -/
  chains : ∃ L : U8 → List StaSlot, (∀ h, Chain t.next (t.hash h) (L h)) ∧
    (∀ i, t.valid i = true → (L (macAddrHashIndex (t.addr i))).count i = 1) ∧
    ∀ h, ∀ i ∈ L h, t.valid i = true ∧ macAddrHashIndex (t.addr i) = h
  distinct : ∀ i k, t.valid i = true → t.valid k = true → t.addr i = t.addr k → i = k
  aid : ∀ i, t.valid i = true → (t.content i).aid.toNat = i
  lookup : ∀ a, staTableLookup t a = some (live a)

theorem TrackedInv.represents {s : Tracked} (hs : TrackedInv s) :
    Represents s.table s.live := by
  obtain ⟨L, hL⟩ := hs.inv.hashed
  refine ⟨hs.inv.size, ?_, ⟨L, hL.threaded.chain, fun i hi => ?_, fun h i => (hL.mem_iff h i).mp⟩,
    hs.inv.distinct, fun i hi => ?_, hs.lookup⟩
  · rw [hs.inv.size]
    exact Nat.le_sub_one_of_lt hs.inv.card_lt
  · exact List.count_eq_one_of_mem (hL.threaded.nodup _) ((hL.mem_iff _ i).mpr ⟨hi, rfl⟩)
  · rw [hs.inv.aid i hi, toNat_slot]

/-- In every run from the zeroed table, it represents the history, and no event gets stuck. -/
theorem station_table_represents {es : List StaEvent} {s : Tracked}
    (hrun : Run (TableStep mbss) .start es s) :
    Represents s.table s.live ∧ ∀ e : StaEvent, e.Enabled s → ∃ s', TableStep mbss s e s' := by
  have hs := run_inv hrun
  refine ⟨hs.represents, fun e he => ?_⟩
  obtain ⟨s', hstep, _⟩ := tracked_step hs mbss he
  exact ⟨s', he, hstep⟩

theorem station_table_represents_first :
    ∃ s, Tracked.step (fun _ => ⟨exampleMbss 2, .sms4, .sms4⟩) .start (.receive (.zero 6) 0) =
      some s ∧ Represents s.table s.live := by
  refine ⟨_, rfl, ?_⟩
  have hstep : (StaEvent.receive (.zero 6) 0).Enabled .start := trivial
  exact (station_table_represents (.single ⟨hstep, rfl⟩)).1

end OpenwrtMtk.Wapi
