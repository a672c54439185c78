import OpenwrtMtk.Bndstrg.Daemon
import Mathlib.Data.Finset.Card

/-!
# What one callback does to the slots

Inversion lemmas for the functions of the table, whatever the hash chains look like: up to
bucket heads and link fields, a message writes at most one slot. A tick writes the flags and
the elapsed time of valid entries and nothing else.
-/

namespace OpenwrtMtk.Bndstrg

open Toolkit

set_option autoImplicit false

variable {t t' t₁ : CliTable} {i : Slot} {e : CliEntry} {a : MacAddr} {m : BndstrgMsg}
variable {now : Timespec} {ret : ReturnCode}

theorem ControlFlag.bit_lt (f : ControlFlag) : f.bit < 32 := by cases f <;> decide

theorem ControlFlag.bit_inj {f g : ControlFlag} : f.bit = g.bit ↔ f = g := by
  cases f <;> cases g <;> decide

@[simp] theorem has_set (e : CliEntry) (f g : ControlFlag) :
    (e.set f).has g = (e.has g || decide (f = g)) := by
  simp only [CliEntry.has, CliEntry.set, testBit_setBit _ f.bit_lt, ControlFlag.bit_inj]

@[simp] theorem has_clear (e : CliEntry) (f g : ControlFlag) :
    (e.clear f).has g = (e.has g && !decide (f = g)) := by
  simp only [CliEntry.has, CliEntry.clear, testBit_clearBit, ControlFlag.bit_inj]

@[simp] theorem set_addr (e : CliEntry) (f : ControlFlag) : (e.set f).addr = e.addr := rfl

@[simp] theorem clear_addr (e : CliEntry) (f : ControlFlag) : (e.clear f).addr = e.addr := rfl

def allowFlag : Band → ControlFlag
  | .b2G => .allowToConnet2G
  | .b5G => .allowToConnet5G

theorem allowFlag_inj {b b' : Band} : allowFlag b = allowFlag b' ↔ b = b' := by
  cases b <;> cases b' <;> decide

@[simp] theorem setEntry_entry (t : CliTable) (i : Slot) (e : CliEntry) :
    (t.setEntry i e).entry = Function.update t.entry i e := rfl

@[simp] theorem setEntry_hash (t : CliTable) (i : Slot) (e : CliEntry) :
    (t.setEntry i e).hash = t.hash := rfl

@[simp] theorem setEntry_size (t : CliTable) (i : Slot) (e : CliEntry) :
    (t.setEntry i e).size = t.size := rfl

@[simp] theorem setSize_entry (t : CliTable) (n : Nat) : (t.setSize n).entry = t.entry := rfl

@[simp] theorem setSize_hash (t : CliTable) (n : Nat) : (t.setSize n).hash = t.hash := rfl

@[simp] theorem setSize_next (t : CliTable) (n : Nat) : (t.setSize n).next = t.next := rfl

@[simp] theorem setSize_size (t : CliTable) (n : Nat) : (t.setSize n).size = n := rfl

@[simp] theorem setHash_next (t : CliTable) (h : U8) (p : Option Slot) :
    (t.setHash h p).next = t.next := rfl

@[simp] theorem setHash_hash (t : CliTable) (h : U8) (p : Option Slot) :
    (t.setHash h p).hash = Function.update t.hash h p := rfl

theorem setEntry_next (t : CliTable) (i : Slot) (e : CliEntry) :
    (t.setEntry i e).next = Function.update t.next i e.pNext := by
  funext k
  by_cases hk : k = i
  · subst hk; simp [CliTable.next]
  · simp [CliTable.next, hk]

theorem setNext_next (t : CliTable) (i : Slot) (p : Option Slot) :
    (t.setNext i p).next = Function.update t.next i p := setEntry_next t i _

def CliTable.settings (t : CliTable) : CliTable :=
  { t with size := 0, entry := fun _ => .zero, hash := fun _ => none }

/-- `t'` is `t` with other bucket heads and other link fields. -/
structure Relinked (t t' : CliTable) : Prop where
  settings : t'.settings = t.settings
  size : t'.size = t.size
  payload : ∀ i, t'.entry i = { t.entry i with pNext := (t'.entry i).pNext }

theorem Relinked.refl (t : CliTable) : Relinked t t := ⟨rfl, rfl, fun _ => rfl⟩

theorem Relinked.setNext (t : CliTable) (i : Slot) (p : Option Slot) :
    Relinked t (t.setNext i p) := by
  refine ⟨rfl, rfl, fun k => ?_⟩
  by_cases hk : k = i
  · subst hk; simp [CliTable.setNext]
  · simp [CliTable.setNext, hk]

theorem Relinked.setHash (t : CliTable) (h : U8) (p : Option Slot) :
    Relinked t (t.setHash h p) := ⟨rfl, rfl, fun _ => rfl⟩

theorem Relinked.bValid (hr : Relinked t t') (i : Slot) :
    (t'.entry i).bValid = (t.entry i).bValid := by rw [hr.payload i]

theorem Relinked.addr (hr : Relinked t t') (i : Slot) :
    (t'.entry i).addr = (t.entry i).addr := by rw [hr.payload i]

theorem Relinked.trans {t'' : CliTable} (h : Relinked t t') (h' : Relinked t' t'') :
    Relinked t t'' := by
  refine ⟨h'.settings.trans h.settings, h'.size.trans h.size, fun i => ?_⟩
  rw [h'.payload i, h.payload i]

theorem Relinked.rssiLow (hr : Relinked t t') : t'.rssiLow = t.rssiLow := by
  have h : t'.settings.rssiLow = t.settings.rssiLow := by rw [hr.settings]
  exact h

theorem Relinked.setEntry (hr : Relinked t t') (i : Slot) (e : CliEntry) :
    Relinked (t.setEntry i { e with pNext := none }) (t'.setEntry i e) := by
  refine ⟨hr.settings, hr.size, fun k => ?_⟩
  by_cases hk : k = i
  · subst hk; simp
  · simpa [hk] using hr.payload k

theorem Relinked.at_slot (hr : Relinked t₁ t') (h : t₁.entry = Function.update t.entry i e) :
    t'.entry i = { e with pNext := (t'.entry i).pNext } := by
  have hpay := hr.payload i
  rwa [h, Function.update_self] at hpay

theorem Relinked.off_slot {j : Slot} (hr : Relinked t₁ t')
    (h : t₁.entry = Function.update t.entry j e) (hij : i ≠ j) :
    t'.entry i = { t.entry i with pNext := (t'.entry i).pNext } := by
  have hpay := hr.payload i
  rwa [h, Function.update_of_ne hij] at hpay

theorem linkEntry_relinked (h : linkEntry t a i = some t') : Relinked t t' := by
  unfold linkEntry at h
  simp only at h
  split at h
  · obtain rfl := Option.some.inj h
    exact .setHash _ _ _
  · split at h
    · obtain rfl := Option.some.inj h
      exact .setNext _ _ _
    · simp at h

theorem unlinkEntry_relinked {b : U8} (h : unlinkEntry t b i = some t') : Relinked t t' := by
  unfold unlinkEntry at h
  split at h
  · obtain rfl := Option.some.inj h
    exact .setHash _ _ _
  · obtain rfl := Option.some.inj h
    exact .setNext _ _ _
  · obtain rfl := Option.some.inj h
    exact .refl _
  · simp at h

theorem tableLookup_found (h : bndstrgTableLookup t a = some (some i)) :
    (t.entry i).bValid = true → (t.entry i).addr = a := by
  obtain ⟨⟨pre, _⟩, hchase, rfl⟩ := Option.map_eq_some_iff.mp h
  have hstop := chase_stop hchase
  intro hv
  simpa [hv] using hstop

theorem deleteTarget_found {index : Nat} (h : deleteTarget t a index = some (some i)) :
    index = i ∨ (maxTableSize ≤ index ∧ (t.entry i).addr = a) := by
  unfold deleteTarget at h
  split at h
  · simp only [Option.some.injEq] at h
    exact .inl (h ▸ rfl)
  · rename_i hindex
    obtain ⟨⟨pre, _⟩, hchase, rfl⟩ := Option.map_eq_some_iff.mp h
    have hstop := chase_stop hchase
    exact .inr ⟨Nat.le_of_not_lt hindex, (of_decide_eq_true hstop).symm⟩

def validSlots (t : CliTable) : Finset Slot := Finset.univ.filter fun i => (t.entry i).bValid

@[simp] theorem mem_validSlots : i ∈ validSlots t ↔ (t.entry i).bValid = true := by
  simp [validSlots]

theorem validSlots_congr (h : ∀ i, (t'.entry i).bValid = (t.entry i).bValid) :
    validSlots t' = validSlots t := by
  ext i
  simp [h i]

theorem firstVacancy_spec (h : firstVacancy t = some i) : (t.entry i).bValid = false := by
  simpa using List.find?_some h

theorem firstVacancy_exists (h : (validSlots t).card < maxTableSize) :
    ∃ i, firstVacancy t = some i := by
  cases hv : firstVacancy t with
  | some i => exact ⟨i, rfl⟩
  | none =>
    have hall : validSlots t = Finset.univ := by
      ext i
      simpa using List.find?_eq_none.mp hv i (List.mem_finRange i)
    rw [hall, Finset.card_univ, Fintype.card_fin] at h
    exact absurd h (lt_irrefl _)

theorem card_validSlots_set {e : CliEntry} (hi : (t.entry i).bValid = false)
    (he : e.bValid = true) : (validSlots (t.setEntry i e)).card = (validSlots t).card + 1 := by
  have hins : validSlots (t.setEntry i e) = insert i (validSlots t) := by
    ext k
    by_cases hk : k = i
    · subst hk; simp [he]
    · simp [hk]
  rw [hins, Finset.card_insert_of_notMem (by simp [hi])]

theorem card_validSlots_clear {e : CliEntry} (hi : (t.entry i).bValid = true)
    (he : e.bValid = false) : (validSlots (t.setEntry i e)).card = (validSlots t).card - 1 := by
  have hera : validSlots (t.setEntry i e) = (validSlots t).erase i := by
    ext k
    by_cases hk : k = i
    · subst hk; simp [he]
    · simp [hk]
  rw [hera, Finset.card_erase_of_mem (by simp [hi])]

theorem insertEntry_cases {slot : Option Slot} (hsize : t.size = (validSlots t).card)
    (h : bndstrgInsertEntry t a now = some (t', ret, slot)) :
    (maxTableSize ≤ t.size ∧ t' = t ∧ slot = none) ∨
    (∃ i, firstVacancy t = some i ∧ slot = some i ∧
      Relinked ((t.setEntry i (freshEntry i a now)).setSize (t.size + 1)) t') := by
  unfold bndstrgInsertEntry at h
  split at h
  · rename_i hfull
    simp only [Option.some.injEq, Prod.mk.injEq] at h
    exact .inl ⟨hfull, h.1.symm, h.2.2.symm⟩
  · rename_i hroom
    obtain ⟨i, hi⟩ := firstVacancy_exists (t := t) (by omega)
    simp only [hi] at h
    obtain ⟨t₁, hlink, heq⟩ := Option.map_eq_some_iff.mp h
    simp only [Prod.mk.injEq] at heq
    obtain ⟨rfl, -, rfl⟩ := heq
    have hr := linkEntry_relinked hlink
    exact .inr ⟨i, hi, rfl, hr.settings, congrArg (· + 1) hr.size, hr.payload⟩

theorem deleteEntry_cases {index : Nat} (h : bndstrgDeleteEntry t a index = some (t', ret)) :
    t' = t ∨ ∃ i, deleteTarget t a index = some (some i) ∧ (t.entry i).bValid = true ∧
      Relinked ((t.setEntry i (freeEntry (t.entry i))).setSize (t.size - 1)) t' := by
  unfold bndstrgDeleteEntry at h
  split at h
  · simp at h
  · simp only [Option.some.injEq, Prod.mk.injEq] at h
    exact .inl h.1.symm
  · rename_i i htarget
    split at h
    · rename_i hv
      obtain ⟨t₁, hunlink, heq⟩ := Option.map_eq_some_iff.mp h
      simp only [Prod.mk.injEq] at heq
      obtain ⟨rfl, -⟩ := heq
      have hr := unlinkEntry_relinked hunlink
      refine .inr ⟨i, htarget, hv, hr.settings, congrArg (· - 1) hr.size, fun k => ?_⟩
      by_cases hk : k = i
      · subst hk
        simp only [setSize_entry, setEntry_entry, Function.update_self]
        conv_lhs => rw [hr.payload k]
        rfl
      · simp only [setSize_entry, setEntry_entry, Function.update_of_ne hk]
        exact hr.payload k
    · simp only [Option.some.injEq, Prod.mk.injEq] at h
      exact .inl h.1.symm

theorem noteConnReq_frame (rssiLow : U8) (b : Band) (frameType : U8) (rssi : Fin 4 → U8)
    (ht : U8) (e : CliEntry) :
    ∃ flags stat, noteConnReq rssiLow b frameType rssi ht e =
      { e with controlFlags := flags, statistics := stat } := by
  unfold noteConnReq CliEntry.set CliEntry.clear
  simp only
  split <;> split <;> try split
  all_goals exact ⟨_, _, rfl⟩

theorem mark2GOnly_frame (t : CliTable) (e : CliEntry) :
    ∃ flags, mark2GOnly t e = { e with controlFlags := flags } := by
  unfold mark2GOnly CliEntry.set
  split <;> exact ⟨_, rfl⟩

theorem periodicEntry2G_frame (t : CliTable) (e : CliEntry) :
    ∃ flags, (periodicEntry2G t e).1 = { e with controlFlags := flags } := by
  obtain ⟨flags, hmark⟩ := mark2GOnly_frame t e
  unfold periodicEntry2G CliEntry.set
  simp only [hmark]
  split <;> exact ⟨_, rfl⟩

theorem allowStaConn5G_frame (t : CliTable) (e : CliEntry) :
    ∃ flags, (allowStaConn5G t e).2 = { e with controlFlags := flags } := by
  unfold allowStaConn5G CliEntry.clear
  simp only
  repeat' split
  all_goals exact ⟨_, rfl⟩

theorem periodicEntry5G_frame (t : CliTable) (e : CliEntry) :
    ∃ flags, (periodicEntry5G t e).1 = { e with controlFlags := flags } := by
  obtain ⟨flags, hflags⟩ := allowStaConn5G_frame t e
  unfold periodicEntry5G
  split
  · exact ⟨_, rfl⟩
  · split <;> rename_i heq <;> rw [heq] at hflags <;> simp only at hflags <;>
      exact ⟨_, by rw [hflags]; rfl⟩

theorem periodicEntry_frame (t : CliTable) (now : Timespec) (e : CliEntry) :
    ∃ flags elapsed, (periodicEntry t now e).1 =
      { e with controlFlags := flags, elapsedTime := elapsed } := by
  unfold periodicEntry
  split
  · simp only
    split
    · exact ⟨_, _, rfl⟩
    · obtain ⟨flags, hhalf⟩ := periodicEntry2G_frame t
        { e with elapsedTime := bndstrgGetEntryElapsedTime e now }
      obtain ⟨flags', hfull⟩ := periodicEntry5G_frame t (periodicEntry2G t
        { e with elapsedTime := bndstrgGetEntryElapsedTime e now }).1
      exact ⟨flags', _, by rw [hfull, hhalf]⟩
  · exact ⟨_, _, rfl⟩

theorem noteConnReq_pNext (rssiLow : U8) (b : Band) (frameType : U8) (rssi : Fin 4 → U8)
    (ht : U8) (e : CliEntry) (p : Option Slot) :
    noteConnReq rssiLow b frameType rssi ht { e with pNext := p } =
      { noteConnReq rssiLow b frameType rssi ht e with pNext := p } := by
  unfold noteConnReq CliEntry.set CliEntry.clear
  simp only
  split <;> split <;> try split
  all_goals rfl

def notedEntry (t : CliTable) (m : BndstrgMsg) (b : Band) (e : CliEntry) : CliEntry :=
  noteConnReq t.rssiLow b m.frameType m.rssi m.bAllowStaConnectInHt e

/-- The slot that a connection request fills for a new client. -/
def insertedSlot (t : CliTable) (m : BndstrgMsg) : Option Slot :=
  if m.action = .connectionReq ∧ t.bInitialized = true ∧ t.bEnabled = true ∧
      bndstrgTableLookup t m.addr = some none ∧ t.size < maxTableSize
  then firstVacancy t else none

def BndstrgMsg.writesEntries (m : BndstrgMsg) : Bool :=
  m.action = .connectionReq || m.action = .cliAgingRsp || m.action = .cliDel

/-- What a message does to the slots, link fields aside. -/
inductive MsgEffect (t : CliTable) (m : BndstrgMsg) (now : Timespec) (t' : CliTable) : Prop where
  | keep : insertedSlot t m = none → t'.entry = t.entry → t'.size = t.size →
      (m.writesEntries = true → t' = t) → MsgEffect t m now t'
  | note (i : Slot) (b : Band) : m.action = .connectionReq → bandOf m.band = some b →
      insertedSlot t m = none → ((t.entry i).bValid = true → (t.entry i).addr = m.addr) →
      Relinked (t.setEntry i (notedEntry t m b (t.entry i))) t' → MsgEffect t m now t'
  | insert (i : Slot) (b : Band) : bandOf m.band = some b → insertedSlot t m = some i →
      Relinked ((t.setEntry i (notedEntry t m b (freshEntry i m.addr now))).setSize
        (t.size + 1)) t' → MsgEffect t m now t'
  | confirm (i : Slot) (confirmed : Band → Bool) : m.action = .cliAgingRsp →
      m.talbeIndex.toNat = i → confirmedBands m.band = some confirmed →
      Relinked (t.setEntry i (confirmAging (t.entry i) confirmed)) t' → MsgEffect t m now t'
  | confirmFree (i : Slot) (confirmed : Band → Bool) : m.action = .cliAgingRsp →
      m.talbeIndex.toNat = i → confirmedBands m.band = some confirmed →
      (t.entry i).bValid = true →
      Relinked ((t.setEntry i (freeEntry (confirmAging (t.entry i) confirmed))).setSize
        (t.size - 1)) t' → MsgEffect t m now t'
  | free (i : Slot) : m.action = .cliDel →
      (m.talbeIndex.toNat = i ∨ (t.entry i).addr = m.addr) → (t.entry i).bValid = true →
      Relinked ((t.setEntry i (freeEntry (t.entry i))).setSize (t.size - 1)) t' →
      MsgEffect t m now t'

theorem insertedSlot_spec (h : insertedSlot t m = some i) :
    m.action = .connectionReq ∧ t.bEnabled = true ∧ bndstrgTableLookup t m.addr = some none ∧
      firstVacancy t = some i := by
  unfold insertedSlot at h
  split at h
  · rename_i hcond
    exact ⟨hcond.1, hcond.2.2.1, hcond.2.2.2.1, h⟩
  · simp at h

theorem insertedSlot_eq_none (h : m.action ≠ .connectionReq) : insertedSlot t m = none := by
  simp [insertedSlot, h]

theorem checkConnReq_effect (hsize : t.size = (validSlots t).card)
    (hact : m.action = .connectionReq)
    (h : bndstrgCheckConnReq t m.band m.addr m.frameType m.rssi m.bAllowStaConnectInHt now =
      some (t', ret)) : MsgEffect t m now t' := by
  unfold bndstrgCheckConnReq at h
  split at h
  · rename_i hready
    simp only [Option.some.injEq, Prod.mk.injEq] at h
    refine .keep ?_ (h.1 ▸ rfl) (h.1 ▸ rfl) fun _ => h.1.symm
    simp only [Bool.or_eq_true, Bool.not_eq_true'] at hready
    rcases hready with hready | hready <;> simp [insertedSlot, hready]
  rename_i hready
  split at h
  · simp at h
  rename_i found hlookup
  cases found with
  | some i =>
    obtain ⟨b, hb, heq⟩ := Option.map_eq_some_iff.mp h
    simp only [Prod.mk.injEq] at heq
    obtain ⟨rfl, -⟩ := heq
    exact .note i b hact hb (by simp [insertedSlot, hlookup]) (tableLookup_found hlookup) (.refl _)
  | none =>
    simp only at h
    split at h
    · simp at h
    · rename_i t₁ _ hinsert
      simp only [Option.some.injEq, Prod.mk.injEq] at h
      rcases insertEntry_cases hsize hinsert with ⟨hfull, rfl, -⟩ | ⟨_, _, hslot, _⟩
      · have hnone : insertedSlot t₁ m = none := by
          simp [insertedSlot, Nat.not_lt.mpr hfull]
        exact .keep hnone (h.1 ▸ rfl) (h.1 ▸ rfl) fun _ => h.1.symm
      · simp at hslot
    · rename_i t₁ _ i hinsert
      obtain ⟨b, hb, heq⟩ := Option.map_eq_some_iff.mp h
      simp only [Prod.mk.injEq] at heq
      obtain ⟨rfl, -⟩ := heq
      rcases insertEntry_cases hsize hinsert with ⟨_, _, hslot⟩ | ⟨j, hj, hslot, hr⟩
      · simp at hslot
      · obtain rfl := Option.some.inj hslot
        have hroom : t.size < maxTableSize := by
          refine Nat.lt_of_not_le fun hfull => ?_
          simp [bndstrgInsertEntry, hfull] at hinsert
        simp only [Bool.or_eq_true, Bool.not_eq_true', not_or, Bool.not_eq_false] at hready
        have hfill : insertedSlot t m = some i := by
          simp [insertedSlot, hact, hready, hlookup, hroom, hj]
        refine .insert i b hb hfill ?_
        have hlow : t₁.rssiLow = t.rssiLow := hr.rssiLow
        refine ⟨hr.settings, hr.size, fun k => ?_⟩
        by_cases hk : k = i
        · subst hk
          have hpay := hr.payload k
          simp only [setSize_entry, setEntry_entry, Function.update_self] at hpay ⊢
          rw [hlow, hpay, noteConnReq_pNext]
          rfl
        · have hpay := hr.payload k
          simp only [setSize_entry, setEntry_entry, Function.update_of_ne hk] at hpay ⊢
          exact hpay

theorem agingRsp_effect (hact : m.action = .cliAgingRsp)
    (h : bndstrgEventAgingRsp t m = some (t', ret)) : MsgEffect t m now t' := by
  have hfill : insertedSlot t m = none := insertedSlot_eq_none (by simp [hact])
  unfold bndstrgEventAgingRsp at h
  split at h
  · split at h
    · simp only [Option.some.injEq, Prod.mk.injEq] at h
      exact .keep hfill (h.1 ▸ rfl) (h.1 ▸ rfl) fun _ => h.1.symm
    · rename_i confirmed hc
      split at h
      · rename_i hindex
        simp only at h
        split at h
        · obtain ⟨⟨t₁, ret₁⟩, hdel, heq⟩ := Option.map_eq_some_iff.mp h
          simp only [Prod.mk.injEq] at heq
          obtain ⟨rfl, -⟩ := heq
          rcases deleteEntry_cases hdel with rfl | ⟨i, htarget, hv, hr⟩
          · exact .confirm ⟨_, hindex⟩ confirmed hact rfl hc (.refl _)
          · simp only [deleteTarget, hindex, dif_pos, Option.some.injEq] at htarget
            subst htarget
            simp only [setEntry_entry, Function.update_self] at hv hr
            refine .confirmFree ⟨_, hindex⟩ confirmed hact rfl hc hv
              ⟨hr.settings, hr.size, fun k => ?_⟩
            have hpay := hr.payload k
            by_cases hk : k = ⟨m.talbeIndex.toNat, hindex⟩
            · subst hk
              simpa using hpay
            · simpa [hk] using hpay
        · simp only [Option.some.injEq, Prod.mk.injEq] at h
          exact .confirm ⟨_, hindex⟩ confirmed hact rfl hc (h.1 ▸ .refl _)
      · simp at h
  · simp only [Option.some.injEq, Prod.mk.injEq] at h
    exact .keep hfill (h.1 ▸ rfl) (h.1 ▸ rfl) fun _ => h.1.symm

theorem onOff_frame (t : CliTable) (onoff band : U8) :
    (bndstrgEventOnOff t onoff band).entry = t.entry ∧
      (bndstrgEventOnOff t onoff band).hash = t.hash ∧
      (bndstrgEventOnOff t onoff band).size = t.size := by
  unfold bndstrgEventOnOff
  simp only
  repeat' split
  all_goals exact ⟨rfl, rfl, rfl⟩

theorem eventHandle_settings (hm : m.writesEntries = false)
    (h : bndstrgEventHandle t m now = some (t', ret)) :
    t'.entry = t.entry ∧ t'.hash = t.hash ∧ t'.size = t.size := by
  unfold bndstrgEventHandle at h
  split at h <;> rename_i hact
  all_goals first
    | (simp [BndstrgMsg.writesEntries, hact] at hm; done)
    | (simp only [Option.some.injEq, Prod.mk.injEq] at h
       obtain ⟨rfl, -⟩ := h
       first
         | exact ⟨rfl, rfl, rfl⟩
         | exact onOff_frame _ _ _)

theorem eventHandle_effect (hsize : t.size = (validSlots t).card)
    (h : bndstrgEventHandle t m now = some (t', ret)) : MsgEffect t m now t' := by
  by_cases hm : m.writesEntries = true
  · simp only [BndstrgMsg.writesEntries, Bool.or_eq_true, decide_eq_true_eq] at hm
    rcases hm with (hact | hact) | hact <;> simp only [bndstrgEventHandle, hact] at h
    · obtain ⟨⟨t₁, ret₁⟩, hreq, heq⟩ := Option.map_eq_some_iff.mp h
      simp only [Prod.mk.injEq] at heq
      obtain ⟨rfl, -⟩ := heq
      exact checkConnReq_effect hsize hact hreq
    · exact agingRsp_effect hact h
    · obtain ⟨⟨t₁, ret₁⟩, hdel, heq⟩ := Option.map_eq_some_iff.mp h
      simp only [Prod.mk.injEq] at heq
      obtain ⟨rfl, -⟩ := heq
      rcases deleteEntry_cases hdel with rfl | ⟨i, htarget, hv, hr⟩
      · exact .keep (insertedSlot_eq_none (by simp [hact])) rfl rfl fun _ => rfl
      · exact .free i hact ((deleteTarget_found htarget).imp_right And.right) hv hr
  · obtain ⟨hentry, -, hcount⟩ := eventHandle_settings (by simpa using hm) h
    have hquiet := hm
    simp only [BndstrgMsg.writesEntries, Bool.or_eq_true, decide_eq_true_eq, not_or] at hm
    exact .keep (insertedSlot_eq_none hm.1.1) hentry hcount fun hw => absurd hw hquiet

/-- The counter and the stored indices, whatever the chains look like. -/
structure SlotsInv (t : CliTable) : Prop where
  size : t.size = (validSlots t).card
  index : ∀ i, (t.entry i).bValid = true → (t.entry i).tableIndex = i

theorem Relinked.slotsInv (hr : Relinked t t') (hinv : SlotsInv t) : SlotsInv t' := by
  refine ⟨by rw [hr.size, hinv.size, validSlots_congr hr.bValid], fun i hi => ?_⟩
  rw [hr.bValid] at hi
  rw [hr.payload i]
  exact hinv.index i hi

theorem SlotsInv.congr (hinv : SlotsInv t) (hvalid : ∀ i, (t'.entry i).bValid = (t.entry i).bValid)
    (hindex : ∀ i, (t'.entry i).tableIndex = (t.entry i).tableIndex) (hsize : t'.size = t.size) :
    SlotsInv t' := by
  refine ⟨by rw [hsize, hinv.size, validSlots_congr hvalid], fun i hi => ?_⟩
  rw [hvalid] at hi
  rw [hindex]
  exact hinv.index i hi

theorem SlotsInv.setEntry (hinv : SlotsInv t) (hvalid : e.bValid = (t.entry i).bValid)
    (hindex : e.tableIndex = (t.entry i).tableIndex) : SlotsInv (t.setEntry i e) := by
  refine hinv.congr (fun k => ?_) (fun k => ?_) rfl <;> by_cases hk : k = i
  · subst hk; simpa using hvalid
  · simp [hk]
  · subst hk; simpa using hindex
  · simp [hk]

theorem SlotsInv.fill (hinv : SlotsInv t) (hi : (t.entry i).bValid = false)
    (he : e.bValid = true) (hindex : e.tableIndex = i) :
    SlotsInv ((t.setEntry i e).setSize (t.size + 1)) := by
  refine ⟨?_, fun k hk => ?_⟩
  · rw [setSize_size, hinv.size]
    exact (card_validSlots_set hi he).symm
  · by_cases hki : k = i
    · subst hki; simpa using hindex
    · simp only [setSize_entry, setEntry_entry, Function.update_of_ne hki] at hk ⊢
      exact hinv.index k hk

theorem SlotsInv.free (hinv : SlotsInv t) (hi : (t.entry i).bValid = true)
    (he : e.bValid = false) : SlotsInv ((t.setEntry i e).setSize (t.size - 1)) := by
  refine ⟨?_, fun k hk => ?_⟩
  · rw [setSize_size, hinv.size]
    exact (card_validSlots_clear hi he).symm
  · by_cases hki : k = i
    · subst hki; simp [he] at hk
    · simp only [setSize_entry, setEntry_entry, Function.update_of_ne hki] at hk ⊢
      exact hinv.index k hk

theorem notedEntry_frame (t : CliTable) (m : BndstrgMsg) (b : Band) (e : CliEntry) :
    ∃ flags stat, notedEntry t m b e = { e with controlFlags := flags, statistics := stat } :=
  noteConnReq_frame _ _ _ _ _ _

theorem MsgEffect.slotsInv (hinv : SlotsInv t) (h : MsgEffect t m now t') : SlotsInv t' := by
  cases h with
  | keep _ hentry hsize _ => exact hinv.congr (by simp [hentry]) (by simp [hentry]) hsize
  | note i b _ _ _ _ hr =>
    obtain ⟨flags, stat, hframe⟩ := notedEntry_frame t m b (t.entry i)
    exact hr.slotsInv (hinv.setEntry (by rw [hframe]) (by rw [hframe]))
  | insert i b _ hfill hr =>
    obtain ⟨flags, stat, hframe⟩ := notedEntry_frame t m b (freshEntry i m.addr now)
    have hvac := (insertedSlot_spec hfill).2.2.2
    exact hr.slotsInv (hinv.fill (firstVacancy_spec hvac) (by rw [hframe]; rfl) (by rw [hframe]; rfl))
  | confirm i _ _ _ _ hr => exact hr.slotsInv (hinv.setEntry rfl rfl)
  | confirmFree i _ _ _ _ hv hr => exact hr.slotsInv (hinv.free hv rfl)
  | free i _ _ hv hr => exact hr.slotsInv (hinv.free hv rfl)

/-- The command is about the client at `a`. -/
def DrvCmd.Names (c : DrvCmd) (a : MacAddr) : Prop :=
  ∃ iface action index update, c = .accessibleCli iface action a index update

theorem onoffCmds_names (t : CliTable) : ∀ c ∈ onoffCmds t, ¬c.Names a := by
  rintro c hc ⟨iface, action, index, update, rfl⟩
  simp only [onoffCmds, List.mem_append] at hc
  rcases hc with hc | hc <;> split at hc <;> simp at hc

theorem periodicExec_cases (t : CliTable) (now : Slot → Timespec) :
    (t.operational = true ∧ (bndstrgPeriodicExec t now).1 = (periodicLoop t now).1 ∧
      (bndstrgPeriodicExec t now).2.1 = (periodicLoop t now).2) ∨
    (t.operational = false ∧ (bndstrgPeriodicExec t now).1.entry = t.entry ∧
      (bndstrgPeriodicExec t now).1.hash = t.hash ∧
      (bndstrgPeriodicExec t now).1.size = t.size ∧
      (bndstrgPeriodicExec t now).1.dbdcMode = t.dbdcMode ∧
      ∀ c ∈ (bndstrgPeriodicExec t now).2.1, ∀ a, ¬c.Names a) := by
  cases hop : t.operational with
  | true =>
    simp only [CliTable.operational, Bool.and_eq_true, decide_eq_true_eq, bne_iff_ne] at hop
    simp [bndstrgPeriodicExec, hop, Nat.not_le.mpr]
  | false =>
    have hquery : ∀ iface : Iface, ∀ c ∈ [DrvCmd.infStatusQuery iface], ∀ a, ¬c.Names a := by
      rintro iface c hc a ⟨_, _, _, _, rfl⟩
      simp at hc
    refine .inr ⟨rfl, ?_⟩
    unfold bndstrgPeriodicExec
    split
    · exact ⟨rfl, rfl, rfl, rfl, fun c hc => absurd hc List.not_mem_nil⟩
    split
    · exact ⟨rfl, rfl, rfl, rfl, fun c hc => absurd hc List.not_mem_nil⟩
    split
    · exact ⟨rfl, rfl, rfl, rfl, hquery _⟩
    split
    · exact ⟨rfl, rfl, rfl, rfl, hquery _⟩
    split
    · exact ⟨rfl, rfl, rfl, rfl, hquery _⟩
    split
    · exact ⟨rfl, rfl, rfl, rfl, fun c hc a => onoffCmds_names t c hc⟩
    · rename_i hinit hgive hqueried h2G h5G henabled
      simp only [Bool.not_eq_true', Bool.not_eq_false, Bool.or_eq_true, decide_eq_true_eq,
        not_or, Nat.not_le] at hinit hgive hqueried henabled
      simp [CliTable.operational, hinit, hgive, hqueried, h2G, h5G, henabled] at hop

theorem periodicExec_entry (t : CliTable) (now : Slot → Timespec) (i : Slot) :
    ((bndstrgPeriodicExec t now).1.entry i = t.entry i ∨
      (bndstrgPeriodicExec t now).1.entry i = (periodicEntry t (now i) (t.entry i)).1) ∧
    (bndstrgPeriodicExec t now).1.size = t.size := by
  rcases periodicExec_cases t now with ⟨-, htable, -⟩ | ⟨-, hentry, -, hsize, -⟩
  · rw [htable]
    exact ⟨.inr rfl, rfl⟩
  · exact ⟨.inl (by rw [hentry]), hsize⟩

theorem periodicExec_frame (t : CliTable) (now : Slot → Timespec) (i : Slot) :
    ∃ flags elapsed, (bndstrgPeriodicExec t now).1.entry i =
      { t.entry i with controlFlags := flags, elapsedTime := elapsed } := by
  rcases (periodicExec_entry t now i).1 with heq | heq
  · exact ⟨_, _, heq⟩
  · rw [heq]
    exact periodicEntry_frame t (now i) (t.entry i)

theorem periodicExec_slotsInv (hinv : SlotsInv t) (now : Slot → Timespec) :
    SlotsInv (bndstrgPeriodicExec t now).1 := by
  refine hinv.congr (fun i => ?_) (fun i => ?_) (periodicExec_entry t now 0).2 <;>
    obtain ⟨flags, elapsed, heq⟩ := periodicExec_frame t now i <;> rw [heq]

theorem daemonStep_msg {d d' : Daemon} {cmds : List DrvCmd}
    (h : daemonStep d (.msg m now) = some (d', cmds)) :
    ∃ ret, bndstrgEventHandle d.table m now = some (d'.table, ret) ∧ cmds = [] ∧
      d.running = true ∧ d'.running = true := by
  simp only [daemonStep] at h
  split at h
  · rename_i hrun
    obtain ⟨⟨t₁, ret₁⟩, hhandle, heq⟩ := Option.map_eq_some_iff.mp h
    simp only [Prod.mk.injEq] at heq
    obtain ⟨rfl, rfl⟩ := heq
    exact ⟨ret₁, hhandle, rfl, hrun, hrun⟩
  · simp at h

theorem daemonStep_tick {d d' : Daemon} {now : Slot → Timespec} {cmds : List DrvCmd}
    (h : daemonStep d (.tick now) = some (d', cmds)) :
    d'.table = (bndstrgPeriodicExec d.table now).1 ∧
      cmds = (bndstrgPeriodicExec d.table now).2.1 ∧ d.running = true := by
  simp only [daemonStep] at h
  split at h
  · rename_i hrun
    simp only [Option.some.injEq, Prod.mk.injEq] at h
    obtain ⟨rfl, rfl⟩ := h
    exact ⟨rfl, rfl, hrun⟩
  · simp at h

theorem tableInit_slotsInv : SlotsInv (bndstrgTableInit .zero) := by
  refine ⟨?_, fun i hi => ?_⟩
  · simp [bndstrgTableInit, CliTable.zero, CliEntry.zero, validSlots]
  · simp [bndstrgTableInit, CliTable.zero, CliEntry.zero] at hi

/-- The message names the client `a` or its slot `i`. -/
def BndstrgMsg.concerns (m : BndstrgMsg) (i : Slot) (a : MacAddr) : Bool :=
  match m.action with
  | .connectionReq => m.addr = a
  | .cliDel | .cliAgingRsp => decide (m.addr = a) || decide (m.talbeIndex.toNat = i)
  | _ => false

theorem eventHandle_other (hinv : SlotsInv t) (hv : (t.entry i).bValid = true)
    (hother : m.concerns i (t.entry i).addr = false)
    (h : bndstrgEventHandle t m now = some (t', ret)) :
    t'.entry i = { t.entry i with pNext := (t'.entry i).pNext } := by
  cases eventHandle_effect hinv.size h with
  | keep _ hentry => rw [hentry]
  | note j b hact _ _ hfound hr =>
    refine hr.off_slot rfl ?_
    rintro rfl
    simp [BndstrgMsg.concerns, hact, hfound hv] at hother
  | insert j b _ hfill hr =>
    refine hr.off_slot rfl ?_
    rintro rfl
    simp [firstVacancy_spec (insertedSlot_spec hfill).2.2.2] at hv
  | confirm j c hact hindex _ hr =>
    refine hr.off_slot rfl ?_
    rintro rfl
    simp [BndstrgMsg.concerns, hact, hindex] at hother
  | confirmFree j c hact hindex _ _ hr =>
    refine hr.off_slot rfl ?_
    rintro rfl
    simp [BndstrgMsg.concerns, hact, hindex] at hother
  | free j hact htarget _ hr =>
    refine hr.off_slot rfl ?_
    rintro rfl
    rcases htarget with htarget | htarget <;>
      simp [BndstrgMsg.concerns, hact, htarget] at hother

/-- The slot of `e` still holds its client in `e'`, with the same permissions. -/
structure SameHolder (e e' : CliEntry) : Prop where
  valid : e.bValid = true
  addr : e'.addr = e.addr
  allowed : ∀ b, e'.has (allowFlag b) = e.has (allowFlag b)

theorem notedEntry_allowed (t : CliTable) (m : BndstrgMsg) (b b' : Band) (e : CliEntry) :
    (notedEntry t m b e).has (allowFlag b') = e.has (allowFlag b') := by
  have hsupport : supportFlag b ≠ allowFlag b' := by cases b <;> cases b' <;> decide
  have hlow : lowRssiFlag b ≠ allowFlag b' := by cases b <;> cases b' <;> decide
  have hht : notSupportHtFlag b ≠ allowFlag b' := by cases b <;> cases b' <;> decide
  have hset : (e.set (supportFlag b)).has (allowFlag b') = e.has (allowFlag b') := by
    simp [hsupport]
  unfold notedEntry noteConnReq
  simp only
  split <;> split <;> try split
  all_goals
    try simp only [has_set, has_clear, hlow, hht, decide_false, Bool.or_false, Bool.not_false,
      Bool.and_true]
    exact hset

theorem eventHandle_holder (hinv : SlotsInv t)
    (h : bndstrgEventHandle t m now = some (t', ret)) (i : Slot)
    (hi : (t'.entry i).bValid = true) :
    SameHolder (t.entry i) (t'.entry i) ∨
      (i ∈ insertedSlot t m ∧ (t'.entry i).addr = m.addr ∧
        ∀ b, (t'.entry i).has (allowFlag b) = false) := by
  have hoff : ∀ {e : CliEntry} {j : Slot} {t₁ : CliTable}, Relinked t₁ t' →
      t₁.entry = Function.update t.entry j e → i ≠ j → SameHolder (t.entry i) (t'.entry i) := by
    intro e j t₁ hr ht₁ hij
    rw [hr.off_slot ht₁ hij] at hi ⊢
    exact ⟨hi, rfl, fun _ => rfl⟩
  cases eventHandle_effect hinv.size h with
  | keep _ hentry =>
    rw [hentry] at hi ⊢
    exact .inl ⟨hi, rfl, fun _ => rfl⟩
  | note j b _ _ _ _ hr =>
    refine .inl ?_
    by_cases hij : i = j
    · subst hij
      obtain ⟨flags, stat, hframe⟩ := notedEntry_frame t m b (t.entry i)
      have hallow := fun b' => notedEntry_allowed t m b b' (t.entry i)
      rw [hr.at_slot rfl] at hi ⊢
      exact ⟨by rw [hframe] at hi; exact hi, by rw [hframe], hallow⟩
    · exact hoff hr rfl hij
  | insert j b _ hfill hr =>
    by_cases hij : i = j
    · subst hij
      obtain ⟨flags, stat, hframe⟩ := notedEntry_frame t m b (freshEntry i m.addr now)
      have hallow := fun b' => notedEntry_allowed t m b b' (freshEntry i m.addr now)
      refine .inr ⟨hfill, ?_, fun b' => ?_⟩
      · rw [hr.at_slot rfl, hframe]
        rfl
      · rw [hr.at_slot rfl]
        exact (hallow b').trans (testBit_zero _)
    · exact .inl (hoff hr rfl hij)
  | confirm j _ _ _ _ hr =>
    refine .inl ?_
    by_cases hij : i = j
    · subst hij
      rw [hr.at_slot rfl] at hi ⊢
      exact ⟨hi, rfl, fun _ => rfl⟩
    · exact hoff hr rfl hij
  | confirmFree j _ _ _ _ _ hr | free j _ _ _ hr =>
    refine .inl ?_
    by_cases hij : i = j
    · subst hij
      rw [hr.at_slot rfl] at hi
      simp [freeEntry] at hi
    · exact hoff hr rfl hij

theorem MsgEffect.settings (hw : m.writesEntries = true) (h : MsgEffect t m now t') :
    t'.settings = t.settings := by
  cases h with
  | keep _ _ _ hkeep => rw [hkeep hw]
  | note i b _ _ _ _ hr => exact hr.settings
  | insert i b _ _ hr => exact hr.settings
  | confirm i _ _ _ _ hr => exact hr.settings
  | confirmFree i _ _ _ _ _ hr => exact hr.settings
  | free i _ _ _ hr => exact hr.settings

theorem eventHandle_single (hinv : SlotsInv t) (hact : m.action ≠ .infStatusRspDbdc)
    (hsingle : t.dbdcMode = false) (h : bndstrgEventHandle t m now = some (t', ret)) :
    t'.dbdcMode = false := by
  by_cases hw : m.writesEntries = true
  · have hset := (eventHandle_effect hinv.size h).settings hw
    have hmode : t'.settings.dbdcMode = t.settings.dbdcMode := by rw [hset]
    exact hmode.trans hsingle
  · unfold bndstrgEventHandle at h
    split at h <;> rename_i hcase
    all_goals first
      | exact absurd hcase hact
      | (exfalso; apply hw; simp [BndstrgMsg.writesEntries, hcase]; done)
      | (simp only [Option.some.injEq, Prod.mk.injEq] at h
         obtain ⟨rfl, -⟩ := h
         first
           | exact hsingle
           | rfl
           | (unfold bndstrgEventOnOff
              simp only
              repeat' split
              all_goals exact hsingle))

variable {d d' : Daemon}

theorem daemonNext_slotsInv {ev : Event} (hinv : SlotsInv d.table)
    (h : daemonNext d ev = some d') : SlotsInv d'.table := by
  obtain ⟨⟨d₁, cmds⟩, hstep, rfl⟩ := Option.map_eq_some_iff.mp h
  cases ev with
  | msg m now =>
    obtain ⟨ret, hhandle, -⟩ := daemonStep_msg hstep
    exact (eventHandle_effect hinv.size hhandle).slotsInv hinv
  | tick now =>
    rw [(daemonStep_tick hstep).1]
    exact periodicExec_slotsInv hinv now

end OpenwrtMtk.Bndstrg
