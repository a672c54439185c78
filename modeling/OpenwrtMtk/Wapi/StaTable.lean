import Mathlib.Data.Finset.Card
import OpenwrtMtk.Lib.Buckets
import OpenwrtMtk.Lib.Run
import OpenwrtMtk.Wapi.Fragment
import OpenwrtMtk.Wapi.KeyHandlers

/-!
# The station table of wapid

`sta_info.c`: 32 entries, of which the first is never given out, and 256 chains by the exclusive or
of an address. A new entry keeps the link that is in its memory; a deleted one is zeroed. A walk
along links that never end, and a walk from a null head in `StaTableDeleteEntry`, have no result.
-/

namespace OpenwrtMtk.Wapi

open Toolkit

set_option autoImplicit false

abbrev StaSlot := Fin maxStaNum

inductive WapiEncryptionType where
  | disable | sms4
  deriving DecidableEq

/-- `MULTI_BSS` with the ciphers, which only the station table uses. -/
structure Bss where
  mbss : Mbss
  uniEncrypType : WapiEncryptionType
  multiEncrypType : WapiEncryptionType

/-- `STA_TABLE_ENTRY`: an entry of the state machines with its place in the table. -/
structure StaTableEntry where
  pNext : Option StaSlot
  aid : U16
  apidx : U8
  uniEncrypType : WapiEncryptionType
  multiEncrypType : WapiEncryptionType
  frameSeq : U16
  entry : Entry

/-- `STA_TABLE`. -/
structure StaTable where
  size : U16
  hash : U8 → Option StaSlot
  content : StaSlot → StaTableEntry

def Entry.zero : Entry where
  valid := false
  addr := .zero 6
  authMode := .disable
  waiAuthState := .certAuthIdle
  waiKeyState := .ucastKeyIdle
  portSecured := false
  bk := .zero 16
  bkid := .zero 16
  bkAuthId := .zero 32
  idFlag := 0
  authId := .zero 32
  anonce := .zero 32
  snonce := .zero 32
  addid := .zero 12
  uskid := 0
  ptk := .zero 96
  ptkSeed := .zero 32
  retryCnt := 0
  cert := .zero

/-- An entry after `NdisZeroMemory`. -/
def StaTableEntry.zero : StaTableEntry := ⟨none, 0, 0, .disable, .disable, 0, .zero⟩

/-- The table after `NdisZeroMemory`. -/
def StaTable.zero : StaTable := ⟨0, fun _ => none, fun _ => .zero⟩

/-- `MAC_ADDR_HASH_INDEX`; there are as many chains as bytes. -/
def macAddrHashIndex (addr : MacAddr) : U8 := addr.val.foldl (fun h b => h ^^^ b) 0

namespace StaTable

variable (t : StaTable)

def next (i : StaSlot) : Option StaSlot := (t.content i).pNext

def valid (i : StaSlot) : Bool := (t.content i).entry.valid

def addr (i : StaSlot) : MacAddr := (t.content i).entry.addr

def setEntry (i : StaSlot) (e : StaTableEntry) : StaTable :=
  { t with content := Function.update t.content i e }

def setNext (i : StaSlot) (p : Option StaSlot) : StaTable :=
  t.setEntry i { t.content i with pNext := p }

def setHash (h : U8) (p : Option StaSlot) : StaTable :=
  { t with hash := Function.update t.hash h p }

def setSize (n : U16) : StaTable := { t with size := n }

end StaTable

def walkFuel : Nat := maxStaNum + 1

/-- The walk also stops at an invalid entry, which is then the one returned. -/
def staTableLookup (t : StaTable) (pAddr : MacAddr) : Option (Option StaSlot) :=
  (chase t.next (fun i => !t.valid i || decide (t.addr i = pAddr)) walkFuel none
    (t.hash (macAddrHashIndex pAddr))).map (·.2)

def vacancy (t : StaTable) : Option StaSlot :=
  (List.finRange maxStaNum).find? fun i => decide (0 < i.val) && !t.valid i

/-- The fields `StaTableInsertEntry` sets, in the order of the source. -/
def allocated (mbss : U8 → Bss) (i : StaSlot) (pAddr : MacAddr) (apidx : U8)
    (e : StaTableEntry) : StaTableEntry :=
  { e with
    aid := BitVec.ofNat 16 i
    apidx := apidx
    uniEncrypType := (mbss apidx).uniEncrypType
    multiEncrypType := (mbss apidx).multiEncrypType
    frameSeq := 1
    entry := { e.entry with
      valid := true
      addr := pAddr
      waiAuthState := .certAuthIdle
      waiKeyState := .ucastKeyIdle
      authMode := (mbss apidx).mbss.authMode
      portSecured := false
      uskid := 0
      bk := if (mbss apidx).mbss.authMode = .psk then (mbss apidx).mbss.bk else e.entry.bk } }

def StaTable.allocate (t : StaTable) (mbss : U8 → Bss) (i : StaSlot) (pAddr : MacAddr)
    (apidx : U8) : StaTable :=
  (t.setEntry i (allocated mbss i pAddr apidx (t.content i))).setSize (t.size + 1)

def addToHash (t : StaTable) (h : U8) (i : StaSlot) : Option StaTable :=
  if (t.hash h).isNone then some (t.setHash h (some i))
  else
    match chase t.next (fun k => (t.next k).isNone) walkFuel none (t.hash h) with
    | some (_, some last) => some (t.setNext last (some i))
    | _ => none

/-- The table and the new entry; the entry is null when there is no room. -/
def staTableInsertEntry (mbss : U8 → Bss) (t : StaTable) (pAddr : MacAddr) (apidx : U8) :
    Option (StaTable × Option StaSlot) :=
  if maxStaNum ≤ t.size.toNat then some (t, none)
  else
    match vacancy t with
    | none => some (t, none)
    | some i =>
      (addToHash (t.allocate mbss i pAddr apidx) (macAddrHashIndex pAddr) i).map fun t =>
        (t, some i)

/-- The probe loop: the head is read before it is compared with null. -/
def removeFromHash (t : StaTable) (h : U8) (i : StaSlot) : Option StaTable :=
  if (t.hash h).isNone then none
  else
    match chase t.next (fun k => decide (k = i)) walkFuel none (t.hash h) with
    | some (none, some _) => some (t.setHash h (t.next i))
    | some (some pre, some _) => some (t.setNext pre (t.next i))
    | some (_, none) => some t
    | none => none

/-- Both assertions only print. -/
def staTableDeleteEntry (t : StaTable) (wcid : U16) (pAddr : MacAddr) : Option (StaTable × Bool) :=
  if hw : wcid.toNat < maxStaNum then
    if t.valid ⟨wcid.toNat, hw⟩ ∧ t.addr ⟨wcid.toNat, hw⟩ = pAddr then
      (removeFromHash t (macAddrHashIndex pAddr) ⟨wcid.toNat, hw⟩).map fun t =>
        ((t.setEntry ⟨wcid.toNat, hw⟩ .zero).setSize (t.size - 1), true)
    else some (t, true)
  else some (t, false)

def staTableReset (_ : StaTable) : StaTable := .zero

section Run

/-- What the daemon does with its table. -/
inductive StaEvent where
  /-- A frame of a station: `wapi_handle_l2_receive` looks its entry up or makes one. -/
  | receive (saddr : MacAddr) (apidx : U8)
  /-- An entry is deleted under its own address and index. -/
  | delete (i : StaSlot)
  | reset

/-- The table, and for every address the entry that was inserted for it and not deleted since. -/
structure Tracked where
  table : StaTable
  live : MacAddr → Option StaSlot

def Tracked.start : Tracked := ⟨.zero, fun _ => none⟩

def StaEvent.Enabled (s : Tracked) : StaEvent → Prop
  | .delete i => s.table.valid i = true
  | _ => True

def Tracked.receive (s : Tracked) (mbss : U8 → Bss) (saddr : MacAddr) (apidx : U8) :
    Option Tracked :=
  match staTableLookup s.table saddr with
  | none => none
  | some (some _) => some s
  | some none =>
    (staTableInsertEntry mbss s.table saddr apidx).map fun r =>
      ⟨r.1, if r.2.isSome then Function.update s.live saddr r.2 else s.live⟩

def Tracked.step (mbss : U8 → Bss) (s : Tracked) : StaEvent → Option Tracked
  | .receive saddr apidx => s.receive mbss saddr apidx
  | .delete i =>
    (staTableDeleteEntry s.table (BitVec.ofNat 16 i) (s.table.addr i)).map fun r =>
      ⟨r.1, Function.update s.live (s.table.addr i) none⟩
  | .reset => some ⟨staTableReset s.table, fun _ => none⟩

def TableStep (mbss : U8 → Bss) : Tracked → StaEvent → Tracked → Prop :=
  Guarded (fun s e => e.Enabled s) (Graph (Tracked.step mbss))

end Run

end OpenwrtMtk.Wapi

/-!
## What holds of the station table

The valid entries are the members of the chains, and the others are all zero. This is what lets an
insertion hang an entry up without looking at its link, and a lookup that meets an invalid entry
cannot happen.
-/

namespace OpenwrtMtk.Wapi

open Toolkit

set_option autoImplicit false

variable {t t' : StaTable} {L : U8 → List StaSlot} {h : U8} {i k : StaSlot} {a : MacAddr}
variable {mbss : U8 → Bss} {e : StaTableEntry}

namespace StaTable

@[simp] theorem setEntry_content (i : StaSlot) (e : StaTableEntry) :
    (t.setEntry i e).content = Function.update t.content i e := rfl

@[simp] theorem setEntry_hash (i : StaSlot) (e : StaTableEntry) :
    (t.setEntry i e).hash = t.hash := rfl

@[simp] theorem setEntry_size (i : StaSlot) (e : StaTableEntry) :
    (t.setEntry i e).size = t.size := rfl

@[simp] theorem setNext_hash (i : StaSlot) (p : Option StaSlot) :
    (t.setNext i p).hash = t.hash := rfl

@[simp] theorem setHash_hash (h : U8) (p : Option StaSlot) :
    (t.setHash h p).hash = Function.update t.hash h p := rfl

@[simp] theorem setHash_next (h : U8) (p : Option StaSlot) : (t.setHash h p).next = t.next := rfl

@[simp] theorem setSize_hash (n : U16) : (t.setSize n).hash = t.hash := rfl

@[simp] theorem setSize_content (n : U16) : (t.setSize n).content = t.content := rfl

@[simp] theorem setSize_size (n : U16) : (t.setSize n).size = n := rfl

@[simp] theorem setSize_next (n : U16) : (t.setSize n).next = t.next := rfl

@[simp] theorem setSize_valid (n : U16) : (t.setSize n).valid = t.valid := rfl

@[simp] theorem setSize_addr (n : U16) : (t.setSize n).addr = t.addr := rfl

theorem setEntry_next (i : StaSlot) (e : StaTableEntry) :
    (t.setEntry i e).next = Function.update t.next i e.pNext := by
  funext k
  by_cases hk : k = i
  · subst hk
    simp [next]
  · simp [next, hk]

theorem setNext_next (i : StaSlot) (p : Option StaSlot) :
    (t.setNext i p).next = Function.update t.next i p := setEntry_next i _

theorem setEntry_valid (i : StaSlot) (e : StaTableEntry) :
    (t.setEntry i e).valid = Function.update t.valid i e.entry.valid := by
  funext k
  by_cases hk : k = i
  · subst hk
    simp [valid]
  · simp [valid, hk]

theorem setEntry_addr (i : StaSlot) (e : StaTableEntry) :
    (t.setEntry i e).addr = Function.update t.addr i e.entry.addr := by
  funext k
  by_cases hk : k = i
  · subst hk
    simp [addr]
  · simp [addr, hk]

def validEntries (t : StaTable) : Finset StaSlot := Finset.univ.filter fun i => t.valid i

@[simp] theorem mem_validEntries : i ∈ t.validEntries ↔ t.valid i = true := by
  simp [validEntries]

end StaTable

open StaTable

structure Rechained (t t' : StaTable) : Prop where
  size : t'.size = t.size
  content : ∀ i, ∃ p, t'.content i = { t.content i with pNext := p }

namespace Rechained

theorem valid (hr : Rechained t t') : t'.valid = t.valid := by
  funext i
  obtain ⟨p, hp⟩ := hr.content i
  rw [StaTable.valid, hp, StaTable.valid]

theorem addr (hr : Rechained t t') : t'.addr = t.addr := by
  funext i
  obtain ⟨p, hp⟩ := hr.content i
  rw [StaTable.addr, hp, StaTable.addr]

theorem aid (hr : Rechained t t') (i : StaSlot) : (t'.content i).aid = (t.content i).aid := by
  obtain ⟨p, hp⟩ := hr.content i
  rw [hp]

theorem validEntries (hr : Rechained t t') : t'.validEntries = t.validEntries := by
  ext i
  rw [mem_validEntries, mem_validEntries, hr.valid]

theorem content_eq (hr : Rechained t t') (hnext : t'.next i = t.next i) :
    t'.content i = t.content i := by
  obtain ⟨p, hp⟩ := hr.content i
  have hlink : (t'.content i).pNext = (t.content i).pNext := hnext
  rw [hp] at hlink ⊢
  rw [show p = (t.content i).pNext from hlink]

theorem setHash (h : U8) (p : Option StaSlot) : Rechained t (t.setHash h p) :=
  ⟨rfl, fun i => ⟨(t.content i).pNext, rfl⟩⟩

theorem setNext (i : StaSlot) (p : Option StaSlot) : Rechained t (t.setNext i p) := by
  refine ⟨rfl, fun k => ?_⟩
  by_cases hk : k = i
  · subst hk
    exact ⟨p, by simp [StaTable.setNext]⟩
  · exact ⟨(t.content k).pNext, by simp [StaTable.setNext, hk]⟩

end Rechained

theorem card_lt_walkFuel : Fintype.card StaSlot < walkFuel := by
  rw [Fintype.card_fin]
  exact Nat.lt_succ_self _

theorem addToHash_spec (hL : Threaded t.next t.hash L) (h : U8) (hi : ∀ c, i ∉ L c)
    (hnull : t.next i = none) :
    ∃ t', addToHash t h i = some t' ∧ Rechained t t' ∧
      Threaded t'.next t'.hash (Function.update L h (L h ++ [i])) ∧
      ∀ k, (∀ c, k ∉ L c) → t'.next k = t.next k := by
  cases hhead : t.hash h with
  | none =>
    exact ⟨t.setHash h (some i), by simp [addToHash, hhead], .setHash h _,
      hL.hang_first hi hnull hhead, fun _ _ => rfl⟩
  | some head =>
    obtain ⟨pre, last, hmem, hwalk, hhung⟩ :=
      hL.hang_last card_lt_walkFuel hi hnull (b := h) (by rw [hhead]; rfl)
    rw [← setNext_next] at hhung
    rw [hhead] at hwalk
    refine ⟨t.setNext last (some i), by simp [addToHash, hwalk, hhead], .setNext last _,
      hhung, fun k hk => ?_⟩
    rw [setNext_next]
    apply Function.update_of_ne
    rintro rfl
    exact hk h hmem

theorem removeFromHash_spec (hL : Threaded t.next t.hash L) (hi : i ∈ L h) :
    ∃ t', removeFromHash t h i = some t' ∧ Rechained t t' ∧
      Threaded t'.next t'.hash (Function.update L h ((L h).erase i)) ∧
      ∀ k, (∀ c, k ∉ L c) → t'.next k = t.next k := by
  have hhead : t.hash h ≠ none := by
    intro hnone
    have hnil := (hL.chain h).head_eq
    rw [hnone, eq_comm, List.head?_eq_none_iff] at hnil
    rw [hnil] at hi
    exact List.not_mem_nil hi
  rcases hL.take_off card_lt_walkFuel hi with ⟨hwalk, hoff⟩ | ⟨pre, hmem, hwalk, hoff⟩
  · exact ⟨t.setHash h (t.next i), by simp [removeFromHash, hhead, hwalk], .setHash h _, hoff,
      fun _ _ => rfl⟩
  · rw [← setNext_next] at hoff
    refine ⟨t.setNext pre (t.next i), by simp [removeFromHash, hhead, hwalk], .setNext pre _,
      hoff, fun k hk => ?_⟩
    rw [setNext_next]
    apply Function.update_of_ne
    rintro rfl
    exact hk h hmem

end OpenwrtMtk.Wapi
