import Mathlib.Logic.Function.Basic
import OpenwrtMtk.Lib.Bytes
import OpenwrtMtk.Lib.Loops
import OpenwrtMtk.Lib.Run

/-!
# VLAN configuration of rtl8366_smi

A switch holds a table of VLANs, the 4K table, and a small table of member configurations (MC), one of
which every port selects. The accesses to the chip read back what was last set, and any of them may
be refused.
-/

namespace OpenwrtMtk.Rtl8366

open Toolkit

set_option autoImplicit false

/-- `struct rtl8366_vlan_mc`. -/
structure VlanMc where
  vid : BitVec 16
  untag : BitVec 16
  member : BitVec 16
  fid : U8
  priority : U8
  deriving DecidableEq

/-- `struct rtl8366_vlan_4k`. -/
structure Vlan4k where
  vid : BitVec 16
  untag : BitVec 16
  member : BitVec 16
  fid : U8
  deriving DecidableEq

structure Switch where
  vlanMc : Nat → VlanMc
  vlan4k : Nat → Vlan4k
  mcIndex : Nat → Nat
  vlanEnabled : Bool
  vlan4kEnabled : Bool

inductive Access where
  | getVlanMc (index : Nat)
  | setVlanMc (index : Nat) (vlanmc : VlanMc)
  | getVlan4k (vid : Nat)
  | setVlan4k (vlan4k : Vlan4k)
  | getMcIndex (port : Nat)
  | setMcIndex (port index : Nat)
  | enableVlan (enable : Bool)
  | enableVlan4k (enable : Bool)

/-- `struct rtl8366_smi`: the sizes of the tables, and the error of an access, which is 0 for none. -/
structure Smi where
  numPorts : Nat
  numVlanMc : Nat
  err : Switch → Access → Int

abbrev Failure := Int × Switch

def enospc : Int := 28

section Accesses

variable (smi : Smi) (s : Switch)

def access (a : Access) : Except Failure Unit :=
  if smi.err s a = 0 then .ok () else .error (smi.err s a, s)

def getVlanMc (index : Nat) : Except Failure VlanMc := do
  access smi s (.getVlanMc index)
  return s.vlanMc index

def setVlanMc (index : Nat) (vlanmc : VlanMc) : Except Failure Switch := do
  access smi s (.setVlanMc index vlanmc)
  return { s with vlanMc := Function.update s.vlanMc index vlanmc }

/-- The drivers fill in the VID that was asked for. -/
def getVlan4k (vid : Nat) : Except Failure Vlan4k := do
  access smi s (.getVlan4k vid)
  return { s.vlan4k vid with vid := BitVec.ofNat 16 vid }

def setVlan4k (vlan4k : Vlan4k) : Except Failure Switch := do
  access smi s (.setVlan4k vlan4k)
  return { s with vlan4k := Function.update s.vlan4k vlan4k.vid.toNat vlan4k }

def getMcIndex (port : Nat) : Except Failure Nat := do
  access smi s (.getMcIndex port)
  return s.mcIndex port

def setMcIndex (port index : Nat) : Except Failure Switch := do
  access smi s (.setMcIndex port index)
  return { s with mcIndex := Function.update s.mcIndex port index }

end Accesses

section Vlan

variable (smi : Smi) (s : Switch)

def mcIsUsed (mcIndex : Nat) : Except Failure Bool := do
  let hit ← search (fun port => do
    let index ← getMcIndex smi s port
    return if mcIndex = index then some () else none) smi.numPorts
  return hit.isSome

def findVid (vid : Nat) : Except Failure (Option (Nat × VlanMc)) :=
  search (fun i => do
    let vlanmc ← getVlanMc smi s i
    return if vid = vlanmc.vid.toNat then some (i, vlanmc) else none) smi.numVlanMc

def setVlan (vid : Nat) (member untag fid : U32) : Except Failure Switch := do
  let vlan4k ← getVlan4k smi s vid
  let s ← setVlan4k smi s { vlan4k with
    member := member.setWidth 16, untag := untag.setWidth 16, fid := fid.setWidth 8 }
  match ← findVid smi s vid with
  | some (i, vlanmc) => setVlanMc smi s i { vlanmc with
      member := member.setWidth 16, untag := untag.setWidth 16, fid := fid.setWidth 8 }
  | none => return s

def findEmpty : Except Failure (Option (Nat × VlanMc)) :=
  search (fun i => do
    let vlanmc ← getVlanMc smi s i
    return if vlanmc.vid = 0 ∧ vlanmc.member = 0 then some (i, vlanmc) else none) smi.numVlanMc

def findUnused : Except Failure (Option Nat) :=
  search (fun i => do
    let used ← mcIsUsed smi s i
    return if used then none else some i) smi.numVlanMc

/-- An MC entry is filled from the 4K table, and the port selects it. -/
def fillVlanMc (port vid i : Nat) (vlanmc : VlanMc) : Except Failure Switch := do
  let vlan4k ← getVlan4k smi s vid
  let s ← setVlanMc smi s i { vlanmc with
    vid := BitVec.ofNat 16 vid, member := vlan4k.member, untag := vlan4k.untag, fid := vlan4k.fid }
  setMcIndex smi s port i

def setPvid (port vid : Nat) : Except Failure Switch := do
  match ← findVid smi s vid with
  | some (i, vlanmc) =>
    let s ← setVlanMc smi s i vlanmc
    setMcIndex smi s port i
  | none =>
    match ← findEmpty smi s with
    | some (i, vlanmc) => fillVlanMc smi s port vid i vlanmc
    | none =>
      match ← findUnused smi s with
      -- The priority is the one of the entry that the loop before has read last.
      | some i => fillVlanMc smi s port vid i (s.vlanMc (smi.numVlanMc - 1))
      | none => throw (-enospc, s)

/-- `rtl8366_enable_vlan(smi, 0)`, `rtl8366_enable_vlan4k(smi, 0)`, whose errors are ignored. -/
def disableVlan : Switch :=
  let s :=
    if smi.err s (.enableVlan false) = 0 then { s with vlanEnabled := false, vlan4kEnabled := false }
    else s
  if smi.err s (.enableVlan4k false) = 0 then { s with vlan4kEnabled := false } else s

def resetVlan : Except Failure Switch :=
  (List.range smi.numVlanMc).foldlM (fun s i => setVlanMc smi s i ⟨0, 0, 0, 0, 0⟩) (disableVlan smi s)

end Vlan

inductive Call where
  | setVlan (vid : Nat) (member untag fid : U32)
  | setPvid (port vid : Nat)
  | resetVlan
  deriving DecidableEq

def Call.run (smi : Smi) (s : Switch) : Call → Except Failure Switch
  | .setVlan vid member untag fid => Rtl8366.setVlan smi s vid member untag fid
  | .setPvid port vid => Rtl8366.setPvid smi s port vid
  | .resetVlan => Rtl8366.resetVlan smi s

end OpenwrtMtk.Rtl8366

/-!
## The member configurations are a cache of the 4K table

From a reset on, whatever calls succeed: no VID has two MC entries, and the entry of a VID says what
the 4K table says.
-/

namespace OpenwrtMtk.Rtl8366

open Toolkit

set_option autoImplicit false

def Caches (s : Switch) (vlanmc : VlanMc) : Prop :=
  vlanmc.member = (s.vlan4k vlanmc.vid.toNat).member ∧
    vlanmc.untag = (s.vlan4k vlanmc.vid.toNat).untag ∧
    vlanmc.fid = (s.vlan4k vlanmc.vid.toNat).fid

structure Coherent (smi : Smi) (s : Switch) : Prop where
  unique : ∀ i < smi.numVlanMc, ∀ j < smi.numVlanMc, (s.vlanMc i).vid ≠ 0 →
    (s.vlanMc i).vid = (s.vlanMc j).vid → i = j
  caches : ∀ i < smi.numVlanMc, (s.vlanMc i).vid ≠ 0 → Caches s (s.vlanMc i)

def Call.Valid : Call → Prop
  | .setVlan vid _ _ _ => 1 ≤ vid ∧ vid ≤ 4095
  | .setPvid _ vid => 1 ≤ vid ∧ vid ≤ 4095
  | .resetVlan => True

instance : DecidablePred Call.Valid
  | .setVlan vid _ _ _ => inferInstanceAs (Decidable (1 ≤ vid ∧ vid ≤ 4095))
  | .setPvid _ vid => inferInstanceAs (Decidable (1 ≤ vid ∧ vid ≤ 4095))
  | .resetVlan => .isTrue trivial

def Succeeds (smi : Smi) (s : Switch) (call : Call) (s' : Switch) : Prop :=
  call.Valid ∧ call.run smi s = .ok s'

section Accesses

variable {smi : Smi} {s s' : Switch}

theorem bind_eq_ok {ε α β : Type} {x : Except ε α} {f : α → Except ε β} {b : β}
    (h : x >>= f = .ok b) : ∃ a, x = .ok a ∧ f a = .ok b := by
  cases x with
  | error e => cases h
  | ok a => exact ⟨a, rfl, h⟩

theorem setVlanMc_ok {i : Nat} {vlanmc : VlanMc} (h : setVlanMc smi s i vlanmc = .ok s') :
    s' = { s with vlanMc := Function.update s.vlanMc i vlanmc } := by
  obtain ⟨-, -, h⟩ := bind_eq_ok h
  cases h
  rfl

theorem setMcIndex_ok {port i : Nat} (h : setMcIndex smi s port i = .ok s') :
    s' = { s with mcIndex := Function.update s.mcIndex port i } := by
  obtain ⟨-, -, h⟩ := bind_eq_ok h
  cases h
  rfl

theorem findVid_hit {vid i : Nat} {vlanmc : VlanMc} (h : findVid smi s vid = .ok (some (i, vlanmc))) :
    i < smi.numVlanMc ∧ vlanmc = s.vlanMc i ∧ vid = (s.vlanMc i).vid.toNat := by
  obtain ⟨j, hj, hbody⟩ := search_hit h
  obtain ⟨mc, hread, hbody⟩ := bind_eq_ok hbody
  obtain ⟨-, -, hread⟩ := bind_eq_ok hread
  cases hread
  injection hbody with hbody
  split at hbody
  · rename_i hvid
    cases hbody
    exact ⟨hj, rfl, hvid⟩
  · cases hbody

theorem findVid_miss {vid : Nat} (h : findVid smi s vid = .ok none) :
    ∀ i < smi.numVlanMc, vid ≠ (s.vlanMc i).vid.toNat := by
  intro i hi
  obtain ⟨mc, hread, hbody⟩ := bind_eq_ok (search_miss h i hi)
  obtain ⟨-, -, hread⟩ := bind_eq_ok hread
  cases hread
  injection hbody with hbody
  split at hbody
  · cases hbody
  · assumption

theorem findEmpty_hit {i : Nat} {vlanmc : VlanMc} (h : findEmpty smi s = .ok (some (i, vlanmc))) :
    i < smi.numVlanMc := by
  obtain ⟨j, hj, hbody⟩ := search_hit h
  obtain ⟨mc, -, hbody⟩ := bind_eq_ok hbody
  injection hbody with hbody
  split at hbody
  · cases hbody
    exact hj
  · cases hbody

theorem findUnused_hit {i : Nat} (h : findUnused smi s = .ok (some i)) : i < smi.numVlanMc := by
  obtain ⟨j, hj, hbody⟩ := search_hit h
  obtain ⟨used, -, hbody⟩ := bind_eq_ok hbody
  injection hbody with hbody
  split at hbody
  · cases hbody
  · cases hbody
    exact hj

end Accesses

section Steps

variable {smi : Smi} {s s' : Switch} {vid : Nat}

theorem vid_toNat (h : 1 ≤ vid ∧ vid ≤ 4095) : (BitVec.ofNat 16 vid).toNat = vid := by
  rw [BitVec.toNat_ofNat]
  omega

theorem Coherent.congr (h : Coherent smi s) (hmc : s'.vlanMc = s.vlanMc)
    (h4k : s'.vlan4k = s.vlan4k) : Coherent smi s' := by
  refine ⟨by rw [hmc]; exact h.unique, ?_⟩
  intro i hi hvid
  rw [hmc] at hvid ⊢
  have hcached := h.caches i hi hvid
  unfold Caches at hcached ⊢
  rw [h4k]
  exact hcached

theorem Coherent.fill (h : Coherent smi s) {i : Nat} {vlanmc : VlanMc}
    (hnew : ∀ j < smi.numVlanMc, (s.vlanMc j).vid ≠ vlanmc.vid) (hcaches : Caches s vlanmc) :
    Coherent smi { s with vlanMc := Function.update s.vlanMc i vlanmc } := by
  constructor
  · intro j hj k hk hvid heq
    dsimp only at hvid heq
    by_cases hji : j = i
    · by_cases hki : k = i
      · rw [hji, hki]
      · rw [hji, Function.update_self, Function.update_of_ne hki] at heq
        exact absurd heq.symm (hnew k hk)
    · rw [Function.update_of_ne hji] at hvid heq
      by_cases hki : k = i
      · rw [hki, Function.update_self] at heq
        exact absurd heq (hnew j hj)
      · rw [Function.update_of_ne hki] at heq
        exact h.unique j hj k hk hvid heq
  · intro j hj hvid
    dsimp only at hvid ⊢
    by_cases hji : j = i
    · rw [hji, Function.update_self]
      exact hcaches
    · rw [Function.update_of_ne hji] at hvid ⊢
      exact h.caches j hj hvid

theorem fillVlanMc_coherent (h : Coherent smi s) (hvid : 1 ≤ vid ∧ vid ≤ 4095)
    (hmiss : findVid smi s vid = .ok none) {port i : Nat} {vlanmc : VlanMc}
    (hrun : fillVlanMc smi s port vid i vlanmc = .ok s') : Coherent smi s' := by
  obtain ⟨vlan4k, hread, hrun⟩ := bind_eq_ok hrun
  obtain ⟨mid, hset, hrun⟩ := bind_eq_ok hrun
  obtain ⟨-, -, hread⟩ := bind_eq_ok hread
  cases hread
  obtain rfl := setVlanMc_ok hset
  obtain rfl := setMcIndex_ok hrun
  have hnat := vid_toNat hvid
  refine (h.fill (i := i) ?_ ?_).congr rfl rfl
  · intro j hj heq
    apply findVid_miss hmiss j hj
    rw [heq, hnat]
  · unfold Caches
    dsimp only
    rw [hnat]
    exact ⟨rfl, rfl, rfl⟩

theorem setPvid_coherent (h : Coherent smi s) (hvid : 1 ≤ vid ∧ vid ≤ 4095) {port : Nat}
    (hrun : setPvid smi s port vid = .ok s') : Coherent smi s' := by
  obtain ⟨hit, hfind, hrun⟩ := bind_eq_ok hrun
  cases hit with
  | some hit =>
    -- the entry is written back as it was read
    obtain ⟨mid, hset, hrun⟩ := bind_eq_ok hrun
    obtain ⟨-, hread, -⟩ := findVid_hit hfind
    obtain rfl := setVlanMc_ok hset
    obtain rfl := setMcIndex_ok hrun
    apply h.congr
    · rw [hread]
      exact Function.update_eq_self _ _
    · rfl
  | none =>
    obtain ⟨hit, -, hrun⟩ := bind_eq_ok hrun
    cases hit with
    | some hit => exact fillVlanMc_coherent h hvid hfind hrun
    | none =>
      obtain ⟨hit, -, hrun⟩ := bind_eq_ok hrun
      cases hit with
      | some i => exact fillVlanMc_coherent h hvid hfind hrun
      | none => cases hrun

theorem Coherent.update4k (h : Coherent smi s) (e : Vlan4k) {vlanMc : Nat → VlanMc}
    (hvids : ∀ j, (vlanMc j).vid = (s.vlanMc j).vid)
    (hother : ∀ j < smi.numVlanMc, (s.vlanMc j).vid.toNat ≠ vid → vlanMc j = s.vlanMc j)
    (hthis : ∀ j < smi.numVlanMc, (s.vlanMc j).vid.toNat = vid →
      (vlanMc j).member = e.member ∧ (vlanMc j).untag = e.untag ∧ (vlanMc j).fid = e.fid) :
    Coherent smi { s with vlan4k := Function.update s.vlan4k vid e, vlanMc } := by
  constructor
  · intro j hj k hk hne heq
    dsimp only at hne heq
    rw [hvids] at hne
    rw [hvids, hvids] at heq
    exact h.unique j hj k hk hne heq
  · intro j hj hne
    unfold Caches
    dsimp only at hne ⊢
    rw [hvids] at hne ⊢
    by_cases heq : (s.vlanMc j).vid.toNat = vid
    · rw [heq, Function.update_self]
      exact hthis j hj heq
    · rw [Function.update_of_ne heq, hother j hj heq]
      exact h.caches j hj hne

theorem setVlan_coherent (h : Coherent smi s) (hvid : 1 ≤ vid ∧ vid ≤ 4095) {member untag fid : U32}
    (hrun : setVlan smi s vid member untag fid = .ok s') : Coherent smi s' := by
  obtain ⟨vlan4k, hread, hrun⟩ := bind_eq_ok hrun
  obtain ⟨mid, hset, hrun⟩ := bind_eq_ok hrun
  obtain ⟨hit, hfind, hrun⟩ := bind_eq_ok hrun
  obtain ⟨-, -, hread⟩ := bind_eq_ok hread
  cases hread
  obtain ⟨-, -, hset⟩ := bind_eq_ok hset
  cases hset
  have hnat := vid_toNat hvid
  dsimp only at hnat hfind hrun
  rw [hnat] at hfind hrun
  cases hit with
  | none =>
    cases hrun
    refine h.update4k _ (fun _ => rfl) (fun _ _ _ => rfl) ?_
    intro j hj heq
    exact absurd heq.symm (findVid_miss hfind j hj)
  | some hit =>
    obtain ⟨i, vlanmc⟩ := hit
    obtain ⟨hi, rfl, hthis⟩ := findVid_hit hfind
    obtain rfl := setVlanMc_ok hrun
    dsimp only at hthis ⊢
    have hne : (s.vlanMc i).vid ≠ 0 := by
      intro hzero
      rw [hzero] at hthis
      exact absurd (hthis ▸ hvid.1) (by decide)
    refine h.update4k _ ?_ ?_ ?_
    · intro j
      by_cases hji : j = i
      · rw [hji, Function.update_self]
      · rw [Function.update_of_ne hji]
    · intro j hj hother
      apply Function.update_of_ne
      rintro rfl
      exact hother hthis.symm
    · intro j hj heq
      have hji := h.unique i hi j hj hne (BitVec.eq_of_toNat_eq (hthis.symm.trans heq.symm))
      rw [← hji, Function.update_self]
      exact ⟨rfl, rfl, rfl⟩

theorem clear_ok (is : List Nat)
    (h : is.foldlM (fun s i => setVlanMc smi s i ⟨0, 0, 0, 0, 0⟩) s = .ok s') :
    ∀ i, i ∈ is ∨ (s.vlanMc i).vid = 0 → (s'.vlanMc i).vid = 0 := by
  induction is generalizing s with
  | nil =>
    cases h
    exact fun i hi => hi.resolve_left List.not_mem_nil
  | cons i is ih =>
    obtain ⟨mid, hset, hrest⟩ := bind_eq_ok h
    obtain rfl := setVlanMc_ok hset
    intro j hj
    apply ih hrest
    by_cases hji : j = i
    · right
      dsimp only
      rw [hji, Function.update_self]
    · rcases hj with hj | hj
      · exact .inl ((List.mem_cons.mp hj).resolve_left hji)
      · right
        dsimp only
        rw [Function.update_of_ne hji]
        exact hj

theorem resetVlan_coherent (h : resetVlan smi s = .ok s') : Coherent smi s' := by
  have hempty : ∀ i < smi.numVlanMc, (s'.vlanMc i).vid = 0 := fun i hi =>
    clear_ok _ h i (.inl (List.mem_range.mpr hi))
  constructor
  · intro i hi j hj hne
    exact absurd (hempty i hi) hne
  · intro i hi hne
    exact absurd (hempty i hi) hne

theorem call_coherent {call : Call} (h : Coherent smi s) (hrun : Succeeds smi s call s') :
    Coherent smi s' := by
  obtain ⟨hvalid, hrun⟩ := hrun
  cases call with
  | setVlan vid member untag fid => exact setVlan_coherent h hvalid hrun
  | setPvid port vid => exact setPvid_coherent h hvalid hrun
  | resetVlan => exact resetVlan_coherent hrun

end Steps

/-- After a reset and any calls that succeed the MC table is a cache of the 4K table. -/
theorem vlan_coherent {smi : Smi} {s s' s'' : Switch} {calls : List Call}
    (hreset : resetVlan smi s = .ok s') (hrun : Run (Succeeds smi) s' calls s'') :
    (∀ i < smi.numVlanMc, ∀ j < smi.numVlanMc, (s''.vlanMc i).vid ≠ 0 →
      (s''.vlanMc i).vid = (s''.vlanMc j).vid → i = j) ∧
    ∀ i < smi.numVlanMc, (s''.vlanMc i).vid ≠ 0 →
      (s''.vlanMc i).member = (s''.vlan4k (s''.vlanMc i).vid.toNat).member ∧
      (s''.vlanMc i).untag = (s''.vlan4k (s''.vlanMc i).vid.toNat).untag ∧
      (s''.vlanMc i).fid = (s''.vlan4k (s''.vlanMc i).vid.toNat).fid := by
  have hcoherent := hrun.invariant (Coherent smi) (fun _ _ _ => call_coherent)
    (resetVlan_coherent hreset)
  exact ⟨hcoherent.unique, hcoherent.caches⟩

/-- Three VIDs and two MC entries: the third one replaces the first, which the port has left. -/
theorem vlan_coherent_example :
    let smi : Smi := ⟨1, 2, fun _ _ => 0⟩
    let s : Switch := ⟨fun _ => ⟨7, 1, 1, 0, 0⟩, fun _ => ⟨0, 0, 0, 0⟩, fun _ => 0, true, true⟩
    ∃ s' s'', resetVlan smi s = .ok s' ∧
      Run (Succeeds smi) s' [.setPvid 0 1, .setPvid 0 2, .setVlan 3 5 4 1, .setPvid 0 3] s'' ∧
      (s''.vlanMc 0).vid = 3 ∧ (s''.vlanMc 0).member = (s''.vlan4k 3).member := by
  intro smi s
  have hrun : ∃ s' s'', resetVlan smi s = .ok s' ∧
      Run (Succeeds smi) s' [.setPvid 0 1, .setPvid 0 2, .setVlan 3 5 4 1, .setPvid 0 3] s'' ∧
      (s''.vlanMc 0).vid = 3 :=
    ⟨_, _, rfl, (((Run.nil.snoc ⟨by decide, rfl⟩).snoc ⟨by decide, rfl⟩).snoc
      ⟨by decide, rfl⟩).snoc ⟨by decide, rfl⟩, rfl⟩
  obtain ⟨s', s'', hreset, hrun, hvid⟩ := hrun
  have hcaches := (vlan_coherent hreset hrun).2 0 (by decide) (by rw [hvid]; decide)
  rw [hvid] at hcaches
  exact ⟨s', s'', hreset, hrun, hvid, hcaches.1⟩

end OpenwrtMtk.Rtl8366
