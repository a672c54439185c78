import OpenwrtMtk.Rtl8366.Smi

/-!
# The PVIDs of the ports

A port selects an MC entry, whose VID is its PVID, and several ports may select the same one. From a
reset on the entry that a port was given has a VID, so it is neither empty nor, as long as the port
selects it, unused: no call for another port replaces it.
-/

namespace OpenwrtMtk.Rtl8366

open Toolkit

set_option autoImplicit false

def getPvid (smi : Smi) (s : Switch) (port : Nat) : Except Failure Nat := do
  let index ← getMcIndex smi s port
  let vlanmc ← getVlanMc smi s index
  return vlanmc.vid.toNat

def Call.Between (smi : Smi) : Call → Prop
  | .setVlan _ _ _ _ => True
  | .setPvid port _ => port < smi.numPorts
  | .resetVlan => False

def Sets (smi : Smi) (s : Switch) (call : Call) (s' : Switch) : Prop :=
  call.Between smi ∧ Succeeds smi s call s'

def SetBy (port : Nat) (calls : List Call) : Prop := ∃ vid, Call.setPvid port vid ∈ calls

def Selects (smi : Smi) (s : Switch) (port : Nat) : Prop :=
  port < smi.numPorts ∧ s.mcIndex port < smi.numVlanMc ∧ (s.vlanMc (s.mcIndex port)).vid ≠ 0

section Searches

variable {smi : Smi} {s s' : Switch} {i port vid : Nat}

theorem findEmpty_empty {vlanmc : VlanMc} (h : findEmpty smi s = .ok (some (i, vlanmc))) :
    i < smi.numVlanMc ∧ (s.vlanMc i).vid = 0 := by
  refine ⟨findEmpty_hit h, ?_⟩
  obtain ⟨j, hj, hbody⟩ := search_hit h
  obtain ⟨mc, hread, hbody⟩ := bind_eq_ok hbody
  obtain ⟨-, -, hread⟩ := bind_eq_ok hread
  cases hread
  injection hbody with hbody
  split at hbody
  · rename_i hempty
    cases hbody
    exact hempty.1
  · cases hbody

theorem mcIsUsed_false (h : mcIsUsed smi s i = .ok false) :
    ∀ port < smi.numPorts, s.mcIndex port ≠ i := by
  obtain ⟨hit, hsearch, hnone⟩ := bind_eq_ok h
  injection hnone with hnone
  rw [Option.isSome_eq_false_iff, Option.isNone_iff_eq_none] at hnone
  subst hnone
  intro port hport
  obtain ⟨index, hread, hbody⟩ := bind_eq_ok (search_miss hsearch port hport)
  obtain ⟨-, -, hread⟩ := bind_eq_ok hread
  cases hread
  injection hbody with hbody
  split at hbody
  · cases hbody
  · rename_i hother
    exact Ne.symm hother

theorem findUnused_unused (h : findUnused smi s = .ok (some i)) :
    i < smi.numVlanMc ∧ ∀ port < smi.numPorts, s.mcIndex port ≠ i := by
  refine ⟨findUnused_hit h, ?_⟩
  obtain ⟨j, hj, hbody⟩ := search_hit h
  obtain ⟨used, hused, hbody⟩ := bind_eq_ok hbody
  injection hbody with hbody
  cases used with
  | true => cases hbody
  | false =>
    cases hbody
    exact mcIsUsed_false hused

end Searches

/-- What a successful `rtl8366_set_pvid` does: the port selects an entry of the VID, which was there
or takes the place of one that was empty or that no port selected. -/
structure PvidSet (smi : Smi) (s : Switch) (port vid : Nat) (s' : Switch) (i : Nat) : Prop where
  index : i < smi.numVlanMc
  mcIndex : s'.mcIndex = Function.update s.mcIndex port i
  vid : (s'.vlanMc i).vid.toNat = vid
  others : ∀ j, j ≠ i → s'.vlanMc j = s.vlanMc j
  replaced : (s'.vlanMc i).vid = (s.vlanMc i).vid ∨ (s.vlanMc i).vid = 0 ∨
    ∀ p < smi.numPorts, s.mcIndex p ≠ i

section Steps

variable {smi : Smi} {s s' : Switch} {i p port vid : Nat} {calls : List Call}

theorem fillVlanMc_set (hvid : 1 ≤ vid ∧ vid ≤ 4095) (hi : i < smi.numVlanMc) {vlanmc : VlanMc}
    (hfree : (s.vlanMc i).vid = 0 ∨ ∀ p < smi.numPorts, s.mcIndex p ≠ i)
    (hrun : fillVlanMc smi s port vid i vlanmc = .ok s') : PvidSet smi s port vid s' i := by
  obtain ⟨vlan4k, -, hrun⟩ := bind_eq_ok hrun
  obtain ⟨mid, hset, hrun⟩ := bind_eq_ok hrun
  obtain rfl := setVlanMc_ok hset
  obtain rfl := setMcIndex_ok hrun
  refine ⟨hi, rfl, ?_, fun j hj => Function.update_of_ne hj _ _, .inr hfree⟩
  dsimp only
  rw [Function.update_self]
  exact vid_toNat hvid

theorem setPvid_set (hvid : 1 ≤ vid ∧ vid ≤ 4095) (hrun : setPvid smi s port vid = .ok s') :
    ∃ i, PvidSet smi s port vid s' i := by
  obtain ⟨hit, hfind, hrun⟩ := bind_eq_ok hrun
  cases hit with
  | some hit =>
    obtain ⟨i, vlanmc⟩ := hit
    obtain ⟨hi, rfl, hsame⟩ := findVid_hit hfind
    obtain ⟨mid, hset, hrun⟩ := bind_eq_ok hrun
    obtain rfl := setVlanMc_ok hset
    obtain rfl := setMcIndex_ok hrun
    refine ⟨i, hi, rfl, ?_, fun j hj => Function.update_of_ne hj _ _, .inl ?_⟩
    · dsimp only
      rw [Function.update_self]
      exact hsame.symm
    · dsimp only
      rw [Function.update_self]
  | none =>
    obtain ⟨hit, hempty, hrun⟩ := bind_eq_ok hrun
    cases hit with
    | some hit =>
      obtain ⟨hi, hzero⟩ := findEmpty_empty hempty
      exact ⟨hit.1, fillVlanMc_set hvid hi (.inl hzero) hrun⟩
    | none =>
      obtain ⟨hit, hunused, hrun⟩ := bind_eq_ok hrun
      cases hit with
      | some i =>
        obtain ⟨hi, hfree⟩ := findUnused_unused hunused
        exact ⟨i, fillVlanMc_set hvid hi (.inr hfree) hrun⟩
      | none => cases hrun

theorem PvidSet.selects (h : PvidSet smi s port vid s' i) (hport : port < smi.numPorts)
    (hvid : 1 ≤ vid) : Selects smi s' port ∧ (s'.vlanMc (s'.mcIndex port)).vid.toNat = vid := by
  have hindex : s'.mcIndex port = i := by
    rw [h.mcIndex, Function.update_self]
  refine ⟨⟨hport, ?_, ?_⟩, ?_⟩
  · rw [hindex]
    exact h.index
  · rw [hindex]
    intro hzero
    have hnat := h.vid
    rw [hzero] at hnat
    rw [← hnat] at hvid
    exact absurd hvid (by decide)
  · rw [hindex]
    exact h.vid

theorem PvidSet.keeps (h : PvidSet smi s port vid s' i) (hp : Selects smi s p) (hne : p ≠ port) :
    s'.mcIndex p = s.mcIndex p ∧
      (s'.vlanMc (s'.mcIndex p)).vid = (s.vlanMc (s.mcIndex p)).vid := by
  have hindex : s'.mcIndex p = s.mcIndex p := by
    rw [h.mcIndex, Function.update_of_ne hne]
  refine ⟨hindex, ?_⟩
  rw [hindex]
  by_cases hi : s.mcIndex p = i
  · rw [hi]
    rcases h.replaced with hsame | hempty | hunused
    · exact hsame
    · rw [← hi] at hempty
      exact absurd hempty hp.2.2
    · exact absurd hi (hunused p hp.1)
  · rw [h.others _ hi]

theorem PvidSet.selects_other (h : PvidSet smi s port vid s' i) (hp : Selects smi s p)
    (hne : p ≠ port) : Selects smi s' p := by
  obtain ⟨hindex, hvid⟩ := h.keeps hp hne
  refine ⟨hp.1, ?_, ?_⟩
  · rw [hindex]
    exact hp.2.1
  · rw [hvid]
    exact hp.2.2

theorem setVlan_keeps {member untag fid : U32}
    (hrun : setVlan smi s vid member untag fid = .ok s') :
    s'.mcIndex = s.mcIndex ∧ ∀ i, (s'.vlanMc i).vid = (s.vlanMc i).vid := by
  obtain ⟨vlan4k, -, hrun⟩ := bind_eq_ok hrun
  obtain ⟨mid, hset, hrun⟩ := bind_eq_ok hrun
  obtain ⟨hit, hfind, hrun⟩ := bind_eq_ok hrun
  obtain ⟨-, -, hset⟩ := bind_eq_ok hset
  cases hset
  cases hit with
  | none =>
    cases hrun
    exact ⟨rfl, fun _ => rfl⟩
  | some hit =>
    obtain ⟨i, vlanmc⟩ := hit
    obtain ⟨-, rfl, -⟩ := findVid_hit hfind
    obtain rfl := setVlanMc_ok hrun
    refine ⟨rfl, ?_⟩
    intro j
    by_cases hji : j = i
    · rw [hji]
      dsimp only
      rw [Function.update_self]
    · exact congrArg VlanMc.vid (Function.update_of_ne hji _ _)

theorem sets_selects {call : Call} (hstep : Sets smi s call s')
    (h : ∀ p, SetBy p calls → Selects smi s p) :
    ∀ p, SetBy p (calls ++ [call]) → Selects smi s' p := by
  obtain ⟨hbetween, hvalid, hrun⟩ := hstep
  cases call with
  | setVlan vid member untag fid =>
    obtain ⟨hindex, hvids⟩ := setVlan_keeps hrun
    rintro p ⟨w, hw⟩
    have hold : SetBy p calls := ⟨w, by simpa using hw⟩
    obtain ⟨hport, hlt, hne⟩ := h p hold
    refine ⟨hport, ?_, ?_⟩
    · rw [hindex]
      exact hlt
    · rw [hindex, hvids]
      exact hne
  | setPvid port vid =>
    obtain ⟨i, hset⟩ := setPvid_set hvalid hrun
    rintro p ⟨w, hw⟩
    by_cases hp : p = port
    · rw [hp]
      exact (hset.selects hbetween hvalid.1).1
    · have hold : SetBy p calls := by
        refine ⟨w, (List.mem_append.mp hw).resolve_right ?_⟩
        intro hlast
        rw [List.mem_singleton, Call.setPvid.injEq] at hlast
        exact hp hlast.1
      exact hset.selects_other (h p hold) hp
  | resetVlan => exact hbetween.elim

theorem run_selects (hrun : Run (Sets smi) s calls s') : ∀ p, SetBy p calls → Selects smi s' p := by
  induction hrun with
  | nil =>
    rintro p ⟨w, hw⟩
    exact absurd hw List.not_mem_nil
  | snoc _ hstep ih => exact sets_selects hstep ih

end Steps

section Reading

variable {smi : Smi} (hops : ∀ s a, smi.err s a = 0)
include hops

theorem access_ok (s : Switch) (a : Access) : access smi s a = .ok () := if_pos (hops s a)

theorem getMcIndex_eq (s : Switch) (port : Nat) : getMcIndex smi s port = .ok (s.mcIndex port) := by
  rw [getMcIndex, access_ok hops]
  rfl

theorem getVlanMc_eq (s : Switch) (i : Nat) : getVlanMc smi s i = .ok (s.vlanMc i) := by
  rw [getVlanMc, access_ok hops]
  rfl

theorem setVlanMc_eq (s : Switch) (i : Nat) (vlanmc : VlanMc) : setVlanMc smi s i vlanmc =
    .ok { s with vlanMc := Function.update s.vlanMc i vlanmc } := by
  rw [setVlanMc, access_ok hops]
  rfl

theorem setMcIndex_eq (s : Switch) (port i : Nat) : setMcIndex smi s port i =
    .ok { s with mcIndex := Function.update s.mcIndex port i } := by
  rw [setMcIndex, access_ok hops]
  rfl

theorem getPvid_eq (s : Switch) (port : Nat) :
    getPvid smi s port = .ok (s.vlanMc (s.mcIndex port)).vid.toNat := by
  rw [getPvid, getMcIndex_eq hops]
  change (do let vlanmc ← getVlanMc smi s (s.mcIndex port); return vlanmc.vid.toNat) = _
  rw [getVlanMc_eq hops]
  rfl

theorem findVid_ok (s : Switch) (vid : Nat) : ∃ r, findVid smi s vid = .ok r := by
  apply search_ok
  intro i
  rw [getVlanMc_eq hops]
  exact ⟨_, rfl⟩

theorem findEmpty_ok (s : Switch) : ∃ r, findEmpty smi s = .ok r := by
  apply search_ok
  intro i
  rw [getVlanMc_eq hops]
  exact ⟨_, rfl⟩

theorem findUnused_ok (s : Switch) : ∃ r, findUnused smi s = .ok r := by
  apply search_ok
  intro i
  obtain ⟨hit, hsearch⟩ : ∃ r, search (fun port => do
      let index ← getMcIndex smi s port
      return if i = index then some () else none) smi.numPorts = .ok r := by
    apply search_ok
    intro port
    rw [getMcIndex_eq hops]
    exact ⟨_, rfl⟩
  have hused : mcIsUsed smi s i = .ok hit.isSome := by
    rw [mcIsUsed, hsearch]
    rfl
  rw [hused]
  exact ⟨_, rfl⟩

theorem fillVlanMc_ok (s : Switch) (port vid i : Nat) (vlanmc : VlanMc) :
    ∃ s', fillVlanMc smi s port vid i vlanmc = .ok s' := by
  unfold fillVlanMc getVlan4k
  rw [access_ok hops]
  simp [setVlanMc_eq hops, setMcIndex_eq hops, bind, Except.bind, pure, Except.pure]

theorem setPvid_error {s : Switch} {port vid : Nat} {e : Failure}
    (h : setPvid smi s port vid = .error e) : e = (-enospc, s) := by
  obtain ⟨hit, hfind⟩ := findVid_ok hops s vid
  obtain ⟨empty, hempty⟩ := findEmpty_ok hops s
  obtain ⟨unused, hunused⟩ := findUnused_ok hops s
  rw [setPvid, hfind] at h
  cases hit with
  | some hit =>
    change (do
      let s ← setVlanMc smi s hit.1 hit.2
      setMcIndex smi s port hit.1) = _ at h
    rw [setVlanMc_eq hops] at h
    change setMcIndex smi _ port hit.1 = _ at h
    rw [setMcIndex_eq hops] at h
    cases h
  | none =>
    change (findEmpty smi s >>= _) = _ at h
    rw [hempty] at h
    cases empty with
    | some hit =>
      obtain ⟨s', hs'⟩ := fillVlanMc_ok hops s port vid hit.1 hit.2
      change fillVlanMc smi s port vid hit.1 hit.2 = _ at h
      rw [hs'] at h
      cases h
    | none =>
      change (findUnused smi s >>= _) = _ at h
      rw [hunused] at h
      cases unused with
      | some i =>
        obtain ⟨s', hs'⟩ := fillVlanMc_ok hops s port vid i (s.vlanMc (smi.numVlanMc - 1))
        change fillVlanMc smi s port vid i _ = _ at h
        rw [hs'] at h
        cases h
      | none =>
        cases h
        rfl

end Reading

/-- Setting the PVID of a port leaves the PVIDs of the other ports that have one. -/
theorem setPvid_leaves_others {smi : Smi} (hops : ∀ s a, smi.err s a = 0) {s₁ s : Switch}
    {calls : List Call} (hrun : Run (Sets smi) s₁ calls s)
    {port vid : Nat} (hport : port < smi.numPorts) (hvid : 1 ≤ vid ∧ vid ≤ 4095) :
    (∀ s', setPvid smi s port vid = .ok s' →
      getPvid smi s' port = .ok vid ∧
      ∀ p, p ≠ port → SetBy p calls → getPvid smi s' p = getPvid smi s p) ∧
    ∀ e, setPvid smi s port vid = .error e → e = (-enospc, s) := by
  refine ⟨?_, fun e he => setPvid_error hops he⟩
  intro s' hset
  obtain ⟨i, hset⟩ := setPvid_set hvid hset
  refine ⟨?_, ?_⟩
  · rw [getPvid_eq hops, (hset.selects hport hvid.1).2]
  · intro p hne hp
    rw [getPvid_eq hops, getPvid_eq hops, (hset.keeps (run_selects hrun p hp) hne).2]

/-- Three ports and two entries: port 1 shares the entry of port 0, which keeps its PVID when port 1
leaves for another one. -/
theorem setPvid_leaves_others_shared :
    let smi : Smi := ⟨3, 2, fun _ _ => 0⟩
    let s : Switch := ⟨fun _ => ⟨0, 0, 0, 0, 0⟩, fun _ => ⟨0, 0, 0, 0⟩, fun _ => 0, false, false⟩
    ∃ s' s'', Run (Sets smi) s [.setPvid 0 1, .setPvid 1 1] s' ∧ setPvid smi s' 1 2 = .ok s'' ∧
      getPvid smi s'' 1 = .ok 2 ∧ getPvid smi s'' 0 = getPvid smi s' 0 := by
  intro smi s
  have hrun : ∃ s' s'', Run (Sets smi) s [.setPvid 0 1, .setPvid 1 1] s' ∧
      setPvid smi s' 1 2 = .ok s'' :=
    ⟨_, _, (Run.nil.snoc ⟨(by decide : 0 < 3), by decide, rfl⟩).snoc
      ⟨(by decide : 1 < 3), by decide, rfl⟩, rfl⟩
  obtain ⟨s', s'', hrun, hset⟩ := hrun
  obtain ⟨hport, hothers⟩ := (setPvid_leaves_others (fun _ _ => rfl) hrun (by decide)
    (by decide)).1 s'' hset
  exact ⟨s', s'', hrun, hset, hport, hothers 0 (by decide) ⟨1, by decide⟩⟩

end OpenwrtMtk.Rtl8366
