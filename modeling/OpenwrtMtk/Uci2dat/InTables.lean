import OpenwrtMtk.Uci2dat.Tables

/-!
# Packages for which uci2dat stays inside its tables

The scan of the interfaces needs a device to compare in each section, and a place among the `vifs`
of its slot. When it gets through, the loops of `hooker` over `vifnum` end inside the table.
-/

namespace OpenwrtMtk.Uci2dat

open Toolkit

set_option autoImplicit false

section Interfaces

/-- The sections of interfaces are taken one after another: each has a device, and the slot of that
device, if there is one, has room. `counts` are the interfaces that the slots have already. -/
def RoomForAll (ptr : Nat → List U8) (names : List (List U8)) : List Nat → List Section → Prop
  | _, [] => True
  | counts, s :: sections => ∃ device, s.option "device" = some device ∧
      ∀ i, slotOf ptr names counts device = some i →
        counts.getD i 0 < mbssidMax ∧ RoomForAll ptr names (counts.modify i (· + 1)) sections

variable {ptr : Nat → List U8} {cfgs cfgs' : List WifiParams}

def Roomy (cfgs : List WifiParams) : Prop :=
  cfgs.length = devnumMax ∧ ∀ cfg ∈ cfgs, cfg.vifnum ≤ mbssidMax

theorem vifnums_modify (cfgs : List WifiParams) (i : Nat) (s : Section) :
    vifnums (cfgs.modify i (addIface · s)) = (vifnums cfgs).modify i (· + 1) := by
  induction cfgs generalizing i with
  | nil =>
    cases i with
    | zero => rfl
    | succ i => rfl
  | cons cfg cfgs ih =>
    cases i with
    | zero => rfl
    | succ i => exact congrArg (cfg.vifnum :: ·) (ih i)

theorem Roomy.modify {i : Nat} {f : WifiParams → WifiParams} (h : Roomy cfgs)
    (hf : ∀ cfg, cfgs[i]? = some cfg → (f cfg).vifnum ≤ mbssidMax) : Roomy (cfgs.modify i f) := by
  refine ⟨(List.length_modify ..).trans h.1, ?_⟩
  intro cfg hcfg
  obtain ⟨j, hj⟩ := List.getElem?_of_mem hcfg
  rw [List.getElem?_modify] at hj
  obtain ⟨cfg', hcfg', rfl⟩ := Option.map_eq_some_iff.mp hj
  split
  · rename_i hij
    subst hij
    exact hf cfg' hcfg'
  · exact h.2 cfg' (List.mem_of_getElem? hcfg')

theorem parseDevicesIn_ends (ptr : Nat → List U8) (sections : List Section) (hlength : cfgs.length = devnumMax) :
    ∃ cfgs', parseDevicesIn ptr cfgs sections = .ok cfgs' ∧ cfgs'.length = devnumMax ∧
      devnames cfgs' = devnames cfgs ∧ vifnums cfgs' = vifnums cfgs := by
  induction sections generalizing cfgs with
  | nil => exact ⟨cfgs, rfl, hlength, rfl, rfl⟩
  | cons s sections ih =>
    rw [parseDevicesIn, bind_ok (searchSlot_eq hlength s.name)]
    cases slotOf ptr (devnames cfgs) (vifnums cfgs) s.name with
    | none => exact ⟨cfgs, rfl, hlength, rfl, rfl⟩
    | some i =>
      obtain ⟨cfgs', hrest, hlength', hnames, hcounts⟩ :=
        ih ((List.length_modify (setParams · s) cfgs i).trans hlength)
      refine ⟨cfgs', hrest, hlength', hnames.trans (devname_modify cfgs i fun _ => rfl),
        hcounts.trans ?_⟩
      have hsame : ∀ (cfgs : List WifiParams) (i : Nat),
          vifnums (cfgs.modify i (setParams · s)) = vifnums cfgs := by
        intro cfgs
        induction cfgs with
        | nil =>
          intro i
          cases i with
          | zero => rfl
          | succ i => rfl
        | cons cfg cfgs ih =>
          intro i
          cases i with
          | zero => rfl
          | succ i => exact congrArg (cfg.vifnum :: ·) (ih i)
      exact hsame cfgs i

theorem parseIfacesIn_cons {s : Section} {sections : List Section}
    (hlength : cfgs.length = devnumMax) :
    parseIfacesIn ptr cfgs (s :: sections) = .ok cfgs' ↔ ∃ device, s.option "device" = some device ∧
      (slotOf ptr (devnames cfgs) (vifnums cfgs) device = none ∧ cfgs' = cfgs ∨
        ∃ i, slotOf ptr (devnames cfgs) (vifnums cfgs) device = some i ∧
          (vifnums cfgs).getD i 0 < mbssidMax ∧
          parseIfacesIn ptr (cfgs.modify i (addIface · s)) sections = .ok cfgs') := by
  rw [parseIfacesIn, bind_eq_ok]
  constructor
  · rintro ⟨device, hdevice, h⟩
    refine ⟨device, orOutside_eq_ok.mp hdevice, ?_⟩
    rw [bind_ok (searchSlot_eq hlength device)] at h
    cases hslot : slotOf ptr (devnames cfgs) (vifnums cfgs) device with
    | none =>
      rw [hslot] at h
      cases h
      exact Or.inl ⟨rfl, rfl⟩
    | some i =>
      rw [hslot] at h
      obtain ⟨cfg, hcfg, h⟩ := bind_eq_ok.mp h
      obtain ⟨v, hvif, h⟩ := bind_eq_ok.mp h
      refine Or.inr ⟨i, rfl, ?_, h⟩
      rw [vifnums, List.getD_eq_getElem?_getD, List.getElem?_map, orOutside_eq_ok.mp hcfg]
      unfold vifAt at hvif
      split at hvif
      · assumption
      · cases hvif
  · rintro ⟨device, hdevice, h⟩
    refine ⟨device, orOutside_eq_ok.mpr hdevice, ?_⟩
    rw [bind_ok (searchSlot_eq hlength device)]
    rcases h with ⟨hslot, rfl⟩ | ⟨i, hslot, hroom, hrest⟩
    · rw [hslot]
      rfl
    · have hi : i < cfgs.length := hlength ▸ slotOf_lt hslot
      rw [vifnums, List.getD_eq_getElem?_getD, List.getElem?_map, List.getElem?_eq_getElem hi]
        at hroom
      have hvif : vifAt cfgs[i] cfgs[i].vifnum = .ok (cfgs[i].vifs cfgs[i].vifnum) := if_pos hroom
      rw [hslot]
      change (slotAt cfgs i >>= _) = _
      rw [bind_ok (slotAt_ok hi), bind_ok hvif]
      exact hrest

/-- `parse_uci` gets through the interfaces if and only if they fit. -/
theorem parseIfacesIn_ends_iff (ptr : Nat → List U8) (sections : List Section)
    (hlength : cfgs.length = devnumMax) :
    (∃ cfgs', parseIfacesIn ptr cfgs sections = .ok cfgs') ↔
      RoomForAll ptr (devnames cfgs) (vifnums cfgs) sections := by
  induction sections generalizing cfgs with
  | nil => exact iff_of_true ⟨cfgs, rfl⟩ trivial
  | cons s sections ih =>
    have hnext (i : Nat) : (∃ cfgs', parseIfacesIn ptr (cfgs.modify i (addIface · s)) sections =
        .ok cfgs') ↔ RoomForAll ptr (devnames cfgs) ((vifnums cfgs).modify i (· + 1)) sections := by
      rw [ih ((List.length_modify ..).trans hlength), vifnums_modify]
      have hnames : devnames (cfgs.modify i (addIface · s)) = devnames cfgs :=
        devname_modify cfgs i fun _ => rfl
      rw [hnames]
    constructor
    · rintro ⟨cfgs', h⟩
      obtain ⟨device, hdevice, h⟩ := (parseIfacesIn_cons hlength).mp h
      refine ⟨device, hdevice, ?_⟩
      intro i hi
      rcases h with ⟨hnone, -⟩ | ⟨j, hj, hroom, hrest⟩
      · rw [hnone] at hi
        cases hi
      · cases hj.symm.trans hi
        exact ⟨hroom, (hnext i).mp ⟨cfgs', hrest⟩⟩
    · rintro ⟨device, hdevice, h⟩
      cases hslot : slotOf ptr (devnames cfgs) (vifnums cfgs) device with
      | none =>
        exact ⟨cfgs, (parseIfacesIn_cons hlength).mpr ⟨device, hdevice, Or.inl ⟨hslot, rfl⟩⟩⟩
      | some i =>
        obtain ⟨hroom, hfits⟩ := h i hslot
        obtain ⟨cfgs', hrest⟩ := (hnext i).mpr hfits
        exact ⟨cfgs', (parseIfacesIn_cons hlength).mpr
          ⟨device, hdevice, Or.inr ⟨i, hslot, hroom, hrest⟩⟩⟩

theorem parseIfacesIn_roomy {sections : List Section} (hroomy : Roomy cfgs)
    (h : parseIfacesIn ptr cfgs sections = .ok cfgs') : Roomy cfgs' := by
  induction sections generalizing cfgs with
  | nil =>
    cases h
    exact hroomy
  | cons s sections ih =>
    obtain ⟨device, -, h⟩ := (parseIfacesIn_cons hroomy.1).mp h
    rcases h with ⟨-, rfl⟩ | ⟨i, -, hroom, hrest⟩
    · exact hroomy
    · refine ih (hroomy.modify ?_) hrest
      intro cfg hcfg
      rw [vifnums, List.getD_eq_getElem?_getD, List.getElem?_map, hcfg] at hroom
      exact hroom

theorem parseIfacesIn_short (sections : List Section) (hlength : cfgs.length = devnumMax)
    (hshort : ShortNames cfgs) :
    parseIfacesIn ptr cfgs sections = .ok cfgs' ↔ parseIfaces cfgs sections = some cfgs' := by
  induction sections generalizing cfgs with
  | nil =>
    constructor
    · intro h
      cases h
      rfl
    · intro h
      cases h
      rfl
  | cons s sections ih =>
    rw [parseIfacesIn_cons hlength, parseIfaces]
    cases s.option "device" with
    | none =>
      constructor
      · rintro ⟨device, h, -⟩
        cases h
      · intro h
        cases h
    | some device =>
      have hnames (i : Nat) := devname_modify cfgs i (f := (addIface · s)) fun _ => rfl
      rw [Option.bind_eq_bind, Option.bind_some, findDevice_short hshort]
      cases hfind : cfgs.findIdx? fun cfg => device = cfg.devname with
      | none =>
        constructor
        · rintro ⟨device', heq, h⟩
          cases heq
          rw [slotOf_short hlength hshort, hfind] at h
          rcases h with ⟨-, rfl⟩ | ⟨i, h, -⟩
          · rfl
          · cases h
        · intro h
          cases h
          refine ⟨device, rfl, Or.inl ⟨?_, rfl⟩⟩
          rw [slotOf_short hlength hshort, hfind]
      | some i =>
        obtain ⟨cfg, hcfg, hnum, -⟩ := vifnum_of_findIdx? hfind
        have hcount : (vifnums cfgs).getD i 0 = cfg.vifnum := by
          rw [vifnums, List.getD_eq_getElem?_getD, List.getElem?_map, hcfg]
          rfl
        have hrest : parseIfacesIn ptr (cfgs.modify i (addIface · s)) sections = .ok cfgs' ↔
            parseIfaces (cfgs.modify i (addIface · s)) sections = some cfgs' :=
          ih ((List.length_modify ..).trans hlength) (hshort.congr (hnames i))
        dsimp only [Option.bind_eq_bind, Option.bind_some]
        rw [hcfg]
        dsimp only [Option.bind_some]
        constructor
        · rintro ⟨device', heq, h⟩
          cases heq
          rw [slotOf_short hlength hshort, hfind] at h
          rcases h with ⟨h, -⟩ | ⟨j, hj, hroom, h⟩
          · cases h
          · cases hj
            rw [hcount] at hroom
            rw [if_neg (Nat.not_le_of_lt hroom)]
            exact hrest.mp h
        · intro h
          split at h
          · cases h
          · rename_i hroom
            refine ⟨device, rfl, Or.inr ⟨i, ?_, ?_, hrest.mpr h⟩⟩
            · rw [slotOf_short hlength hshort, hfind]
            · rw [hcount]
              exact Nat.lt_of_not_le hroom

end Interfaces

section Hooks

variable {ptr : Nat → List U8} {cfgs : List WifiParams} {cfg : WifiParams}

theorem ite_ok {α : Type} {c : Prop} [Decidable c] {x y : Checked α} {a b : α} (hx : x = .ok a)
    (hy : y = .ok b) : (if c then x else y) = .ok (if c then a else b) := by
  split
  · exact hx
  · exact hy

theorem vifAt_ok {j : Nat} (hj : j < mbssidMax) : vifAt cfg j = .ok (cfg.vifs j) := if_pos hj

theorem loopIn_ok (print : List Vif → List U8) (h : cfg.vifnum ≤ mbssidMax) :
    loopIn print cfg = .ok (print cfg.used) := by
  have hused : usedIn cfg = .ok cfg.used :=
    mapM_ok fun j hj => vifAt_ok (Nat.lt_of_lt_of_le (List.mem_range.mp hj) h)
  rw [loopIn, bind_ok hused]
  rfl

theorem vifIndex_lt {datKey : String} {n i : Nat} (h : vifIndex datKey n = some i) :
    i < mbssidMax := by
  unfold vifIndex at h
  split at h
  · cases h
    omega
  · cases h

theorem hookerIn_ok (datKey : String) (value : List U8) (h : cfg.vifnum ≤ mbssidMax) :
    hookerIn cfg datKey value = .ok (hooker cfg datKey value) := by
  have hloop (print : List Vif → List U8) := loopIn_ok print h
  unfold hookerIn hooker
  refine ite_ok ?_ (ite_ok rfl (ite_ok (hloop _) (ite_ok (hloop _) (ite_ok (hloop _) (ite_ok rfl
    (ite_ok rfl (ite_ok rfl (ite_ok rfl (ite_ok ?_ (ite_ok (hloop _) (ite_ok (hloop _) (ite_ok ?_
    (ite_ok (hloop _) (ite_ok (hloop _) (ite_ok (hloop _) (ite_ok (hloop _) (ite_ok (hloop _)
    (ite_ok (hloop _) (ite_ok ?_ (ite_ok rfl (ite_ok rfl (ite_ok rfl rfl))))))))))))))))))))))
  · cases hindex : vifIndex datKey 4 with
    | none => rfl
    | some i =>
      dsimp only
      rw [bind_ok (vifAt_ok (vifIndex_lt hindex))]
      rfl
  · cases hindex : vifIndex datKey 6 with
    | none => rfl
    | some i =>
      dsimp only
      rw [bind_ok (vifAt_ok (vifIndex_lt hindex))]
      cases (cfg.vifs i).authmode with
      | none => rfl
      | some authmode => rfl
  · cases hindex : vifIndex datKey 10 with
    | none => rfl
    | some i =>
      dsimp only
      rw [bind_ok (vifAt_ok (vifIndex_lt hindex))]
      rfl
  · cases (cfg.vifs (atoi datKey 7 - 1)).wepkey (atoi datKey 3 - 1) with
    | none => rfl
    | some key => rfl

theorem hookerEffect_vifnum (cfg : WifiParams) (datKey : String) :
    (hookerEffect cfg datKey).vifnum = cfg.vifnum := by
  unfold hookerEffect
  split
  · rfl
  · rfl

theorem callHooker_ok (ptr : Nat → List U8) (h : Roomy cfgs) (devname : List U8) (entry : String × List U8) :
    ∃ line cfgs', callHooker ptr cfgs devname entry = .ok (line, cfgs') ∧ Roomy cfgs' := by
  rw [callHooker, show mbssidMax = devnumMax from rfl, bind_ok (searchSlot_eq h.1 devname)]
  cases hslot : slotOf ptr (devnames cfgs) (vifnums cfgs) devname with
  | none => exact ⟨[], cfgs, rfl, h⟩
  | some i =>
    have hi : i < cfgs.length := h.1 ▸ slotOf_lt hslot
    have hroom := h.2 cfgs[i] (List.getElem_mem hi)
    change ∃ line cfgs', (slotAt cfgs i >>= _) = _ ∧ _
    rw [bind_ok (slotAt_ok hi), bind_ok (hookerIn_ok entry.1 entry.2 hroom)]
    refine ⟨_, _, rfl, h.modify ?_⟩
    intro cfg hcfg
    rw [hookerEffect_vifnum]
    exact h.2 cfg (List.mem_of_getElem? hcfg)

theorem callHookers_ends (h : Roomy cfgs) (devname : List U8)
    (entries : List (String × List U8)) : Ends (callHookers ptr cfgs devname entries) := by
  induction entries generalizing cfgs with
  | nil => exact ends_pure cfgs
  | cons entry entries ih =>
    obtain ⟨line, cfgs', hcall, hroomy⟩ := callHooker_ok ptr h devname entry
    rw [callHookers, bind_ok hcall]
    exact ih hroomy

end Hooks

section Runs

variable {ptr : Nat → List U8} {dat : WifiParams → List Param} {package : Package}

theorem vifnums_initWifiCfg (package : Package) :
    vifnums (initWifiCfg package) = List.replicate devnumMax 0 := by
  apply List.eq_replicate_iff.mpr
  refine ⟨(List.length_map ..).trans (length_initWifiCfg package), ?_⟩
  intro n hn
  obtain ⟨cfg, hcfg, rfl⟩ := List.mem_map.mp hn
  exact (initWifiCfg_slots package cfg hcfg).2.1

theorem inTables_iff_room : InTables ptr dat package ↔
    RoomForAll ptr (devnames (initWifiCfg package)) (List.replicate devnumMax 0)
      (package.filter isIface) := by
  let start := (initWifiCfg package).map fun cfg => { cfg with params := dat cfg }
  have hlength : start.length = devnumMax :=
    (List.length_map ..).trans (length_initWifiCfg package)
  have hnames : devnames start = devnames (initWifiCfg package) := List.map_map
  have hcounts : vifnums start = List.replicate devnumMax 0 :=
    (List.map_map : vifnums start = vifnums (initWifiCfg package)).trans
      (vifnums_initWifiCfg package)
  obtain ⟨mid, hmid, hlength', hnames', hcounts'⟩ :=
    parseDevicesIn_ends ptr (package.filter isDevice) hlength
  have hifaces := parseIfacesIn_ends_iff ptr (package.filter isIface) hlength'
  rw [hnames', hcounts', hnames, hcounts] at hifaces
  rw [← hifaces]
  constructor
  · rintro ⟨cfgs, cfgs', hinit, hparse, -⟩
    cases (initWifiCfgIn_eq package).symm.trans hinit
    rw [parseUciIn, bind_ok hmid] at hparse
    exact ⟨cfgs', hparse⟩
  · rintro ⟨cfgs', hparse⟩
    refine ⟨_, cfgs', initWifiCfgIn_eq package, (bind_ok hmid).trans hparse, ?_⟩
    intro devname entries
    apply callHookers_ends
    refine parseIfacesIn_roomy ⟨hlength', ?_⟩ hparse
    intro cfg hcfg
    have hzero : cfg.vifnum ∈ vifnums mid := List.mem_map_of_mem hcfg
    rw [hcounts', hcounts] at hzero
    rw [List.eq_of_mem_replicate hzero]
    exact Nat.zero_le mbssidMax

/-- uci2dat stays inside its tables if and only if the interfaces fit: each that is looked at has a
device, whose slot has less than four interfaces before. Where the names of the devices end in their
buffers, this is: at most four interfaces for one device, up to the first of an unknown device. -/
theorem inTables_iff (ptr : Nat → List U8) (dat : WifiParams → List Param) (package : Package) :
    (InTables ptr dat package ↔
      RoomForAll ptr (devnames (initWifiCfg package)) (List.replicate devnumMax 0)
        (package.filter isIface)) ∧
    (ShortNames (initWifiCfg package) → (InTables ptr dat package ↔
      IfacesFit (devnames (initWifiCfg package)) (package.filter isIface))) := by
  refine ⟨inTables_iff_room, ?_⟩
  intro hshort
  have hlength := length_initWifiCfg package
  have hunused (device : List U8) : usedBy device (initWifiCfg package) = 0 := by
    unfold usedBy
    cases hfind : (initWifiCfg package).find? fun cfg => device = cfg.devname with
    | none => rfl
    | some cfg => exact (initWifiCfg_slots package cfg (List.mem_of_find?_eq_some hfind)).2.1
  have hroom (device : List U8) : usedBy device (initWifiCfg package) ≤ mbssidMax := by
    rw [hunused]
    exact Nat.zero_le mbssidMax
  rw [inTables_iff_room, ← vifnums_initWifiCfg package, ← parseIfacesIn_ends_iff ptr _ hlength]
  simp only [parseIfacesIn_short _ hlength hshort]
  rw [parseIfaces_isSome_iff _ hshort hroom]
  simp only [hunused, Nat.zero_add]
  rfl

/-- An interface without a device: its option is a null pointer when it is compared. -/
theorem deviceless_leaves_tables : ¬∀ (ptr : Nat → List U8) (dat : WifiParams → List Param)
    (package : Package), InTables ptr dat package := by
  intro h
  have hfits := inTables_iff_room.mp (h (fun _ => []) (fun _ => []) [⟨bytes "wifi-iface", [], []⟩])
  have hiface : isIface ⟨bytes "wifi-iface", [], []⟩ = true := decide_eq_true rfl
  rw [List.filter_cons_of_pos hiface] at hfits
  obtain ⟨device, hdevice, -⟩ := hfits
  cases hdevice

end Runs

end OpenwrtMtk.Uci2dat
