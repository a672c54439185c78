import OpenwrtMtk.Uci2dat.Parsed

/-!
# Packages that can be parsed

`parse_uci` has a result just if the names of the devices end in their buffers, each interface names
its device, and no device has more than four interfaces.
-/

namespace OpenwrtMtk.Uci2dat

open Toolkit

set_option autoImplicit false

def devnames (cfgs : List WifiParams) : List (List U8) := cfgs.map WifiParams.devname

section Interfaces

def scanned (names : List (List U8)) (sections : List Section) : List Section :=
  sections.takeWhile fun s => (s.option "device").all (· ∈ names)

def countOf (device : List U8) (sections : List Section) : Nat :=
  sections.countP fun s => s.option "device" = some device

def IfacesFit (names : List (List U8)) (sections : List Section) : Prop :=
  (∀ s ∈ scanned names sections, s.option "device" ≠ none) ∧
    ∀ device, countOf device (scanned names sections) ≤ mbssidMax

def usedBy (device : List U8) (cfgs : List WifiParams) : Nat :=
  ((cfgs.find? fun cfg => device = cfg.devname).map WifiParams.vifnum).getD 0

variable {cfgs : List WifiParams}

theorem usedBy_modify {device : List U8} {i : Nat}
    (h : cfgs.findIdx? (fun cfg => device = cfg.devname) = some i) (s : Section) (d : List U8) :
    usedBy d (cfgs.modify i (addIface · s)) = usedBy d cfgs + if d = device then 1 else 0 := by
  induction cfgs generalizing i with
  | nil => cases h
  | cons cfg cfgs ih =>
    rw [List.findIdx?_cons] at h
    by_cases hname : device = cfg.devname
    · rw [if_pos (by simpa using hname)] at h
      cases h
      by_cases hd : d = device
      · simp [usedBy, addIface, hd, hname]
      · have hne : d ≠ cfg.devname := hname ▸ hd
        simp [usedBy, addIface, hd, hne]
    · rw [if_neg (by simpa using hname)] at h
      obtain ⟨j, hj, rfl⟩ := Option.map_eq_some_iff.mp h
      have hrest := ih hj
      unfold usedBy at hrest ⊢
      rw [List.modify_succ_cons]
      by_cases hd : d = cfg.devname
      · have hne : d ≠ device := fun heq => hname (heq ▸ hd)
        rw [List.find?_cons_of_pos (by simpa using hd), List.find?_cons_of_pos (by simpa using hd),
          if_neg hne]
        rfl
      · rw [List.find?_cons_of_neg (by simpa using hd), List.find?_cons_of_neg (by simpa using hd)]
        exact hrest

theorem vifnum_of_findIdx? {device : List U8} {i : Nat}
    (h : cfgs.findIdx? (fun cfg => device = cfg.devname) = some i) :
    ∃ cfg, cfgs[i]? = some cfg ∧ cfg.vifnum = usedBy device cfgs ∧ device ∈ devnames cfgs := by
  induction cfgs generalizing i with
  | nil => cases h
  | cons cfg cfgs ih =>
    rw [List.findIdx?_cons] at h
    by_cases hname : device = cfg.devname
    · rw [if_pos (by simpa using hname)] at h
      cases h
      exact ⟨cfg, rfl, by simp [usedBy, hname], by simp [devnames, hname]⟩
    · rw [if_neg (by simpa using hname)] at h
      obtain ⟨j, hj, rfl⟩ := Option.map_eq_some_iff.mp h
      obtain ⟨cfg', hcfg', hnum, hmem⟩ := ih hj
      refine ⟨cfg', hcfg', ?_, List.mem_cons_of_mem _ hmem⟩
      rw [hnum, usedBy, usedBy, List.find?_cons_of_neg (by simpa using hname)]

theorem parseIfaces_isSome_iff (sections : List Section) (hshort : ShortNames cfgs)
    (hroom : ∀ device, usedBy device cfgs ≤ mbssidMax) :
    (∃ cfgs', parseIfaces cfgs sections = some cfgs') ↔
      (∀ s ∈ scanned (devnames cfgs) sections, s.option "device" ≠ none) ∧
        ∀ device, usedBy device cfgs + countOf device (scanned (devnames cfgs) sections) ≤
          mbssidMax := by
  induction sections generalizing cfgs with
  | nil => exact iff_of_true ⟨cfgs, rfl⟩ ⟨by simp [scanned], hroom⟩
  | cons s sections ih =>
    rw [parseIfaces]
    cases hdevice : s.option "device" with
    | none =>
      have hscanned : scanned (devnames cfgs) (s :: sections) =
          s :: scanned (devnames cfgs) sections :=
        List.takeWhile_cons_of_pos (by rw [hdevice]; rfl)
      refine iff_of_false (by rintro ⟨_, h⟩; cases h) ?_
      rintro ⟨h, -⟩
      exact h s (by rw [hscanned]; exact List.mem_cons_self) hdevice
    | some device =>
      rw [Option.bind_eq_bind, Option.bind_some, findDevice_short hshort]
      cases hfind : cfgs.findIdx? fun cfg => device = cfg.devname with
      | none =>
        have hunknown : device ∉ devnames cfgs := by
          intro hmem
          obtain ⟨cfg, hcfg, hname⟩ := List.mem_map.mp hmem
          have hne := List.findIdx?_eq_none_iff.mp hfind cfg hcfg
          exact absurd hname.symm (by simpa using hne)
        have hscanned : scanned (devnames cfgs) (s :: sections) = [] :=
          List.takeWhile_cons_of_neg (by simp [hdevice, hunknown])
        refine iff_of_true ⟨cfgs, rfl⟩ ?_
        rw [hscanned]
        exact ⟨by simp, fun d => hroom d⟩
      | some i =>
        obtain ⟨cfg, hcfg, hnum, hknown⟩ := vifnum_of_findIdx? hfind
        have hscanned : scanned (devnames cfgs) (s :: sections) =
            s :: scanned (devnames cfgs) sections :=
          List.takeWhile_cons_of_pos (by simp [hdevice, hknown])
        have hcount (d : List U8) : countOf d (s :: scanned (devnames cfgs) sections) =
            countOf d (scanned (devnames cfgs) sections) + if d = device then 1 else 0 := by
          rw [countOf, List.countP_cons, hdevice]
          simp [countOf, eq_comm]
        rw [hscanned]
        dsimp only [Option.bind_eq_bind, Option.bind_some]
        rw [hcfg]
        dsimp only [Option.bind_some]
        by_cases hfull : mbssidMax ≤ cfg.vifnum
        · rw [if_pos hfull]
          refine iff_of_false (by rintro ⟨_, h⟩; cases h) ?_
          rintro ⟨-, h⟩
          have hover := h device
          rw [hcount, if_pos rfl, ← hnum] at hover
          omega
        · have hnames : devnames (cfgs.modify i (addIface · s)) = devnames cfgs :=
            devname_modify cfgs i fun _ => rfl
          have hused := usedBy_modify hfind s
          rw [if_neg hfull, ih (hshort.congr hnames), hnames]
          · constructor
            · rintro ⟨hsome, hle⟩
              refine ⟨?_, ?_⟩
              · intro t ht
                rcases List.mem_cons.mp ht with rfl | ht
                · rw [hdevice]
                  exact Option.some_ne_none device
                · exact hsome t ht
              · intro d
                have hd := hle d
                rw [hused] at hd
                rw [hcount]
                omega
            · rintro ⟨hsome, hle⟩
              refine ⟨fun t ht => hsome t (List.mem_cons_of_mem _ ht), ?_⟩
              intro d
              have hd := hle d
              rw [hcount] at hd
              rw [hused]
              omega
          · intro d
            have hd := hroom d
            rw [hused]
            by_cases heq : d = device
            · rw [if_pos heq, heq, ← hnum]
              omega
            · rw [if_neg heq]
              omega

end Interfaces

section Devices

variable {cfgs : List WifiParams} {claimed : List (List U8)}

theorem claimSlot_full (name : List U8) (h : ∀ d ∈ devnames cfgs, d ≠ []) :
    claimSlot name cfgs = none := by
  induction cfgs with
  | nil => rfl
  | cons cfg cfgs ih =>
    rw [claimSlot, if_neg (h cfg.devname List.mem_cons_self),
      ih fun d hd => h d (List.mem_cons_of_mem _ hd)]
    rfl

theorem claimSlot_claimed (name : List U8) {free : Nat} (hclaimed : ∀ d ∈ claimed, d ≠ [])
    (h : devnames cfgs = claimed ++ List.replicate (free + 1) []) :
    ∃ cfgs', claimSlot name cfgs = some cfgs' ∧
      devnames cfgs' = claimed ++ name.take devnameSize :: List.replicate free [] := by
  induction claimed generalizing cfgs with
  | nil =>
    rw [List.nil_append, List.replicate_succ] at h
    obtain ⟨cfg, rest, rfl, hname, hrest⟩ := List.map_eq_cons_iff.mp h
    refine ⟨{ cfg with devname := name.take devnameSize } :: rest, ?_, ?_⟩
    · rw [claimSlot, if_pos hname]
    · rw [devnames, List.map_cons, hrest]
      rfl
  | cons d claimed ih =>
    rw [List.cons_append] at h
    obtain ⟨cfg, rest, rfl, hname, hrest⟩ := List.map_eq_cons_iff.mp h
    obtain ⟨cfgs', hclaim, hnames⟩ := ih (fun e he => hclaimed e (List.mem_cons_of_mem _ he)) hrest
    refine ⟨cfg :: cfgs', ?_, ?_⟩
    · rw [claimSlot, if_neg (by rw [hname]; exact hclaimed d List.mem_cons_self), hclaim]
      rfl
    · rw [devnames, List.map_cons, hname]
      exact congrArg (d :: ·) hnames

theorem devnames_claimSlots {sections : List Section} (hnames : ∀ s ∈ sections, s.name ≠ [])
    (hclaimed : ∀ d ∈ claimed, d ≠ []) {free : Nat}
    (h : devnames cfgs = claimed ++ List.replicate free []) :
    devnames (claimSlots cfgs sections) =
      claimed ++ (sections.take free).map (fun s => s.name.take devnameSize) ++
        List.replicate (free - sections.length) [] := by
  induction sections generalizing cfgs claimed free with
  | nil =>
    rw [claimSlots, h, List.take_nil, List.map_nil, List.append_nil]
    rfl
  | cons s sections ih =>
    rw [claimSlots]
    cases free with
    | zero =>
      rw [List.replicate_zero, List.append_nil] at h
      rw [claimSlot_full s.name (h ▸ hclaimed)]
      simp [h]
    | succ free =>
      obtain ⟨cfgs', hclaim, hnext⟩ := claimSlot_claimed s.name hclaimed h
      have hname : s.name.take devnameSize ≠ [] := by
        rw [Ne, List.take_eq_nil_iff, not_or]
        exact ⟨by decide, hnames s List.mem_cons_self⟩
      have hclaimed' : ∀ d ∈ claimed ++ [s.name.take devnameSize], d ≠ [] := by
        intro d hd
        rcases List.mem_append.mp hd with hd | hd
        · exact hclaimed d hd
        · rw [List.mem_singleton.mp hd]
          exact hname
      rw [hclaim]
      dsimp only
      rw [ih (fun t ht => hnames t (List.mem_cons_of_mem _ ht)) hclaimed'
        (by rw [hnext, List.append_assoc]; rfl)]
      simp

variable {package : Package}

theorem devnames_initWifiCfg (hnames : ∀ s ∈ package, s.name ≠ []) :
    devnames (initWifiCfg package) =
      ((package.filter isDevice).take devnumMax).map (fun s => s.name.take devnameSize) ++
        List.replicate (devnumMax - (package.filter isDevice).length) [] := by
  have hstart : devnames (List.replicate devnumMax ⟨[], cfgElements, 0, fun _ => vif⟩) =
      [] ++ List.replicate devnumMax [] := rfl
  rw [initWifiCfg, devnames_claimSlots (fun s hs => hnames s (List.mem_of_mem_filter hs)) (by simp)
    hstart, List.nil_append]

variable {name : List U8}

theorem findDevice_claimed (h : name.take devnameSize ∈ devnames cfgs) :
    findDevice name cfgs ≠ some none := by
  induction cfgs with
  | nil => cases h
  | cons cfg cfgs ih =>
    rw [findDevice]
    rcases List.mem_cons.mp h with hname | hrest
    · unfold sameName
      by_cases hfull : cfg.devname.length = devnameSize ∧ name.take devnameSize = cfg.devname
      · rw [if_pos hfull]
        exact Option.some_ne_none _ ∘ Eq.symm
      · have hlen : name.length ≤ devnameSize := by
          by_contra hlong
          apply hfull
          refine ⟨?_, hname⟩
          rw [← hname, List.length_take]
          omega
        rw [List.take_of_length_le hlen] at hname
        rw [if_neg hfull, decide_eq_true hname]
        exact fun heq => by cases heq
    · cases sameName name cfg.devname with
      | none => exact fun heq => by cases heq
      | some found =>
        cases found with
        | true => exact fun heq => by cases heq
        | false =>
          cases hfind : findDevice name cfgs with
          | none => exact fun heq => by cases heq
          | some i =>
            cases i with
            | none => exact absurd hfind (ih hrest)
            | some i => exact fun heq => by cases heq

theorem findDevice_long {before after : List (List U8)} (hlong : devnameSize ≤ name.length)
    (hbefore : ∀ d ∈ before, d.length < devnameSize)
    (h : devnames cfgs = before ++ name.take devnameSize :: after) :
    findDevice name cfgs = none := by
  induction before generalizing cfgs with
  | nil =>
    obtain ⟨cfg, rest, rfl, hname, -⟩ := List.map_eq_cons_iff.mp h
    have hfull : cfg.devname.length = devnameSize ∧ name.take devnameSize = cfg.devname :=
      ⟨by rw [hname, List.length_take]; omega, hname.symm⟩
    rw [findDevice, sameName, if_pos hfull]
    rfl
  | cons d before ih =>
    obtain ⟨cfg, rest, rfl, hname, hrest⟩ := List.map_eq_cons_iff.mp h
    have hd := hbefore d List.mem_cons_self
    have hother : ¬ name = cfg.devname := by
      rintro rfl
      rw [hname] at hlong
      omega
    rw [findDevice, sameName_short (by rw [hname]; exact hd), decide_eq_false hother,
      ih (fun e he => hbefore e (List.mem_cons_of_mem _ he)) hrest]
    rfl

theorem parseDevices_eq_none {before after : List Section} {s : Section}
    (hbefore : ∀ t ∈ before, findDevice t.name cfgs ≠ some none)
    (hs : findDevice s.name cfgs = none) : parseDevices cfgs (before ++ s :: after) = none := by
  induction before generalizing cfgs with
  | nil =>
    rw [List.nil_append, parseDevices, hs]
    rfl
  | cons t before ih =>
    rw [List.cons_append, parseDevices]
    cases hfind : findDevice t.name cfgs with
    | none => rfl
    | some found =>
      cases found with
      | none => exact absurd hfind (hbefore t List.mem_cons_self)
      | some i =>
        have hnames : (cfgs.modify i (setParams · t)).map WifiParams.devname =
            cfgs.map WifiParams.devname := devname_modify cfgs i fun _ => rfl
        apply ih
        · intro u hu
          rw [findDevice_congr hnames]
          exact hbefore u (List.mem_cons_of_mem _ hu)
        · rw [findDevice_congr hnames]
          exact hs

theorem shortNames_of_parseDevices (hnames : ∀ s ∈ package, s.name ≠ [])
    (hcfgs : devnames cfgs = devnames (initWifiCfg package)) {cfgs' : List WifiParams}
    (h : parseDevices cfgs (package.filter isDevice) = some cfgs') :
    ShortNames (initWifiCfg package) := by
  have hslots := devnames_initWifiCfg hnames
  let long (s : Section) : Bool := devnameSize ≤ s.name.length
  cases hfind : ((package.filter isDevice).take devnumMax).find? long with
  | none =>
    have hshort : ∀ d ∈ devnames (initWifiCfg package), d.length < devnameSize := by
      intro d hd
      rw [hslots] at hd
      rcases List.mem_append.mp hd with hd | hd
      · obtain ⟨s, hs, rfl⟩ := List.mem_map.mp hd
        have hlt : ¬ long s = true := List.find?_eq_none.mp hfind s hs
        rw [List.length_take]
        simp only [long, decide_eq_true_eq] at hlt
        omega
      · rw [List.eq_of_mem_replicate hd]
        decide
    exact fun cfg hcfg => hshort cfg.devname (List.mem_map_of_mem hcfg)
  | some s =>
    obtain ⟨hlong, before, after, hsplit, hbefore⟩ := List.find?_eq_some_iff_append.mp hfind
    have hdevices : package.filter isDevice =
        before ++ s :: (after ++ (package.filter isDevice).drop devnumMax) := by
      conv_lhs => rw [← List.take_append_drop devnumMax (package.filter isDevice), hsplit]
      simp
    rw [hsplit, List.map_append, List.map_cons, List.append_assoc, List.cons_append] at hslots
    have hclaimed : ∀ t ∈ before, findDevice t.name cfgs ≠ some none := by
      intro t ht
      apply findDevice_claimed
      rw [hcfgs, hslots]
      exact List.mem_append_left _ (List.mem_map.mpr ⟨t, ht, rfl⟩)
    have hnone : findDevice s.name cfgs = none := by
      apply findDevice_long (by simpa [long] using hlong) ?_ (hcfgs.trans hslots)
      intro d hd
      obtain ⟨t, ht, rfl⟩ := List.mem_map.mp hd
      have hlt := hbefore t ht
      simp only [long, Bool.not_eq_true', decide_eq_false_iff_not] at hlt
      rw [List.length_take]
      omega
    rw [hdevices, parseDevices_eq_none hclaimed hnone] at h
    cases h

/-- The packages that `parse_uci` gets through. -/
theorem parseUci_isSome_iff (hnames : ∀ s ∈ package, s.name ≠ [])
    (hcfgs : devnames cfgs = devnames (initWifiCfg package)) (hnew : ∀ cfg ∈ cfgs, cfg.vifnum = 0) :
    (∃ cfgs', parseUci cfgs package = some cfgs') ↔
      ShortNames (initWifiCfg package) ∧
        IfacesFit (devnames (initWifiCfg package)) (package.filter isIface) := by
  have hifaces {mid : List WifiParams} (hshort : ShortNames (initWifiCfg package))
      (hmid : parseDevices cfgs (package.filter isDevice) = some mid) :
      (∃ cfgs', parseIfaces mid (package.filter isIface) = some cfgs') ↔
        IfacesFit (devnames (initWifiCfg package)) (package.filter isIface) := by
    let Same (cfg cfg' : WifiParams) : Prop :=
      cfg'.devname = cfg.devname ∧ cfg'.vifnum = cfg.vifnum
    have hsame : List.Forall₂ Same cfgs mid :=
      parseDevices_slots (fun _ => ⟨rfl, rfl⟩)
        (fun _ _ _ h h' => ⟨h'.1.trans h.1, h'.2.trans h.2⟩) (fun _ _ => ⟨rfl, rfl⟩) hmid
    have hmidnames : devnames mid = devnames (initWifiCfg package) := by
      rw [← hcfgs]
      clear hmid hcfgs hnew
      induction hsame with
      | nil => rfl
      | cons h _ ih => exact List.cons_eq_cons.mpr ⟨h.1, ih⟩
    have hunused (device : List U8) : usedBy device mid = 0 := by
      unfold usedBy
      cases hfind : mid.find? fun cfg => device = cfg.devname with
      | none => rfl
      | some cfg =>
        obtain ⟨i, hi, rfl⟩ := List.getElem_of_mem (List.mem_of_find?_eq_some hfind)
        have hi' : i < cfgs.length := hsame.length_eq ▸ hi
        exact (hsame.get hi' hi).2.trans (hnew _ (List.getElem_mem hi'))
    have hroom (device : List U8) : usedBy device mid ≤ mbssidMax := by
      rw [hunused]
      exact Nat.zero_le _
    rw [parseIfaces_isSome_iff _ (hshort.congr hmidnames) hroom, hmidnames]
    simp only [hunused, Nat.zero_add]
    rfl
  constructor
  · rintro ⟨cfgs', h⟩
    obtain ⟨mid, hmid, hrest⟩ := Option.bind_eq_some_iff.mp h
    have hshort := shortNames_of_parseDevices hnames hcfgs hmid
    exact ⟨hshort, (hifaces hshort hmid).mp ⟨cfgs', hrest⟩⟩
  · rintro ⟨hshort, hfit⟩
    obtain ⟨mid, hmid⟩ := parseDevices_isSome (package.filter isDevice) (hshort.congr hcfgs)
    obtain ⟨cfgs', hrest⟩ := (hifaces hshort hmid).mpr hfit
    exact ⟨cfgs', Option.bind_eq_some_iff.mpr ⟨mid, hmid, hrest⟩⟩

end Devices

end OpenwrtMtk.Uci2dat
