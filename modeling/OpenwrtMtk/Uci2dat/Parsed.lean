import OpenwrtMtk.Lib.Lists
import OpenwrtMtk.Uci2dat.Config

/-!
# Parsing the wireless package

`init_wifi_cfg` and `parse_uci`. A device name that fills its buffer is not terminated: a comparison
that gets past it has no result, and neither has an interface without a device, nor a fifth
interface of one device.
-/

namespace OpenwrtMtk.Uci2dat

open Toolkit

set_option autoImplicit false

section Devices

/-- `0 == strcmp(name, devname)` for the `devname` of a configuration. -/
def sameName (name devname : List U8) : Option Bool :=
  if devname.length = devnameSize ∧ name.take devnameSize = devname then none
  else some (name = devname)

def findDevice (name : List U8) : List WifiParams → Option (Option Nat)
  | [] => some none
  | cfg :: cfgs => do
    if ← sameName name cfg.devname then some (some 0)
    else
      let i ← findDevice name cfgs
      return i.map (· + 1)

/-- `strncpy(devname, name, sizeof(devname))` into the first slot without a name. -/
def claimSlot (name : List U8) : List WifiParams → Option (List WifiParams)
  | [] => none
  | cfg :: cfgs =>
    if cfg.devname = [] then some ({ cfg with devname := name.take devnameSize } :: cfgs)
    else (claimSlot name cfgs).map (cfg :: ·)

def isDevice (s : Section) : Bool := s.type = bytes "wifi-device"

def isIface (s : Section) : Bool := s.type = bytes "wifi-iface"

/-- The loop of `init_wifi_cfg` over the devices, up to the first for which no slot is left. -/
def claimSlots (cfgs : List WifiParams) : List Section → List WifiParams
  | [] => cfgs
  | s :: sections =>
    match claimSlot s.name cfgs with
    | some cfgs => claimSlots cfgs sections
    | none => cfgs

def initWifiCfg (package : Package) : List WifiParams :=
  claimSlots (List.replicate devnumMax ⟨[], cfgElements, 0, fun _ => vif⟩) (package.filter isDevice)

end Devices

section Interfaces

/-- `0 == strncmp(constant, value, strlen(constant))`. -/
def begins (value : List U8) (constant : String) : Bool := (bytes constant).isPrefixOf value

/-- The cipher that follows in the option `encryption`. -/
def cipherBehind : List U8 → List U8
  | 0x2b :: c :: p => c :: p
  | _ => bytes "tkip+ccmp"

def secured (v : Vif) (value : List U8) (constant authmode : String) : Vif :=
  { v with
    authmode := some (bytes authmode)
    cipher := some (cipherBehind (value.drop (bytes constant).length)) }

def fixedCipher (v : Vif) (authmode cipher : String) : Vif :=
  { v with authmode := some (bytes authmode), cipher := some (bytes cipher) }

/-- The option `encryption`. -/
def encryption (v : Vif) (value : List U8) : Vif :=
  let v := if begins value "8021x" then fixedCipher v "8021x" "wep" else v
  if begins value "none" then fixedCipher v "none" "NONE"
  else if begins value "wep-open" then fixedCipher v "wep-open" "wep"
  else if begins value "wep-shared" then fixedCipher v "wep-shared" "wep"
  else if begins value "mixed-psk" then secured v value "mixed-psk" "psk-mixed"
  else if begins value "psk" then
    if begins value "psk-mixed" then secured v value "psk-mixed" "psk-mixed"
    else if begins value "psk+psk2" then secured v value "psk+psk2" "psk-mixed"
    else if begins value "psk2" then secured v value "psk2" "psk2"
    else secured v value "psk" "psk"
  else if begins value "wpa" then
    if begins value "wpa-mixed" then secured v value "wpa-mixed" "wpa-mixed"
    else if begins value "wpa+wpa2" then secured v value "wpa+wpa2" "wpa-mixed"
    else if begins value "wpa2" then secured v value "wpa2" "wpa2"
    else secured v value "wpa" "wpa"
  else v

def parseVif (v : Vif) (s : Section) : Vif :=
  let v := { v with
    ssid := (s.option "ssid").or v.ssid
    hidden := (s.option "hidden").or v.hidden
    key := (s.option "key").or v.key
    wepkey := fun i =>
      (if i < 4 then s.option (["key1", "key2", "key3", "key4"].getD i "") else none).or (v.wepkey i)
    authServer := (s.option "auth_server").or v.authServer
    authPort := (s.option "auth_port").or v.authPort
    authSecret := (s.option "auth_secret").or v.authSecret
    rekeyinteval := (s.option "rekeyinteval").or v.rekeyinteval
    preauth := (s.option "preauth").or v.preauth
    pmkcacheperiod := (s.option "pmkcacheperiod").or v.pmkcacheperiod }
  match s.option "encryption" with
  | some value => encryption v value
  | none => v

def addIface (cfg : WifiParams) (s : Section) : WifiParams :=
  { cfg with
    vifs := Function.update cfg.vifs cfg.vifnum (parseVif (cfg.vifs cfg.vifnum) s)
    vifnum := cfg.vifnum + 1 }

end Interfaces

section ParseUci

def setParams (cfg : WifiParams) (s : Section) : WifiParams :=
  { cfg with params := cfg.params.map fun p =>
      { p with value := (p.uciKey.bind s.option).or p.value } }

def parseDevices (cfgs : List WifiParams) : List Section → Option (List WifiParams)
  | [] => some cfgs
  | s :: sections => do
    match ← findDevice s.name cfgs with
    | none => return cfgs
    | some i => parseDevices (cfgs.modify i (setParams · s)) sections

/-- The loop over the interfaces, up to the first whose device is not found. -/
def parseIfaces (cfgs : List WifiParams) : List Section → Option (List WifiParams)
  | [] => some cfgs
  | s :: sections => do
    let device ← s.option "device"
    match ← findDevice device cfgs with
    | none => return cfgs
    | some i =>
      let cfg ← cfgs[i]?
      if mbssidMax ≤ cfg.vifnum then none
      else parseIfaces (cfgs.modify i (addIface · s)) sections

def parseUci (cfgs : List WifiParams) (package : Package) : Option (List WifiParams) := do
  let cfgs ← parseDevices cfgs (package.filter isDevice)
  parseIfaces cfgs (package.filter isIface)

end ParseUci

end OpenwrtMtk.Uci2dat

/-!
## What parsing the package does to a device

Every slot of `wifi_cfg` is changed by the options of its own sections alone: the values of the
known options, and one interface for each section of an interface.
-/

namespace OpenwrtMtk.Uci2dat

open Toolkit

set_option autoImplicit false

section Slots

variable {R : WifiParams → WifiParams → Prop}

variable {cfgs cfgs' : List WifiParams} {sections : List Section}

theorem parseDevices_slots (hrefl : ∀ cfg, R cfg cfg) (htrans : ∀ a b c, R a b → R b c → R a c)
    (hstep : ∀ cfg s, R cfg (setParams cfg s)) (h : parseDevices cfgs sections = some cfgs') :
    List.Forall₂ R cfgs cfgs' := by
  have hself (cfgs : List WifiParams) : List.Forall₂ R cfgs cfgs :=
    List.forall₂_same.mpr fun cfg _ => hrefl cfg
  induction sections generalizing cfgs with
  | nil =>
    cases h
    exact hself _
  | cons s sections ih =>
    obtain ⟨found, -, h⟩ := Option.bind_eq_some_iff.mp h
    cases found with
    | none =>
      cases h
      exact hself _
    | some i => exact forall₂_trans htrans (forall₂_modify hrefl fun cfg _ => hstep cfg s) (ih h)

theorem parseIfaces_slots (hrefl : ∀ cfg, R cfg cfg) (htrans : ∀ a b c, R a b → R b c → R a c)
    (hstep : ∀ cfg, ∀ s ∈ sections, cfg.vifnum < mbssidMax → R cfg (addIface cfg s))
    (h : parseIfaces cfgs sections = some cfgs') : List.Forall₂ R cfgs cfgs' := by
  have hself (cfgs : List WifiParams) : List.Forall₂ R cfgs cfgs :=
    List.forall₂_same.mpr fun cfg _ => hrefl cfg
  induction sections generalizing cfgs with
  | nil =>
    cases h
    exact hself _
  | cons s sections ih =>
    obtain ⟨device, -, h⟩ := Option.bind_eq_some_iff.mp h
    obtain ⟨found, -, h⟩ := Option.bind_eq_some_iff.mp h
    cases found with
    | none =>
      cases h
      exact hself _
    | some i =>
      obtain ⟨cfg, hcfg, h⟩ := Option.bind_eq_some_iff.mp h
      split at h
      · cases h
      · rename_i hroom
        refine forall₂_trans htrans (forall₂_modify hrefl fun cfg' hcfg' => ?_)
          (ih (fun cfg t ht => hstep cfg t (List.mem_cons_of_mem _ ht)) h)
        cases hcfg.symm.trans hcfg'
        exact hstep cfg s List.mem_cons_self (Nat.lt_of_not_le hroom)

end Slots

section Package

variable {package : Package}

theorem claimSlots_slots {P : WifiParams → Prop}
    (hP : ∀ cfg devname, P cfg → P { cfg with devname }) {cfgs : List WifiParams}
    (sections : List Section) (h : ∀ cfg ∈ cfgs, P cfg) :
    ∀ cfg ∈ claimSlots cfgs sections, P cfg := by
  induction sections generalizing cfgs with
  | nil => exact h
  | cons s sections ih =>
    rw [claimSlots]
    split
    · rename_i cfgs' hclaim
      refine ih ?_
      clear ih
      induction cfgs generalizing cfgs' with
      | nil => cases hclaim
      | cons cfg cfgs ihc =>
        have hcfg := h cfg List.mem_cons_self
        have hrest := fun c hc => h c (List.mem_cons_of_mem _ hc)
        rw [claimSlot] at hclaim
        split at hclaim
        · cases hclaim
          intro c hc
          rcases List.mem_cons.mp hc with rfl | hc
          · exact hP cfg _ hcfg
          · exact hrest c hc
        · obtain ⟨cfgs'', hclaimed, rfl⟩ := Option.map_eq_some_iff.mp hclaim
          intro c hc
          rcases List.mem_cons.mp hc with rfl | hc
          · exact hcfg
          · exact ihc hrest cfgs'' hclaimed c hc
    · exact h

theorem initWifiCfg_slots (package : Package) :
    ∀ cfg ∈ initWifiCfg package, cfg.params = cfgElements ∧ cfg.vifnum = 0 ∧ cfg.vifs = fun _ => vif := by
  apply claimSlots_slots
  · exact fun cfg devname h => h
  · intro cfg hcfg
    rw [List.eq_of_mem_replicate hcfg]
    exact ⟨rfl, rfl, rfl⟩

def configured (devname : List U8) (params : List Param) (sections : List Section) : WifiParams :=
  sections.foldl addIface ⟨devname, params, 0, fun _ => vif⟩

theorem foldl_addIface_vifnum (sections : List Section) (cfg : WifiParams) :
    (sections.foldl addIface cfg).vifnum = cfg.vifnum + sections.length := by
  induction sections generalizing cfg with
  | nil => rfl
  | cons s sections ih =>
    rw [List.foldl_cons, ih, List.length_cons]
    show cfg.vifnum + 1 + sections.length = _
    omega

theorem parseUci_configured {cfgs : List WifiParams}
    (h : parseUci (initWifiCfg package) package = some cfgs) :
    ∀ cfg ∈ cfgs, ∃ devname params sections, (∀ s ∈ sections, s ∈ package) ∧
      sections.length ≤ mbssidMax ∧ cfg = configured devname params sections := by
  obtain ⟨mid, hdevices, hifaces⟩ := Option.bind_eq_some_iff.mp h
  let Untouched (cfg cfg' : WifiParams) : Prop := cfg'.vifnum = cfg.vifnum ∧ cfg'.vifs = cfg.vifs
  have hfirst : List.Forall₂ Untouched (initWifiCfg package) mid :=
    parseDevices_slots (fun _ => ⟨rfl, rfl⟩)
      (fun _ _ _ h h' => ⟨h'.1.trans h.1, h'.2.trans h.2⟩) (fun _ _ => ⟨rfl, rfl⟩) hdevices
  let Grown (cfg cfg' : WifiParams) : Prop := ∃ sections : List Section,
    (∀ s ∈ sections, s ∈ package) ∧ (cfg.vifnum ≤ mbssidMax → cfg'.vifnum ≤ mbssidMax) ∧
      cfg' = sections.foldl addIface cfg
  have hsecond : List.Forall₂ Grown mid cfgs := by
    refine parseIfaces_slots (fun cfg => ⟨[], by simp, id, rfl⟩) ?_ ?_ hifaces
    · rintro a b c ⟨s, hs, hroom, rfl⟩ ⟨s', hs', hroom', rfl⟩
      refine ⟨s ++ s', ?_, fun h => hroom' (hroom h), (List.foldl_append).symm⟩
      intro t ht
      exact (List.mem_append.mp ht).elim (hs t) (hs' t)
    · intro cfg s hs hroom
      exact ⟨[s], by simpa using List.mem_of_mem_filter hs, fun _ => hroom, rfl⟩
  intro cfg hcfg
  obtain ⟨j, hj, rfl⟩ := List.getElem_of_mem hcfg
  have hmid : j < mid.length := hsecond.length_eq ▸ hj
  have hinit : j < (initWifiCfg package).length := hfirst.length_eq ▸ hmid
  obtain ⟨sections, hs, hroom, hcfg⟩ := hsecond.get hmid hj
  obtain ⟨hnum, hvifs⟩ := hfirst.get hinit hmid
  obtain ⟨-, hzero, hfresh⟩ := initWifiCfg_slots package _ (List.getElem_mem hinit)
  rw [List.get_eq_getElem, List.get_eq_getElem] at hcfg hnum hvifs hroom
  rw [hzero] at hnum
  rw [hfresh] at hvifs
  refine ⟨mid[j].devname, mid[j].params, sections, hs, ?_, ?_⟩
  · have hlen := hroom (by rw [hnum]; exact Nat.zero_le _)
    rwa [hcfg, foldl_addIface_vifnum, hnum, Nat.zero_add] at hlen
  · rw [hcfg, configured, ← hvifs, ← hnum]

end Package

section Names

variable {cfgs cfgs' : List WifiParams} {name : List U8}

def ShortNames (cfgs : List WifiParams) : Prop := ∀ cfg ∈ cfgs, cfg.devname.length < devnameSize

theorem sameName_short {devname : List U8} (h : devname.length < devnameSize) :
    sameName name devname = some (decide (name = devname)) :=
  if_neg fun hand => Nat.ne_of_lt h hand.1

theorem findDevice_short (h : ShortNames cfgs) :
    findDevice name cfgs = some (cfgs.findIdx? fun cfg => name = cfg.devname) := by
  induction cfgs with
  | nil => rfl
  | cons cfg cfgs ih =>
    rw [findDevice, sameName_short (h cfg List.mem_cons_self), List.findIdx?_cons]
    by_cases hname : name = cfg.devname
    · simp [hname]
    · rw [ih fun c hc => h c (List.mem_cons_of_mem _ hc)]
      simp [hname]

theorem findDevice_congr (h : cfgs.map WifiParams.devname = cfgs'.map WifiParams.devname) :
    findDevice name cfgs = findDevice name cfgs' := by
  induction cfgs generalizing cfgs' with
  | nil =>
    cases cfgs' with
    | nil => rfl
    | cons _ _ => cases h
  | cons cfg cfgs ih =>
    cases cfgs' with
    | nil => cases h
    | cons cfg' cfgs' =>
      obtain ⟨hhead, htail⟩ := List.cons.inj h
      rw [findDevice, findDevice, hhead, ih htail]

theorem ShortNames.congr (h : ShortNames cfgs)
    (heq : cfgs'.map WifiParams.devname = cfgs.map WifiParams.devname) : ShortNames cfgs' := by
  intro cfg hcfg
  have hmem : cfg.devname ∈ cfgs.map WifiParams.devname := heq ▸ List.mem_map_of_mem hcfg
  obtain ⟨cfg', hcfg', hname⟩ := List.mem_map.mp hmem
  exact hname ▸ h cfg' hcfg'

theorem devname_modify (cfgs : List WifiParams) (i : Nat) {f : WifiParams → WifiParams}
    (hf : ∀ cfg, (f cfg).devname = cfg.devname) :
    (cfgs.modify i f).map WifiParams.devname = cfgs.map WifiParams.devname := by
  induction cfgs generalizing i with
  | nil => cases i <;> rfl
  | cons cfg cfgs ih =>
    cases i with
    | zero => exact congrArg (· :: _) (hf cfg)
    | succ i => exact congrArg (cfg.devname :: ·) (ih i)

theorem parseDevices_isSome (sections : List Section) (h : ShortNames cfgs) :
    ∃ cfgs', parseDevices cfgs sections = some cfgs' := by
  induction sections generalizing cfgs with
  | nil => exact ⟨cfgs, rfl⟩
  | cons s sections ih =>
    rw [parseDevices, findDevice_short h]
    cases cfgs.findIdx? fun cfg => s.name = cfg.devname with
    | none => exact ⟨cfgs, rfl⟩
    | some i => exact ih (h.congr (devname_modify cfgs i fun _ => rfl))

end Names

end OpenwrtMtk.Uci2dat
