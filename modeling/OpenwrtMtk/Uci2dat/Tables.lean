import OpenwrtMtk.Lib.Checked
import OpenwrtMtk.Lib.Loops
import OpenwrtMtk.Nvram.Crc32
import OpenwrtMtk.Uci2dat.Accepted

/-!
# The tables of uci2dat

`init_wifi_cfg`, `parse_uci` and `hooker` with the accesses that they make: to a slot of `wifi_cfg`,
to one of the `vifs` of a slot, and to the strings that they compare. What a null pointer points to
is outside, as is an index at the size of its table.
-/

namespace OpenwrtMtk.Uci2dat

open Toolkit

set_option autoImplicit false

section Accesses

/-- `wifi_cfg[i]`. -/
def slotAt (cfgs : List WifiParams) (i : Nat) : Checked WifiParams := orOutside cfgs[i]?

/-- `vifs[j]`. -/
def vifAt (cfg : WifiParams) (j : Nat) : Checked Vif :=
  if j < mbssidMax then .ok (cfg.vifs j) else .error .outside

/-- What `strcmp` reads of a `devname`. A name that fills its buffer goes on with the bytes of the
pointer `params` and with those of `vifnum`, up to the first zero. -/
def nameText (params devname : List U8) (vifnum : Nat) : List U8 :=
  if devname.length < devnameSize then devname
  else devname ++ (params ++ Nvram.le32 (BitVec.ofNat 32 vifnum)).takeWhile (· ≠ 0)

/-- The loops over the slots that leave at this name. `ptr` has the bytes of the pointers. -/
def searchSlot (ptr : Nat → List U8) (cfgs : List WifiParams) (name : List U8) (n : Nat) :
    Checked (Option Nat) :=
  search (fun i => do
    let cfg ← slotAt cfgs i
    return if name = nameText (ptr i) cfg.devname cfg.vifnum then some i else none) n

end Accesses

section Parse

/-- The loop that leaves at the first slot without a name. -/
def searchFree (cfgs : List WifiParams) : Checked (Option Nat) :=
  search (fun i => do
    let cfg ← slotAt cfgs i
    return if cfg.devname = [] then some i else none) devnumMax

def claimSlotsIn (cfgs : List WifiParams) : List Section → Checked (List WifiParams)
  | [] => return cfgs
  | s :: sections => do
    match ← searchFree cfgs with
    | none => return cfgs
    | some i =>
      claimSlotsIn (cfgs.modify i fun cfg => { cfg with devname := s.name.take devnameSize })
        sections

def initWifiCfgIn (package : Package) : Checked (List WifiParams) :=
  claimSlotsIn (List.replicate devnumMax ⟨[], cfgElements, 0, fun _ => vif⟩)
    (package.filter isDevice)

variable (ptr : Nat → List U8)

def parseDevicesIn (cfgs : List WifiParams) : List Section → Checked (List WifiParams)
  | [] => return cfgs
  | s :: sections => do
    match ← searchSlot ptr cfgs s.name devnumMax with
    | none => return cfgs
    | some i => parseDevicesIn (cfgs.modify i (setParams · s)) sections

def parseIfacesIn (cfgs : List WifiParams) : List Section → Checked (List WifiParams)
  | [] => return cfgs
  | s :: sections => do
    -- the option may be missing, and is compared all the same
    let device ← orOutside (s.option "device")
    match ← searchSlot ptr cfgs device devnumMax with
    | none => return cfgs
    | some i => do
      let cfg ← slotAt cfgs i
      let _ ← vifAt cfg cfg.vifnum
      parseIfacesIn (cfgs.modify i (addIface · s)) sections

def parseUciIn (cfgs : List WifiParams) (package : Package) : Checked (List WifiParams) := do
  let cfgs ← parseDevicesIn ptr cfgs (package.filter isDevice)
  parseIfacesIn ptr cfgs (package.filter isIface)

end Parse

section Hook

/-- A loop over `vifnum` reads each of the interfaces that it gets to. -/
def usedIn (cfg : WifiParams) : Checked (List Vif) := (List.range cfg.vifnum).mapM (vifAt cfg)

def loopIn (print : List Vif → List U8) (cfg : WifiParams) : Checked (List U8) := do
  let vs ← usedIn cfg
  return print vs

/-- `hooker` behind its search for the slot. -/
def hookerIn (cfg : WifiParams) (datKey : String) (value : List U8) : Checked (List U8) :=
  if strmatch datKey "SSID?" then
    match vifIndex datKey 4 with
    | none => return []
    | some i => do
      let v ← vifAt cfg i
      return fprint v.ssid
  else if datKey = "BssidNum" then return Luci.digits cfg.vifnum
  else if datKey = "EncrypType" then loopIn (separated encrypType) cfg
  else if datKey = "AuthMode" then loopIn (separated authMode) cfg
  else if datKey = "HideSSID" then loopIn (separated hideSSID) cfg
  else if datKey = "Channel" then return if value = bytes "auto" then bytes "0" else value
  else if datKey = "AutoChannelSelect" then
    return if value = bytes "0" then bytes "2" else bytes "0"
  else if datKey = "HT_BW" then return if value = bytes "0" then bytes "0" else bytes "1"
  else if datKey = "VHT_BW" then
    return if value = bytes "2" then bytes "1"
      else if value = bytes "3" then bytes "2"
      else if value = bytes "4" then bytes "3"
      else bytes "0"
  else if strmatch datKey "WPAPSK?" then
    match vifIndex datKey 6 with
    | none => return []
    | some i => do
      let v ← vifAt cfg i
      match v.authmode with
      | none => return []
      | some authmode => return if isPsk authmode then fprint v.key else []
  else if datKey = "RADIUS_Server" then loopIn (separated fun v => fprint v.authServer) cfg
  else if datKey = "RADIUS_Port" then loopIn (separated fun v => fprint v.authPort) cfg
  else if strmatch datKey "RADIUS_Key?" then
    match vifIndex datKey 10 with
    | none => return []
    | some i => do
      let v ← vifAt cfg i
      return fprint v.authSecret
  else if datKey = "PreAuth" then loopIn (separated fun v => fprint v.preauth) cfg
  else if datKey = "RekeyInterval" then loopIn (separated fun v => fprint v.rekeyinteval) cfg
  else if datKey = "PMKCachePeriod" then loopIn (separated fun v => fprint v.pmkcacheperiod) cfg
  else if datKey = "IEEE8021X" then loopIn (separated ieee8021X) cfg
  else if strmatch datKey "DefaultKeyID" then loopIn (fun vs => vs.flatMap defaultKeyID) cfg
  else if strmatch datKey "Key?Type" then loopIn (terminated (keyType (atoi datKey 3 - 1))) cfg
  else if strmatch datKey "Key?Str?" then
    -- a fixed index of a known key
    return match (cfg.vifs (atoi datKey 7 - 1)).wepkey (atoi datKey 3 - 1) with
      | none => []
      | some key => unmarked key
  else if datKey = "ETxBfIncapable" then return txbf cfg "0" "0" "1" "1"
  else if datKey = "ITxBfEn" then return txbf cfg "1" "0" "1" "0"
  else if datKey = "ETxBfEnCond" then return txbf cfg "1" "1" "0" "0"
  else return value

/-- A call of `hooker`, and what it leaves of the table. -/
def callHooker (ptr : Nat → List U8) (cfgs : List WifiParams) (devname : List U8)
    (entry : String × List U8) : Checked (List U8 × List WifiParams) := do
  match ← searchSlot ptr cfgs devname mbssidMax with
  | none => return ([], cfgs)
  | some i => do
    let cfg ← slotAt cfgs i
    let line ← hookerIn cfg entry.1 entry.2
    return (line, cfgs.modify i (hookerEffect · entry.1))

def callHookers (ptr : Nat → List U8) (cfgs : List WifiParams) (devname : List U8) :
    List (String × List U8) → Checked (List WifiParams)
  | [] => return cfgs
  | entry :: entries => do
    let r ← callHooker ptr cfgs devname entry
    callHookers ptr r.2 devname entries

end Hook

/-- The whole of `main`: between the two scans of the package `parse_dat` sets values of `params`,
and the hooks are called behind them. -/
def InTables (ptr : Nat → List U8) (dat : WifiParams → List Param) (package : Package) : Prop :=
  ∃ cfgs cfgs', initWifiCfgIn package = .ok cfgs ∧
    parseUciIn ptr (cfgs.map fun cfg => { cfg with params := dat cfg }) package = .ok cfgs' ∧
    ∀ devname entries, Ends (callHookers ptr cfgs' devname entries)

section Lists

theorem findSome?_range {α : Type} {p : α → Bool} {q : Nat → Option Nat} {k : Nat} (xs : List α)
    (h : ∀ i x, xs[i]? = some x → q i = if p x then some (i + k) else none) :
    (List.range xs.length).findSome? q = (xs.findIdx? p).map (· + k) := by
  induction xs generalizing q k with
  | nil => rfl
  | cons x xs ih =>
    rw [List.length_cons, List.range_succ_eq_map, List.findSome?_cons, h 0 x rfl,
      List.findIdx?_cons, List.findSome?_map]
    by_cases hx : p x = true
    · rw [if_pos hx, if_pos hx, Nat.zero_add, Option.map_some, Nat.zero_add]
    · rw [if_neg hx, if_neg hx]
      have hrest : ∀ i y, xs[i]? = some y →
          (q ∘ Nat.succ) i = if p y then some (i + (k + 1)) else none := by
        intro i y hy
        rw [Function.comp_apply, h (i + 1) y hy, Nat.succ_add_eq_add_succ]
      change List.findSome? (q ∘ Nat.succ) (List.range xs.length) = _
      rw [ih hrest, Option.map_map]
      congr 1
      funext i
      change i + (k + 1) = i + 1 + k
      omega

theorem findSome?_range_length {α : Type} {p : α → Bool} {q : Nat → Option Nat} (xs : List α)
    (h : ∀ i x, xs[i]? = some x → q i = if p x then some i else none) :
    (List.range xs.length).findSome? q = xs.findIdx? p :=
  (findSome?_range (k := 0) xs h).trans Option.map_id'

theorem mapM_ok {α β : Type} {f : α → Checked β} {g : α → β} {xs : List α}
    (h : ∀ x ∈ xs, f x = .ok (g x)) : xs.mapM f = .ok (xs.map g) := by
  induction xs with
  | nil => rfl
  | cons x xs ih =>
    rw [List.mapM_cons, bind_ok (h x List.mem_cons_self),
      bind_ok (ih fun y hy => h y (List.mem_cons_of_mem x hy))]
    rfl

end Lists

def vifnums (cfgs : List WifiParams) : List Nat := cfgs.map WifiParams.vifnum

section Slots

variable {ptr : Nat → List U8} {cfgs : List WifiParams}

theorem slotAt_ok {i : Nat} (hi : i < cfgs.length) : slotAt cfgs i = .ok cfgs[i] := by
  rw [slotAt, List.getElem?_eq_getElem hi]
  rfl

def slotOf (ptr : Nat → List U8) (names : List (List U8)) (counts : List Nat) (device : List U8) :
    Option Nat :=
  (List.range devnumMax).findSome? fun i =>
    if device = nameText (ptr i) (names.getD i []) (counts.getD i 0) then some i else none

theorem searchSlot_eq (hlength : cfgs.length = devnumMax) (name : List U8) :
    searchSlot ptr cfgs name devnumMax =
      .ok (slotOf ptr (devnames cfgs) (vifnums cfgs) name) := by
  apply search_eq
  intro i hi
  have hi' : i < cfgs.length := hlength ▸ hi
  have hname : (devnames cfgs).getD i [] = cfgs[i].devname := by
    rw [devnames, List.getD_eq_getElem?_getD, List.getElem?_map, List.getElem?_eq_getElem hi']
    rfl
  have hcount : (vifnums cfgs).getD i 0 = cfgs[i].vifnum := by
    rw [vifnums, List.getD_eq_getElem?_getD, List.getElem?_map, List.getElem?_eq_getElem hi']
    rfl
  rw [bind_ok (slotAt_ok hi'), hname, hcount]
  rfl

theorem slotOf_lt {names : List (List U8)} {counts : List Nat} {device : List U8} {i : Nat}
    (h : slotOf ptr names counts device = some i) : i < devnumMax := by
  obtain ⟨j, hj, hhit⟩ := List.exists_of_findSome?_eq_some h
  split at hhit
  · cases hhit
    exact List.mem_range.mp hj
  · cases hhit

theorem slotOf_short (hlength : cfgs.length = devnumMax) (hshort : ShortNames cfgs)
    (device : List U8) : slotOf ptr (devnames cfgs) (vifnums cfgs) device =
      cfgs.findIdx? fun cfg => device = cfg.devname := by
  have hrange := findSome?_range_length (p := fun cfg => decide (device = cfg.devname))
    (q := fun i => if device = nameText (ptr i) ((devnames cfgs).getD i [])
      ((vifnums cfgs).getD i 0) then some i else none) cfgs (by
    intro i cfg hcfg
    have hname : (devnames cfgs).getD i [] = cfg.devname := by
      rw [devnames, List.getD_eq_getElem?_getD, List.getElem?_map, hcfg]
      rfl
    rw [hname, nameText, if_pos (hshort cfg (List.mem_of_getElem? hcfg))]
    simp only [decide_eq_true_eq])
  rw [hlength] at hrange
  exact hrange

end Slots

section Init

variable {cfgs : List WifiParams}

theorem claimSlot_eq (name : List U8) : claimSlot name cfgs =
    (cfgs.findIdx? fun cfg => cfg.devname = []).map fun i =>
      cfgs.modify i fun cfg => { cfg with devname := name.take devnameSize } := by
  induction cfgs with
  | nil => rfl
  | cons cfg cfgs ih =>
    rw [claimSlot, List.findIdx?_cons]
    by_cases hfree : cfg.devname = []
    · rw [if_pos hfree, if_pos (decide_eq_true hfree)]
      rfl
    · rw [if_neg hfree, if_neg (by simpa using hfree), ih, Option.map_map, Option.map_map]
      rfl

theorem searchFree_eq (hlength : cfgs.length = devnumMax) :
    searchFree cfgs = .ok (cfgs.findIdx? fun cfg => cfg.devname = []) := by
  have hrange := findSome?_range_length (p := fun cfg => decide (cfg.devname = []))
    (q := fun i => if (cfgs.getD i ⟨[], [], 0, fun _ => vif⟩).devname = [] then some i else none)
    cfgs (by
      intro i cfg hcfg
      rw [List.getD_eq_getElem?_getD, hcfg]
      simp only [Option.getD_some, decide_eq_true_eq])
  rw [hlength] at hrange
  rw [← hrange]
  apply search_eq
  intro i hi
  have hi' : i < cfgs.length := hlength ▸ hi
  rw [bind_ok (slotAt_ok hi'), List.getD_eq_getElem?_getD, List.getElem?_eq_getElem hi']
  rfl

theorem claimSlotsIn_eq (sections : List Section) (hlength : cfgs.length = devnumMax) :
    claimSlotsIn cfgs sections = .ok (claimSlots cfgs sections) := by
  induction sections generalizing cfgs with
  | nil => rfl
  | cons s sections ih =>
    rw [claimSlotsIn, claimSlots, bind_ok (searchFree_eq hlength), claimSlot_eq]
    cases cfgs.findIdx? fun cfg => cfg.devname = [] with
    | none => rfl
    | some i =>
      apply ih
      rw [List.length_modify]
      exact hlength

theorem initWifiCfgIn_eq (package : Package) :
    initWifiCfgIn package = .ok (initWifiCfg package) :=
  claimSlotsIn_eq _ (List.length_replicate ..)

theorem length_claimSlots (sections : List Section) :
    (claimSlots cfgs sections).length = cfgs.length := by
  induction sections generalizing cfgs with
  | nil => rfl
  | cons s sections ih =>
    rw [claimSlots, claimSlot_eq]
    cases cfgs.findIdx? fun cfg => cfg.devname = [] with
    | none => rfl
    | some i => exact ih.trans (List.length_modify ..)

theorem length_initWifiCfg (package : Package) : (initWifiCfg package).length = devnumMax :=
  (length_claimSlots _).trans (List.length_replicate ..)

end Init

end OpenwrtMtk.Uci2dat
