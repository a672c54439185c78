import Mathlib.Logic.Function.Basic
import OpenwrtMtk.Lib.Bytes
import OpenwrtMtk.Luci.Characters

/-!
# Configuration of uci2dat

What `uci2dat.c` keeps for each wireless device: a value for every DAT key that it knows, and the
options of up to four virtual interfaces. The default values are printed for debugging only and are
left out.
-/

namespace OpenwrtMtk.Uci2dat

open Toolkit

set_option autoImplicit false

def bytes (s : String) : List U8 := s.toByteArray.data.toList.map UInt8.toBitVec

/-- `param`; there is one hook, `hooker`. -/
structure Param where
  datKey : Option String
  uciKey : Option String
  value : Option (List U8)
  hook : Bool
  deriving DecidableEq

structure Vif where
  ssid : Option (List U8)
  authmode : Option (List U8)
  hidden : Option (List U8)
  cipher : Option (List U8)
  key : Option (List U8)
  wepkey : Nat → Option (List U8)
  authServer : Option (List U8)
  authPort : Option (List U8)
  authSecret : Option (List U8)
  rekeyinteval : Option (List U8)
  preauth : Option (List U8)
  pmkcacheperiod : Option (List U8)

/-- `wifi_params`. -/
structure WifiParams where
  devname : List U8
  params : List Param
  vifnum : Nat
  vifs : Nat → Vif

/-- A section of a UCI package. -/
structure Section where
  type : List U8
  name : List U8
  options : List (List U8 × List U8)

abbrev Package := List Section

/-- `uci_lookup_option_string`. -/
def Section.option (s : Section) (key : String) : Option (List U8) := s.options.lookup (bytes key)

def devnumMax : Nat := 4

def mbssidMax : Nat := 4

/-- `sizeof(wifi_cfg[i].devname)`. -/
def devnameSize : Nat := 16

/-- `VIF`. -/
def vif : Vif where
  ssid := none
  authmode := none
  hidden := none
  cipher := none
  key := none
  wepkey := fun _ => none
  authServer := some (bytes "0")
  authPort := some (bytes "1812")
  authSecret := none
  rekeyinteval := none
  preauth := none
  pmkcacheperiod := none

def hooked (datKey : String) (uciKey : Option String) : Param := ⟨datKey, uciKey, none, true⟩

def unhooked (datKey : String) : Param := ⟨datKey, none, none, false⟩

/-- `CFG_ELEMENTS`. -/
def cfgElements : List Param :=
  [hooked "CountryRegion" "region", hooked "CountryRegionABand" "aregion",
   hooked "CountryCode" "country", hooked "BssidNum" none, hooked "SSID1" none, hooked "SSID2" none,
   hooked "SSID3" none, hooked "SSID4" none, hooked "WirelessMode" "wifimode",
   hooked "TxRate" "txrate", hooked "Channel" "channel", hooked "BasicRate" "basicrate",
   hooked "BeaconPeriod" "beacon", hooked "DtimPeriod" "dtim", hooked "TxPower" "txpower",
   hooked "DisableOLBC" "disolbc", hooked "BGProtection" "bgprotect",
   hooked "TxAntenna" "txantenna", hooked "RxAntenna" "rxantenna", hooked "TxPreamble" "txpreamble",
   hooked "RTSThreshold" "rtsthres", hooked "FragThreshold" "fragthres", hooked "TxBurst" "txburst",
   hooked "PktAggregate" "pktaggre", hooked "TurboRate" "turborate", hooked "WmmCapable" "wmm",
   hooked "APSDCapable" "apsd", hooked "DLSCapable" "dls", hooked "APAifsn" "apaifsn",
   hooked "APCwmin" "apcwmin", hooked "APCwmax" "apcwmax", hooked "APTxop" "aptxop",
   hooked "APACM" "apacm", hooked "BSSAifsn" "bssaifsn", hooked "BSSCwmin" "bsscwmin",
   hooked "BSSCwmax" "bsscwmax", hooked "BSSTxop" "bsstxop", hooked "BSSACM" "bssacm",
   hooked "AckPolicy" "ackpolicy", hooked "NoForwarding" "noforward",
   unhooked "NoForwardingBTNBSSID", hooked "HideSSID" "hidden", unhooked "StationKeepAlive",
   hooked "ShortSlot" "shortslot", hooked "AutoChannelSelect" "channel",
   hooked "IEEE8021X" "ieee8021x", hooked "IEEE80211H" "ieee80211h", hooked "CSPeriod" "csperiod",
   hooked "WirelessEvent" "wirelessevent", hooked "IdsEnable" "idsenable",
   unhooked "AuthFloodThreshold", unhooked "AssocReqFloodThreshold",
   unhooked "ReassocReqFloodThreshold", unhooked "ProbeReqFloodThreshold",
   unhooked "DisassocFloodThreshold", unhooked "DeauthFloodThreshold",
   unhooked "EapReqFooldThreshold", hooked "PreAuth" "preauth", hooked "AuthMode" none,
   hooked "EncrypType" none, hooked "RekeyInterval" "rekeyinteval",
   hooked "PMKCachePeriod" "pmkcacheperiod", hooked "WPAPSK1" none, hooked "WPAPSK2" none,
   hooked "WPAPSK3" none, hooked "WPAPSK4" none, hooked "DefaultKeyID" none, hooked "Key1Type" none,
   hooked "Key1Str1" none, hooked "Key1Str2" none, hooked "Key1Str3" none, hooked "Key1Str4" none,
   hooked "Key2Type" none, hooked "Key2Str1" none, hooked "Key2Str2" none, hooked "Key2Str3" none,
   hooked "Key2Str4" none, hooked "Key3Type" none, hooked "Key3Str1" none, hooked "Key3Str2" none,
   hooked "Key3Str3" none, hooked "Key3Str4" none, hooked "Key4Type" none, hooked "Key4Str1" none,
   hooked "Key4Str2" none, hooked "Key4Str3" none, hooked "Key4Str4" none, unhooked "AccessPolicy0",
   unhooked "AccessControlList0", unhooked "AccessPolicy1", unhooked "AccessControlList1",
   unhooked "AccessPolicy2", unhooked "AccessControlList2", unhooked "AccessPolicy3",
   unhooked "AccessControlList3", hooked "WdsEnable" "wds_enable",
   hooked "WdsEncrypType" "wds_enctype", unhooked "WdsList", unhooked "Wds0Key", unhooked "Wds1Key",
   unhooked "Wds2Key", unhooked "Wds3Key", hooked "RADIUS_Server" "auth_server",
   hooked "RADIUS_Port" "auth_port", hooked "RADIUS_Key1" "radius_key1",
   hooked "RADIUS_Key2" "radius_key2", hooked "RADIUS_Key3" "radius_key2",
   hooked "RADIUS_Key4" "radius_key4", hooked "own_ip_addr" "own_ip_addr",
   hooked "EAPifname" "eapifname", hooked "PreAuthifname" "preauthifname", hooked "HT_HTC" "ht_htc",
   hooked "HT_RDG" "ht_rdg", hooked "HT_EXTCHA" "ht_extcha", hooked "HT_LinkAdapt" "ht_linkadapt",
   hooked "HT_OpMode" "ht_opmode", hooked "HT_MpduDensity" none, hooked "HT_BW" "bw",
   hooked "VHT_BW" "bw", hooked "VHT_Sec80_Channel" "vht2ndchannel", hooked "VHT_SGI" "vht_sgi",
   hooked "VHT_STBC" "vht_stbc", hooked "VHT_BW_SIGNAL" "vht_bw_sig",
   hooked "VHT_DisallowNonVHT" "vht_disnonvht", hooked "VHT_LDPC" "vht_ldpc",
   hooked "HT_AutoBA" "ht_autoba", hooked "HT_AMSDU" "ht_amsdu",
   hooked "HT_BAWinSize" "ht_bawinsize", hooked "HT_GI" "ht_gi", hooked "HT_MCS" "ht_mcs",
   hooked "WscManufacturer" "wscmanufacturer", hooked "WscModelName" "wscmodelname",
   hooked "WscDeviceName" "wscdevicename", hooked "WscModelNumber" "wscmodelnumber",
   hooked "WscSerialNumber" "wscserialnumber", hooked "FixedTxMode" "fixedtxmode",
   hooked "AutoProvisionEn" "autoprovision", hooked "FreqDelta" "freqdelta",
   hooked "CarrierDetect" "carrierdetect", hooked "ITxBfEn" none,
   hooked "PreAntSwitch" "preantswitch", hooked "PhyRateLimit" "phyratelimit",
   hooked "DebugFlags" "debugflags", hooked "ETxBfEnCond" none, unhooked "ITxBfTimeout",
   unhooked "ETxBfNoncompress", hooked "ETxBfIncapable" none, hooked "FineAGC" "fineagc",
   hooked "StreamMode" "streammode", unhooked "StreamModeMac0", unhooked "StreamModeMac1",
   unhooked "StreamModeMac2", unhooked "StreamModeMac3", unhooked "RDRegion",
   hooked "DfsLowerLimit" "dfs_lowlimit", hooked "DfsUpperLimit" "dfs_uplimit",
   hooked "DfsOutdoor" "dfs_outdoor", unhooked "SymRoundFromCfg", unhooked "BusyIdleFromCfg",
   unhooked "DfsRssiHighFromCfg", unhooked "DfsRssiLowFromCfg", unhooked "DFSParamFromConfig",
   unhooked "FCCParamCh0", unhooked "FCCParamCh1", unhooked "FCCParamCh2", unhooked "FCCParamCh3",
   unhooked "CEParamCh0", unhooked "CEParamCh1", unhooked "CEParamCh2", unhooked "CEParamCh3",
   unhooked "JAPParamCh0", unhooked "JAPParamCh1", unhooked "JAPParamCh2", unhooked "JAPParamCh3",
   unhooked "JAPW53ParamCh0", unhooked "JAPW53ParamCh1", unhooked "JAPW53ParamCh2",
   unhooked "JAPW53ParamCh3", hooked "FixDfsLimit" "fixdfslimit",
   hooked "LongPulseRadarTh" "lpsradarth", hooked "AvgRssiReq" "avgrssireq",
   hooked "DFS_R66" "dfs_r66", hooked "BlockCh" "blockch", hooked "GreenAP" "greenap",
   unhooked "WapiPsk1", unhooked "WapiPsk2", unhooked "WapiPsk3", unhooked "WapiPsk4",
   unhooked "WapiPsk5", unhooked "WapiPsk6", unhooked "WapiPsk7", unhooked "WapiPsk8",
   unhooked "WapiPskType", unhooked "Wapiifname", unhooked "WapiAsCertPath",
   unhooked "WapiUserCertPath", unhooked "WapiAsIpAddr", unhooked "WapiAsPort",
   hooked "RekeyMethod" "rekeymethod", hooked "MeshAutoLink" "mesh_autolink",
   hooked "MeshAuthMode" "mesh_authmode", hooked "MeshEncrypType" "mesh_enctype",
   hooked "MeshDefaultkey" "mesh_defkey", hooked "MeshWEPKEY" "mesh_wepkey",
   hooked "MeshWPAKEY" "mesh_wpakey", hooked "MeshId" "mesh_id", hooked "HSCounter" "hscount",
   hooked "HT_BADecline" "ht_badec", hooked "HT_STBC" "ht_stbc", hooked "HT_LDPC" "ht_ldpc",
   hooked "HT_TxStream" "ht_txstream", hooked "HT_RxStream" "ht_rxstream",
   hooked "HT_PROTECT" "ht_protect", hooked "HT_DisallowTKIP" "ht_distkip",
   hooked "HT_BSSCoexistence" "ht_bsscoexist", hooked "WscConfMode" "wsc_confmode",
   hooked "WscConfStatus" "wsc_confstatus", hooked "WCNTest" "wcntest",
   hooked "WdsPhyMode" "wds_phymode", hooked "RADIUS_Acct_Server" "radius_acctserver",
   hooked "RADIUS_Acct_Port" "radius_acctport", hooked "RADIUS_Acct_Key" "radius_acctkey",
   hooked "Ethifname" "ethifname", hooked "session_timeout_interval" "session_intv",
   hooked "idle_timeout_interval" "idle_intv", unhooked "WiFiTest",
   hooked "TGnWifiTest" "tgnwifitest", unhooked "ApCliEnable", unhooked "ApCliSsid",
   unhooked "ApCliBssid", unhooked "ApCliAuthMode", unhooked "ApCliEncrypType",
   unhooked "ApCliWPAPSK", unhooked "ApCliDefaultKeyID", unhooked "ApCliKey1Type",
   unhooked "ApCliKey1Str", unhooked "ApCliKey2Type", unhooked "ApCliKey2Str",
   unhooked "ApCliKey3Type", unhooked "ApCliKey3Str", unhooked "ApCliKey4Type",
   unhooked "ApCliKey4Str", hooked "EfuseBufferMode" "efusebufmode",
   hooked "E2pAccessMode" "e2paccmode", hooked "RadioOn" "radio", hooked "BW_Enable" "bw_enable",
   hooked "BW_Root" "bw_root", hooked "BW_Priority" "bw_priority",
   hooked "BW_Guarantee_Rate" "bw_grtrate", hooked "BW_Maximum_Rate" "bw_maxrate",
   hooked "AutoChannelSkipList" "autoch_skip", hooked "WscConfMethod" "wsc_confmethod",
   hooked "WscKeyASCII" "wsc_keyascii", hooked "WscSecurityMode" "wsc_security",
   hooked "Wsc4digitPinCode" "wsc_4digitpin", hooked "WscVendorPinCode" "wsc_vendorpin",
   hooked "WscV2Support" "wsc_v2", hooked "HT_MIMOPS" "mimops", hooked "G_BAND_256QAM" "g256qam",
   hooked "DBDC_MODE" "dbdc", hooked "IgmpSnEnable" "igmpsnoop",
   hooked "MUTxRxEnable" "mutxrxenable", hooked "ITxBfEnCond" "itxbfencond",
   hooked "BandSteering" "bandsteering", ⟨none, some "txbf", none, true⟩]

end OpenwrtMtk.Uci2dat

/-!
## The hook of uci2dat

`hooker` prints the value of a DAT key. A key for all virtual interfaces gets a list whose elements
are separated by `;`.
-/

namespace OpenwrtMtk.Uci2dat

open Toolkit
open OpenwrtMtk.Luci (isdigit digits)

set_option autoImplicit false

section Strings

def tolower (c : U8) : U8 := if 0x41 ≤ c.toNat ∧ c.toNat ≤ 0x5a then c + 0x20 else c

/-- `0 == strcasecmp(str, constant)`. -/
def strcaseeq (str : List U8) (constant : String) : Bool :=
  str.map tolower = (bytes constant).map tolower

/-- `0 == strmatch(str, pattern)`. -/
def strmatch (str pattern : String) : Bool :=
  (bytes str).length = (bytes pattern).length &&
    ((bytes str).zip (bytes pattern)).all fun x => x.2 = 0x3f || x.2 = x.1

/-- `atoi(str + n)`, for what begins with a digit. -/
def atoi (str : String) (n : Nat) : Nat :=
  (((bytes str).drop n).takeWhile isdigit).foldl (fun i c => i * 10 + (c.toNat - 0x30)) 0

/-- `FPRINT(fp, p, value)`. -/
def fprint (value : Option (List U8)) : List U8 := value.getD []

end Strings

section Elements

/-- The loops that print a separator before each element but the first. -/
def separated (element : Vif → List U8) : List Vif → List U8
  | [] => []
  | v :: vs => element v ++ vs.flatMap fun v => 0x3b :: element v

/-- The loops that print a separator behind each element. -/
def terminated (element : Vif → List U8) (vs : List Vif) : List U8 :=
  vs.flatMap fun v => element v ++ [0x3b]

def encrypType (v : Vif) : List U8 :=
  match v.authmode, v.cipher with
  | none, _ => []
  | _, none => []
  | some authmode, some cipher =>
    if strcaseeq authmode "none" then bytes "NONE"
    else if strcaseeq authmode "wep-open" || strcaseeq authmode "wep-shared" ||
        strcaseeq authmode "8021x" then bytes "WEP"
    else if strcaseeq cipher "ccmp" then bytes "AES"
    else if strcaseeq cipher "tkip" then bytes "TKIP"
    else if strcaseeq cipher "ccmp+tkip" || strcaseeq cipher "tkip+ccmp" then bytes "TKIPAES"
    else bytes "NONE"

def authMode (v : Vif) : List U8 :=
  match v.authmode with
  | none => []
  | some authmode =>
    if strcaseeq authmode "none" then bytes "OPEN"
    else if strcaseeq authmode "wep-open" then bytes "OPEN"
    else if strcaseeq authmode "8021x" then bytes "OPEN"
    else if strcaseeq authmode "wep-shared" then bytes "SHARED"
    else if strcaseeq authmode "wep-auto" then bytes "WEPAUTO"
    else if strcaseeq authmode "psk" then bytes "WPAPSK"
    else if strcaseeq authmode "psk2" then bytes "WPA2PSK"
    else if strcaseeq authmode "psk-mixed" || strcaseeq authmode "psk+psk2" then
      bytes "WPAPSKWPA2PSK"
    else if strcaseeq authmode "wpa" then bytes "WPA"
    else if strcaseeq authmode "wpa2" then bytes "WPA2"
    else if strcaseeq authmode "wpa-mixed" || strcaseeq authmode "wpa+wpa2" then bytes "WPA1WPA2"
    else bytes "OPEN"

def hideSSID (v : Vif) : List U8 :=
  match v.hidden with
  | none => bytes "0"
  | some hidden => hidden

def ieee8021X (v : Vif) : List U8 :=
  match v.authmode with
  | none => []
  | some authmode => if strcaseeq authmode "8021x" then bytes "1" else []

def isWep (authmode : List U8) : Bool :=
  strcaseeq authmode "wep-open" || strcaseeq authmode "wep-shared"

/-- The body of the loop for `DefaultKeyID`: without an authmode it does not reach the separator. -/
def defaultKeyID (v : Vif) : List U8 :=
  match v.authmode with
  | none => []
  | some authmode => if isWep authmode then fprint v.key ++ [0x3b] else bytes "1;"

def unmarked (key : List U8) : List U8 := if key.take 2 = bytes "s:" then key.drop 2 else key

/-- The element of `Key?Type`. -/
def keyType (i : Nat) (v : Vif) : List U8 :=
  match v.wepkey i with
  | none => bytes "1"
  | some key =>
    if (unmarked key).length = 5 ∨ (unmarked key).length = 13 then bytes "1" else bytes "0"

/-- The loop for `Key?Type` also removes the mark from the key. -/
def unmarkKey (i : Nat) (v : Vif) : Vif :=
  { v with wepkey := Function.update v.wepkey i ((v.wepkey i).map unmarked) }

end Elements

section Hooker

def WifiParams.used (cfg : WifiParams) : List Vif := (List.range cfg.vifnum).map cfg.vifs

/-- `__get_value_by_ucikey`. -/
def valueByUcikey (uciKey : String) (cfg : WifiParams) : Option (List U8) :=
  (cfg.params.find? fun p => p.uciKey = some uciKey).bind Param.value

/-- The branches for `txbf`: what is printed for `3` or anything unknown, for `2`, for `1`, for `0`. -/
def txbf (cfg : WifiParams) (three two one zero : String) : List U8 :=
  match valueByUcikey "txbf" cfg with
  | none => bytes three
  | some value =>
    if value = bytes "3" then bytes three
    else if value = bytes "2" then bytes two
    else if value = bytes "1" then bytes one
    else if value = bytes "0" then bytes zero
    else bytes three

def isPsk (authmode : List U8) : Bool :=
  strcaseeq authmode "psk" || strcaseeq authmode "psk2" || strcaseeq authmode "psk+psk2" ||
    strcaseeq authmode "psk-mixed"

def vifIndex (datKey : String) (n : Nat) : Option Nat :=
  if 1 ≤ atoi datKey n ∧ atoi datKey n ≤ mbssidMax then some (atoi datKey n - 1) else none

/-- What `hooker` prints. -/
def hooker (cfg : WifiParams) (datKey : String) (value : List U8) : List U8 :=
  if strmatch datKey "SSID?" then
    match vifIndex datKey 4 with
    | none => []
    | some i => fprint (cfg.vifs i).ssid
  else if datKey = "BssidNum" then digits cfg.vifnum
  else if datKey = "EncrypType" then separated encrypType cfg.used
  else if datKey = "AuthMode" then separated authMode cfg.used
  else if datKey = "HideSSID" then separated hideSSID cfg.used
  else if datKey = "Channel" then if value = bytes "auto" then bytes "0" else value
  else if datKey = "AutoChannelSelect" then if value = bytes "0" then bytes "2" else bytes "0"
  else if datKey = "HT_BW" then if value = bytes "0" then bytes "0" else bytes "1"
  else if datKey = "VHT_BW" then
    if value = bytes "2" then bytes "1"
    else if value = bytes "3" then bytes "2"
    else if value = bytes "4" then bytes "3"
    else bytes "0"
  else if strmatch datKey "WPAPSK?" then
    match vifIndex datKey 6 with
    | none => []
    | some i =>
      match (cfg.vifs i).authmode with
      | none => []
      | some authmode => if isPsk authmode then fprint (cfg.vifs i).key else []
  else if datKey = "RADIUS_Server" then separated (fun v => fprint v.authServer) cfg.used
  else if datKey = "RADIUS_Port" then separated (fun v => fprint v.authPort) cfg.used
  else if strmatch datKey "RADIUS_Key?" then
    match vifIndex datKey 10 with
    | none => []
    | some i => fprint (cfg.vifs i).authSecret
  else if datKey = "PreAuth" then separated (fun v => fprint v.preauth) cfg.used
  else if datKey = "RekeyInterval" then separated (fun v => fprint v.rekeyinteval) cfg.used
  else if datKey = "PMKCachePeriod" then separated (fun v => fprint v.pmkcacheperiod) cfg.used
  else if datKey = "IEEE8021X" then separated ieee8021X cfg.used
  else if strmatch datKey "DefaultKeyID" then cfg.used.flatMap defaultKeyID
  else if strmatch datKey "Key?Type" then terminated (keyType (atoi datKey 3 - 1)) cfg.used
  else if strmatch datKey "Key?Str?" then
    match (cfg.vifs (atoi datKey 7 - 1)).wepkey (atoi datKey 3 - 1) with
    | none => []
    | some key => unmarked key
  else if datKey = "ETxBfIncapable" then txbf cfg "0" "0" "1" "1"
  else if datKey = "ITxBfEn" then txbf cfg "1" "0" "1" "0"
  else if datKey = "ETxBfEnCond" then txbf cfg "1" "1" "0" "0"
  else value

/-- What `hooker` changes: the keys of which it prints the type. -/
def hookerEffect (cfg : WifiParams) (datKey : String) : WifiParams :=
  if strmatch datKey "Key?Type" then
    { cfg with vifs := fun j =>
        if j < cfg.vifnum then unmarkKey (atoi datKey 3 - 1) (cfg.vifs j) else cfg.vifs j }
  else cfg

end Hooker

end OpenwrtMtk.Uci2dat
