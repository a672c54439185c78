import OpenwrtMtk.Bndstrg.Table
import OpenwrtMtk.Lib.Run

/-!
# Band-steering daemon

`bndstrg_event_handle`, `bndstrg_periodic_exec` and the two decision functions it calls,
with the commands the daemon sends to the driver as a list. One `Event` is one callback of
the event loop: a message of the driver, or the one-second tick with the clock readings the
tick takes for each slot.
-/

namespace OpenwrtMtk.Bndstrg

open Toolkit

set_option autoImplicit false

/-- `enum ACTION_CODE`, as far as the daemon receives or sends it. -/
inductive ActionCode where
  | connectionReq | cliAdd | cliUpdate | cliDel | cliAgingReq | cliAgingRsp
  | infStatusRsp2G | infStatusRsp5G | infStatusRspDbdc | tableInfo | entryList | bndstrgOnoff
  | setRssiDiff | setRssiLow | setAgeTime | setHoldTime | setCheckTime | setChekConditions
  | unknown (n : Nat)
  deriving DecidableEq

/-- `struct bndstrg_msg`, the fields the daemon reads. -/
structure BndstrgMsg where
  action : ActionCode
  returnCode : U8 := 0
  talbeIndex : U8 := 0
  onOff : U8 := 0
  band : U8 := 0
  b2GInfReady : U8 := 0
  uc2GIfName : IfName := []
  b5GInfReady : U8 := 0
  uc5GIfName : IfName := []
  rssi : Fin 4 → U8 := fun _ => 0
  rssiDiff : U8 := 0
  rssiLow : U8 := 0
  frameType : U8 := 0
  time : U32 := 0
  conditionCheck : U32 := 0
  addr : MacAddr := .zero
  bAllowStaConnectInHt : U8 := 0

/-- `IFNAME_2G`, `IFNAME_5G`, or a name learnt from a status message. -/
inductive Iface where
  | ra0 | rai0 | named (name : IfName)
  deriving DecidableEq

/-- What the daemon hands to `drv_ops`. -/
inductive DrvCmd where
  | accessibleCli (iface : Iface) (action : ActionCode) (addr : MacAddr) (talbeIndex : Nat)
      (update : Option (U32 × Nat))
  | infStatusQuery (iface : Iface)
  | onoff (iface : Iface) (on : Bool)
  deriving DecidableEq

/-- `driver_wext_accessible_cli`: flags and time are sent with an update only. -/
def bndstrgAccessibleCli (iface : Iface) (e : CliEntry) (action : ActionCode) : DrvCmd :=
  .accessibleCli iface action e.addr e.tableIndex
    (if action = .cliUpdate then some (e.controlFlags, e.elapsedTime) else none)

def CliTable.zero : CliTable where
  bInitialized := false
  bEnabled := false
  band := 0
  b2GInfReady := 0
  b5GInfReady := 0
  rssiDiff := 0
  rssiLow := 0
  ageTime := 0
  holdTime := 0
  checkTime5G := 0
  size := 0
  uc2GIfName := []
  uc5GIfName := []
  statusQueried := false
  statusQueriedCnt := 0
  tableEnableCnt := 0
  dbdcMode := false
  conditionCheck := 0
  entry := fun _ => .zero
  hash := fun _ => none

def bndstrgTableInit (t : CliTable) : CliTable :=
  if t.bInitialized then t
  else
    { CliTable.zero with
      rssiDiff := 30#8
      rssiLow := BitVec.ofInt 8 (-70)
      ageTime := 150000
      holdTime := 90000
      checkTime5G := 30000
      conditionCheck := setBit 0#32 ConditionFlag.rssi5G.bit
      bInitialized := true }

def bndstrgEventOnOff (t : CliTable) (onoff band : U8) : CliTable :=
  let t :=
    if onoff = 0#8 then
      let t := { t with band := t.band &&& ~~~band }
      let t := if band &&& band2G = band2G then { t with b2GInfReady := 0, uc2GIfName := [] } else t
      if band &&& band5G = band5G then { t with b5GInfReady := 0, uc5GIfName := [] } else t
    else { t with band := t.band ||| band }
  if t.band = band2G ||| band5G then { t with bEnabled := true } else t

/-- The radios a `Band` byte of an aging response confirms. -/
def confirmedBands (band : U8) : Option (Band → Bool) :=
  if band = band2G then some (fun b => b = .b2G)
  else if band = band5G then some (fun b => b = .b5G)
  else if band = band2G ||| band5G then some (fun _ => true)
  else none

def confirmAging (e : CliEntry) (confirmed : Band → Bool) : CliEntry :=
  { e with agingConfirmed := fun b => confirmed b || e.agingConfirmed b }

/-- The index of an aging response is not checked; past the last slot it names no entry. -/
def bndstrgEventAgingRsp (t : CliTable) (msg : BndstrgMsg) : Option (CliTable × ReturnCode) :=
  if msg.returnCode = 0#8 then
    match confirmedBands msg.band with
    | none => some (t, .invalidArg)
    | some confirmed =>
      if h : msg.talbeIndex.toNat < maxTableSize then
        let i : Slot := ⟨msg.talbeIndex.toNat, h⟩
        let e := confirmAging (t.entry i) confirmed
        let t := t.setEntry i e
        if e.agingConfirmed .b2G && e.agingConfirmed .b5G then
          (bndstrgDeleteEntry t msg.addr i).map fun r => (r.1, .success)
        else some (t, .success)
      else none
  else some (t, .success)

/-- The two informational requests print and change nothing the daemon reads again. -/
def bndstrgEventHandle (t : CliTable) (msg : BndstrgMsg) (now : Timespec) :
    Option (CliTable × ReturnCode) :=
  match msg.action with
  | .connectionReq =>
    (bndstrgCheckConnReq t msg.band msg.addr msg.frameType msg.rssi msg.bAllowStaConnectInHt
      now).map fun r => (r.1, .success)
  | .infStatusRsp2G =>
    some ({ t with statusQueried := true, dbdcMode := false, b2GInfReady := msg.b2GInfReady,
                   uc2GIfName := msg.uc2GIfName }, .success)
  | .infStatusRsp5G =>
    some ({ t with statusQueried := true, dbdcMode := false, b5GInfReady := msg.b5GInfReady,
                   uc5GIfName := msg.uc5GIfName }, .success)
  | .infStatusRspDbdc =>
    some ({ t with statusQueried := true, dbdcMode := true, b2GInfReady := msg.b2GInfReady,
                   uc2GIfName := msg.uc2GIfName, b5GInfReady := msg.b5GInfReady,
                   uc5GIfName := msg.uc5GIfName }, .success)
  | .bndstrgOnoff => some (bndstrgEventOnOff t msg.onOff msg.band, .success)
  | .cliAgingRsp => bndstrgEventAgingRsp t msg
  | .cliDel =>
    (bndstrgDeleteEntry t msg.addr msg.talbeIndex.toNat).map fun r => (r.1, .success)
  | .setRssiDiff => some ({ t with rssiDiff := msg.rssiDiff }, .success)
  | .setRssiLow => some ({ t with rssiLow := msg.rssiLow }, .success)
  | .setAgeTime => some ({ t with ageTime := msg.time.toNat }, .success)
  | .setHoldTime => some ({ t with holdTime := msg.time.toNat }, .success)
  | .setCheckTime => some ({ t with checkTime5G := msg.time.toNat }, .success)
  | .setChekConditions => some ({ t with conditionCheck := msg.conditionCheck }, .success)
  | _ => some (t, .success)

/-- Milliseconds since the entry was inserted, as the unsigned 32-bit value the code keeps. -/
def bndstrgGetEntryElapsedTime (e : CliEntry) (now : Timespec) : Nat :=
  if e.tp.tvSec ≠ 0 then
    (((now.tvSec - e.tp.tvSec) * 1000 + (now.tvNsec - e.tp.tvNsec).tdiv 1000000) % 2 ^ 32).toNat
  else 0

/-- `IS_BND_STRG_DUAL_BAND_CLIENT`. -/
def isDualBandClient (e : CliEntry) : Bool := e.has .support2G && e.has .support5G

/-- Condition 1: the 2.4G signal is stronger than the 5G one by `RssiDiff`. -/
def rssiDiffCondition (t : CliTable) (e : CliEntry) : Bool :=
  let r2G := (e.statistics .b2G).rssi
  let r5G := (e.statistics .b5G).rssi
  t.checks .rssiDiff && r2G &&& r5G != 0#8 && decide (t.rssiDiff.toInt ≤ (r2G - r5G).toInt)

def persistCondition (t : CliTable) (e : CliEntry) : Bool :=
  t.checks .persist2G && decide (t.holdTime ≤ e.elapsedTime) &&
    (e.statistics .b5G).authReqCount == 0#8 && (e.statistics .b2G).authReqCount != 0#8

def htCondition (t : CliTable) (e : CliEntry) : Bool :=
  t.checks .htSupport && e.has .notSupportHt5G

/-- `_bndstrg_allow_sta_conn_2g`. -/
def allowStaConn2G (t : CliTable) (e : CliEntry) : Bool :=
  if isDualBandClient e && rssiDiffCondition t e then true
  else if isDualBandClient e && persistCondition t e then true
  else if isDualBandClient e && (t.checks .rssi5G && e.has .lowRssi5G && !e.has .allowToConnet5G)
  then true
  else if isDualBandClient e && htCondition t e then true
  else e.has .is2GOnly

/-- `_bndstrg_allow_sta_conn_5g`, with the entry it leaves: a strong 5G signal also takes back
the permission for 2.4G. -/
def allowStaConn5G (t : CliTable) (e : CliEntry) : Bool × CliEntry :=
  let r5G := (e.statistics .b5G).rssi
  if !e.has .support5G then (false, e)
  else if isDualBandClient e then
    if rssiDiffCondition t e then (false, e)
    else if persistCondition t e then (false, e)
    else if htCondition t e then (false, e)
    else if t.checks .rssi5G && r5G != 0#8 then
      if t.rssiLow.toInt < r5G.toInt then (true, e.clear .allowToConnet2G)
      else if r5G.toInt < t.rssiLow.toInt - 10 then (false, e)
      else (false, e)
    else if r5G = 0#8 then (false, e)
    else (true, e)
  else (true, e)

def iface2G (t : CliTable) : Iface := if t.dbdcMode then .named t.uc2GIfName else .ra0

def iface5G (t : CliTable) : Iface := if t.dbdcMode then .named t.uc5GIfName else .rai0

/-- A client that stayed silent on 5G for `CheckTime_5G` counts as 2.4G only. -/
def mark2GOnly (t : CliTable) (e : CliEntry) : CliEntry :=
  if decide (t.checkTime5G ≤ e.elapsedTime) && !e.has .support5G && !e.has .is2GOnly
  then e.set .is2GOnly else e

def periodicEntry2G (t : CliTable) (e : CliEntry) : CliEntry × List DrvCmd :=
  let e := mark2GOnly t e
  if !e.has .allowToConnet2G && allowStaConn2G t e then
    let e := e.set .allowToConnet2G
    (e, bndstrgAccessibleCli (iface2G t) e .cliAdd ::
      if t.dbdcMode then [bndstrgAccessibleCli (iface2G t) e .cliUpdate] else [])
  else (e, [])

def periodicEntry5G (t : CliTable) (e : CliEntry) : CliEntry × List DrvCmd :=
  if e.has .is2GOnly then (e, [])
  else
    match allowStaConn5G t e with
    | (true, e) =>
      let e := e.set .allowToConnet5G
      (e, bndstrgAccessibleCli (iface5G t) e .cliAdd ::
        if t.dbdcMode then [bndstrgAccessibleCli (iface5G t) e .cliUpdate] else [])
    | (false, e) =>
      let e := e.clear .allowToConnet5G
      (e, [bndstrgAccessibleCli (iface5G t) e (if t.dbdcMode then .cliUpdate else .cliDel)])

/-- One iteration of the loop of `bndstrg_periodic_exec`. -/
def periodicEntry (t : CliTable) (now : Timespec) (e : CliEntry) : CliEntry × List DrvCmd :=
  if e.bValid then
    let elapsedTime := bndstrgGetEntryElapsedTime e now
    if t.ageTime ≤ elapsedTime then
      (e, [bndstrgAccessibleCli (iface2G t) e .cliAgingReq,
        bndstrgAccessibleCli (iface5G t) e .cliAgingReq])
    else
      let half := periodicEntry2G t { e with elapsedTime := elapsedTime }
      let full := periodicEntry5G t half.1
      (full.1, half.2 ++ full.2)
  else (e, [])

/-- The loop touches each entry once and no other field, so it is a map over the slots. -/
def periodicLoop (t : CliTable) (now : Slot → Timespec) : CliTable × List DrvCmd :=
  ({ t with entry := fun i => (periodicEntry t (now i) (t.entry i)).1 },
    (List.finRange maxTableSize).flatMap fun i => (periodicEntry t (now i) (t.entry i)).2)

def CliTable.operational (t : CliTable) : Bool :=
  t.bInitialized && decide (t.statusQueriedCnt < 3) && decide (t.tableEnableCnt < 3) &&
    t.statusQueried && t.b2GInfReady != 0#8 && t.b5GInfReady != 0#8 && t.bEnabled

def onoffCmds (t : CliTable) : List DrvCmd :=
  (if t.band &&& band2G ≠ band2G then [.onoff (iface2G t) true] else []) ++
    (if t.band &&& band5G ≠ band5G then [.onoff (iface5G t) true] else [])

/-- `bndstrg_periodic_exec`; the flag is false when it gives up and ends the event loop. -/
def bndstrgPeriodicExec (t : CliTable) (now : Slot → Timespec) :
    CliTable × List DrvCmd × Bool :=
  if !t.bInitialized then (t, [], true)
  else if decide (3 ≤ t.statusQueriedCnt) || decide (3 ≤ t.tableEnableCnt) then (t, [], false)
  else if !t.statusQueried then
    ({ t with statusQueriedCnt := t.statusQueriedCnt + 1 }, [.infStatusQuery .ra0], true)
  else if t.b2GInfReady = 0#8 then
    ({ t with statusQueriedCnt := t.statusQueriedCnt + 1 }, [.infStatusQuery .ra0], true)
  else if t.b5GInfReady = 0#8 then
    ({ t with statusQueriedCnt := t.statusQueriedCnt + 1 }, [.infStatusQuery .rai0], true)
  else if !t.bEnabled then
    ({ t with tableEnableCnt := t.tableEnableCnt + 1 }, onoffCmds t, true)
  else ((periodicLoop t now).1, (periodicLoop t now).2, true)

/-- The daemon between two callbacks of its event loop. -/
structure Daemon where
  table : CliTable
  running : Bool

inductive Event where
  | msg (m : BndstrgMsg) (now : Timespec)
  | tick (now : Slot → Timespec)

/-- The daemon after `bndstrg_init`. -/
def Daemon.init : Daemon := ⟨bndstrgTableInit .zero, true⟩

/-- One callback; `none` is a callback that crashes or does not return, and an ended loop. -/
def daemonStep (d : Daemon) : Event → Option (Daemon × List DrvCmd)
  | .msg m now =>
    if d.running then
      (bndstrgEventHandle d.table m now).map fun r => ({ d with table := r.1 }, [])
    else none
  | .tick now =>
    if d.running then
      let r := bndstrgPeriodicExec d.table now
      some (⟨r.1, r.2.2⟩, r.2.1)
    else none

def daemonNext (d : Daemon) (e : Event) : Option Daemon := (daemonStep d e).map (·.1)

def bringUp : List BndstrgMsg :=
  [{ action := .infStatusRsp2G, b2GInfReady := 1 }, { action := .infStatusRsp5G, b5GInfReady := 1 },
   { action := .bndstrgOnoff, onOff := 1, band := band2G ||| band5G }]

/-- A request of the client `a` on radio `b` with the RSSI `rssi` on its first antenna. -/
def connectionReq (b : U8) (a : MacAddr) (rssi : Int) : BndstrgMsg :=
  { action := .connectionReq, band := b, addr := a, frameType := 3
    rssi := fun k => if k.val = 0 then BitVec.ofInt 8 rssi else 0 }

end OpenwrtMtk.Bndstrg
