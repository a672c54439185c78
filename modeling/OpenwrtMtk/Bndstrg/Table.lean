import OpenwrtMtk.Lib.Bits
import OpenwrtMtk.Lib.Bytes
import OpenwrtMtk.Lib.Chain
import Mathlib.Data.Fintype.Basic

/-!
# Band-steering client table

The data of `struct bndstrg_cli_table` and the functions of `bndstrg.c` that look up,
insert and delete its entries. A `struct bndstrg_cli_entry *` is the index of the slot it
points to; `none` is NULL. A function that walks a hash chain returns `none` when the walk
does not end, and so does one that dereferences NULL.
-/

namespace OpenwrtMtk.Bndstrg

open Toolkit

set_option autoImplicit false

def band5G : U8 := 1#8
def band2G : U8 := 2#8

/-- The two radios; the index into `statistics[2]` and `AgingConfirmed[2]`. -/
inductive Band where
  | b2G | b5G
  deriving DecidableEq

/-- `enum bndstrg_control_flags`. -/
inductive ControlFlag where
  | support2G | support5G | allowToConnet2G | allowToConnet5G
  | notSupportHt2G | notSupportHt5G | lowRssi2G | lowRssi5G | is2GOnly | is5GOnly
  deriving DecidableEq

def ControlFlag.bit : ControlFlag → Nat
  | support2G => 0
  | support5G => 1
  | allowToConnet2G => 2
  | allowToConnet5G => 3
  | notSupportHt2G => 4
  | notSupportHt5G => 5
  | lowRssi2G => 6
  | lowRssi5G => 7
  | is2GOnly => 8
  | is5GOnly => 9

/-- `enum bndstrg_condition_check_flags`. -/
inductive ConditionFlag where
  | rssiDiff | persist2G | htSupport | rssi5G
  deriving DecidableEq

def ConditionFlag.bit : ConditionFlag → Nat
  | rssiDiff => 0
  | persist2G => 1
  | htSupport => 2
  | rssi5G => 3

/-- `enum bndstrg_return_code`, as far as the table functions return it. -/
inductive ReturnCode where
  | success | invalidArg | tableFull | notInitialized | unexp
  deriving DecidableEq

structure Timespec where
  tvSec : Int
  tvNsec : Int
  deriving DecidableEq

structure MacAddr where
  b0 : U8
  b1 : U8
  b2 : U8
  b3 : U8
  b4 : U8
  b5 : U8
  deriving DecidableEq

def MacAddr.zero : MacAddr := ⟨0, 0, 0, 0, 0, 0⟩

/-- `MAC_ADDR_HASH`. -/
def macAddrHash (a : MacAddr) : U8 := a.b0 ^^^ a.b1 ^^^ a.b2 ^^^ a.b3 ^^^ a.b4 ^^^ a.b5

/-- `MAC_ADDR_HASH_INDEX`; `HASH_TABLE_SIZE` is 256. -/
def macAddrHashIndex (a : MacAddr) : U8 := macAddrHash a &&& 255#8

/-- `BND_STRG_MAX_TABLE_SIZE`. -/
abbrev maxTableSize : Nat := 64

abbrev Slot := Fin maxTableSize

structure EntryStat where
  rssi : U8
  authReqCount : U8
  deriving DecidableEq

structure CliEntry where
  bValid : Bool
  tableIndex : Nat
  agingConfirmed : Band → Bool
  controlFlags : U32
  tp : Timespec
  elapsedTime : Nat
  addr : MacAddr
  statistics : Band → EntryStat
  pNext : Option Slot

/-- An entry after `memset(entry, 0, sizeof(struct bndstrg_cli_entry))`. -/
def CliEntry.zero : CliEntry where
  bValid := false
  tableIndex := 0
  agingConfirmed := fun _ => false
  controlFlags := 0
  tp := ⟨0, 0⟩
  elapsedTime := 0
  addr := .zero
  statistics := fun _ => ⟨0, 0⟩
  pNext := none

/-- `entry->Control_Flags & flag`. -/
def CliEntry.has (e : CliEntry) (f : ControlFlag) : Bool := testBit e.controlFlags f.bit

/-- `entry->Control_Flags |= flag`. -/
def CliEntry.set (e : CliEntry) (f : ControlFlag) : CliEntry :=
  { e with controlFlags := setBit e.controlFlags f.bit }

/-- `entry->Control_Flags &= ~flag`. -/
def CliEntry.clear (e : CliEntry) (f : ControlFlag) : CliEntry :=
  { e with controlFlags := clearBit e.controlFlags f.bit }

abbrev IfName := List U8

structure CliTable where
  bInitialized : Bool
  bEnabled : Bool
  band : U8
  b2GInfReady : U8
  b5GInfReady : U8
  rssiDiff : U8
  rssiLow : U8
  ageTime : Nat
  holdTime : Nat
  checkTime5G : Nat
  size : Nat
  uc2GIfName : IfName
  uc5GIfName : IfName
  statusQueried : Bool
  statusQueriedCnt : Nat
  tableEnableCnt : Nat
  dbdcMode : Bool
  conditionCheck : U32
  entry : Slot → CliEntry
  hash : U8 → Option Slot

/-- `table->AlgCtrl.ConditionCheck & flag`. -/
def CliTable.checks (t : CliTable) (f : ConditionFlag) : Bool := testBit t.conditionCheck f.bit

def CliTable.next (t : CliTable) (i : Slot) : Option Slot := (t.entry i).pNext

def CliTable.setEntry (t : CliTable) (i : Slot) (e : CliEntry) : CliTable :=
  { t with entry := Function.update t.entry i e }

def CliTable.setNext (t : CliTable) (i : Slot) (p : Option Slot) : CliTable :=
  t.setEntry i { t.entry i with pNext := p }

def CliTable.setHash (t : CliTable) (h : U8) (p : Option Slot) : CliTable :=
  { t with hash := Function.update t.hash h p }

def CliTable.setSize (t : CliTable) (n : Nat) : CliTable := { t with size := n }

/-- One more than the number of slots: a walk that is still going then has met a slot twice. -/
def chainFuel : Nat := maxTableSize + 1

def bndstrgUpdateEntryStatistics (statistics : EntryStat) (rssi frameSubType : U8) :
    EntryStat × ReturnCode :=
  let statistics := { statistics with rssi := rssi }
  if frameSubType = 0#8 then (statistics, .success)
  else if frameSubType = 3#8 then
    ({ statistics with authReqCount := statistics.authReqCount + 1#8 }, .success)
  else (statistics, .unexp)

/-- The walk stops at the entry with the address and also at the first invalid entry,
which it then returns. -/
def bndstrgTableLookup (t : CliTable) (pAddr : MacAddr) : Option (Option Slot) :=
  (chase t.next (fun i => !(t.entry i).bValid || decide ((t.entry i).addr = pAddr)) chainFuel
    none (t.hash (macAddrHashIndex pAddr))).map (·.2)

/-- The lowest slot that is not valid. -/
def firstVacancy (t : CliTable) : Option Slot :=
  (List.finRange maxTableSize).find? fun i => !(t.entry i).bValid

def freshEntry (i : Slot) (pAddr : MacAddr) (now : Timespec) : CliEntry :=
  { CliEntry.zero with tp := now, addr := pAddr, tableIndex := i, bValid := true }

/-- Hang slot `i` on the bucket of `pAddr`, behind the last node. -/
def linkEntry (t : CliTable) (pAddr : MacAddr) (i : Slot) : Option CliTable :=
  let h := macAddrHashIndex pAddr
  match t.hash h with
  | none => some (t.setHash h (some i))
  | some j =>
    match chase t.next (fun k => (t.next k).isNone) chainFuel none (some j) with
    | some (_, some last) => some (t.setNext last (some i))
    | _ => none

def bndstrgInsertEntry (t : CliTable) (pAddr : MacAddr) (now : Timespec) :
    Option (CliTable × ReturnCode × Option Slot) :=
  if maxTableSize ≤ t.size then some (t, .tableFull, none)
  else
    -- with every slot valid the loop leaves `entry` at the last slot, not at NULL
    let filled := match firstVacancy t with
      | some i => (t.setEntry i (freshEntry i pAddr now), i)
      | none => (t, Fin.last 63)
    (linkEntry filled.1 pAddr filled.2).map fun t =>
      (t.setSize (t.size + 1), .success, some filled.2)

/-- Take `i` off the chain of bucket `h`, if it is there. -/
def unlinkEntry (t : CliTable) (h : U8) (i : Slot) : Option CliTable :=
  match chase t.next (fun k => decide (k = i)) chainFuel none (t.hash h) with
  | some (none, some _) => some (t.setHash h (t.next i))
  | some (some pre, some _) => some (t.setNext pre (t.next i))
  | some (_, none) => some t
  | none => none

/-- The fields `bndstrg_delete_entry` resets; the link field and the flags stay. -/
def freeEntry (e : CliEntry) : CliEntry :=
  { e with addr := .zero, tp := { e.tp with tvSec := 0 }, elapsedTime := 0, bValid := false }

/-- The entry to delete: by address in its bucket when the index names no slot, else by index. -/
def deleteTarget (t : CliTable) (pAddr : MacAddr) (index : Nat) : Option (Option Slot) :=
  if h : index < maxTableSize then some (some ⟨index, h⟩)
  else (chase t.next (fun i => decide (pAddr = (t.entry i).addr)) chainFuel none
    (t.hash (macAddrHashIndex pAddr))).map (·.2)

/-- The bucket is the one of the caller's address, also when the slot comes from the index. -/
def bndstrgDeleteEntry (t : CliTable) (pAddr : MacAddr) (index : Nat) :
    Option (CliTable × ReturnCode) :=
  match deleteTarget t pAddr index with
  | none => none
  | some none => some (t, .invalidArg)
  | some (some i) =>
    if (t.entry i).bValid then
      (unlinkEntry t (macAddrHashIndex pAddr) i).map fun t =>
        ((t.setEntry i (freeEntry (t.entry i))).setSize (t.size - 1), .success)
    else some (t, .success)

/-- `max` of `util.h` on signed chars. -/
def maxS8 (a b : U8) : U8 := if b.toInt < a.toInt then a else b

/-- The strongest of the first three antenna readings; zero readings past the first are skipped. -/
def maxRssi (rssi : Fin 4 → U8) : U8 :=
  [rssi 1, rssi 2].foldl (fun m r => if r ≠ 0#8 then maxS8 m r else m) (rssi 0)

def supportFlag : Band → ControlFlag
  | .b2G => .support2G
  | .b5G => .support5G

def lowRssiFlag : Band → ControlFlag
  | .b2G => .lowRssi2G
  | .b5G => .lowRssi5G

def notSupportHtFlag : Band → ControlFlag
  | .b2G => .notSupportHt2G
  | .b5G => .notSupportHt5G

/-- What a probe or authentication request on band `b` writes into the client's entry. -/
def noteConnReq (rssiLow : U8) (b : Band) (frameType : U8) (rssi : Fin 4 → U8)
    (bAllowStaConnectInHt : U8) (e : CliEntry) : CliEntry :=
  let e := e.set (supportFlag b)
  let stat := (bndstrgUpdateEntryStatistics (e.statistics b) (maxRssi rssi) frameType).1
  let e := { e with statistics := Function.update e.statistics b stat }
  let e := if stat.rssi ≠ 0#8 then
      if stat.rssi.toInt < rssiLow.toInt then e.set (lowRssiFlag b) else e.clear (lowRssiFlag b)
    else e
  if bAllowStaConnectInHt = 0#8 ∧ frameType = 0#8 then e.set (notSupportHtFlag b) else e

/-- The radio of a `Band` byte that names exactly one. -/
def bandOf (band : U8) : Option Band :=
  if band = band2G then some .b2G else if band = band5G then some .b5G else none

/-- For a `Band` byte that is neither radio `statistics` stays NULL and is then read. -/
def bndstrgCheckConnReq (t : CliTable) (band : U8) (pSrcAddr : MacAddr) (frameType : U8)
    (rssi : Fin 4 → U8) (bAllowStaConnectInHt : U8) (now : Timespec) :
    Option (CliTable × ReturnCode) :=
  if !t.bInitialized || !t.bEnabled then some (t, .notInitialized)
  else
    match bndstrgTableLookup t pSrcAddr with
    | none => none
    | some found =>
      let placed := match found with
        | some i => some (t, .success, some i)
        | none => bndstrgInsertEntry t pSrcAddr now
      match placed with
      | none => none
      | some (t, ret, none) => some (t, ret)
      | some (t, ret, some i) =>
        (bandOf band).map fun b =>
          (t.setEntry i (noteConnReq t.rssiLow b frameType rssi bAllowStaConnectInHt (t.entry i)),
            ret)

end OpenwrtMtk.Bndstrg
