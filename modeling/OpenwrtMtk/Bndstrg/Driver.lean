import OpenwrtMtk.Bndstrg.Effect

/-!
# Messages as the driver sends them

`bndstrg_event_handle` on a message with arbitrary bytes in its fields, and what goes wrong in it.
A run of the daemon without a fault is a run with the decoded messages.
-/

namespace OpenwrtMtk.Bndstrg

open Toolkit

set_option autoImplicit false

/-- What ends a callback: a read through NULL, an index behind the last entry, a name that does not
end in its buffer, or a walk along a cyclic chain. -/
inductive Fault where
  | nullStatistics | entryIndex | nameOverflow | endless
  deriving DecidableEq

/-- `struct bndstrg_msg`, the fields the daemon reads. -/
structure DriverMsg where
  action : U8
  returnCode : U8 := 0
  talbeIndex : U8 := 0
  onOff : U8 := 0
  band : U8 := 0
  b2GInfReady : U8 := 0
  uc2GIfName : Vector U8 32 := Vector.replicate 32 0
  b5GInfReady : U8 := 0
  uc5GIfName : Vector U8 32 := Vector.replicate 32 0
  rssi : Fin 4 → U8 := fun _ => 0
  rssiDiff : U8 := 0
  rssiLow : U8 := 0
  frameType : U8 := 0
  time : U32 := 0
  conditionCheck : U32 := 0
  addr : MacAddr := .zero
  bAllowStaConnectInHt : U8 := 0

/-- The numbers of `enum ACTION_CODE`. -/
def actionCode (n : U8) : ActionCode :=
  match n.toNat with
  | 1 => .connectionReq
  | 2 => .cliAdd
  | 3 => .cliUpdate
  | 4 => .cliDel
  | 5 => .cliAgingReq
  | 6 => .cliAgingRsp
  | 8 => .infStatusRsp2G
  | 9 => .infStatusRsp5G
  | 10 => .tableInfo
  | 11 => .entryList
  | 12 => .bndstrgOnoff
  | 13 => .setRssiDiff
  | 14 => .setRssiLow
  | 15 => .setAgeTime
  | 16 => .setHoldTime
  | 17 => .setCheckTime
  | 19 => .setChekConditions
  | 20 => .infStatusRspDbdc
  | n => .unknown n

def cName (name : Vector U8 32) : IfName := name.toList.takeWhile (· ≠ 0)

def DriverMsg.decoded (m : DriverMsg) : BndstrgMsg where
  action := actionCode m.action
  returnCode := m.returnCode
  talbeIndex := m.talbeIndex
  onOff := m.onOff
  band := m.band
  b2GInfReady := m.b2GInfReady
  uc2GIfName := cName m.uc2GIfName
  b5GInfReady := m.b5GInfReady
  uc5GIfName := cName m.uc5GIfName
  rssi := m.rssi
  rssiDiff := m.rssiDiff
  rssiLow := m.rssiLow
  frameType := m.frameType
  time := m.time
  conditionCheck := m.conditionCheck
  addr := m.addr
  bAllowStaConnectInHt := m.bAllowStaConnectInHt

def walked {α : Type} (r : Option α) : Except Fault α :=
  match r with
  | some x => .ok x
  | none => .error .endless

/-- `strcpy` into a buffer of 32 bytes. A name without NUL goes on behind its own 32 bytes. -/
def copyName (name : Vector U8 32) : Except Fault IfName :=
  if 0 ∈ name.toList then .ok (cName name) else .error .nameOverflow

/-- `bndstrg_check_conn_req`. -/
def checkConnReq (t : CliTable) (m : DriverMsg) (now : Timespec) :
    Except Fault (CliTable × ReturnCode) :=
  if !t.bInitialized || !t.bEnabled then .ok (t, .notInitialized)
  else do
    let found ← walked (bndstrgTableLookup t m.addr)
    let (t, ret, entry) ← (match found with
      | some i => .ok (t, .success, some i)
      | none => walked (bndstrgInsertEntry t m.addr now))
    match entry, bandOf m.band with
    | none, _ => .ok (t, ret)
    | some _, none => .error .nullStatistics
    | some i, some b => .ok (t.setEntry i (noteConnReq t.rssiLow b m.frameType m.rssi
        m.bAllowStaConnectInHt (t.entry i)), ret)

/-- The entry is addressed before the radios of the response are looked at. -/
def eventAgingRsp (t : CliTable) (m : DriverMsg) : Except Fault (CliTable × ReturnCode) :=
  if m.returnCode = 0#8 then
    if h : m.talbeIndex.toNat < maxTableSize then
      let i : Slot := ⟨m.talbeIndex.toNat, h⟩
      match confirmedBands m.band with
      | none => .ok (t, .invalidArg)
      | some confirmed =>
        let e := confirmAging (t.entry i) confirmed
        let t := t.setEntry i e
        if e.agingConfirmed .b2G && e.agingConfirmed .b5G then
          (walked (bndstrgDeleteEntry t m.addr i)).map fun r => (r.1, .success)
        else .ok (t, .success)
    else .error .entryIndex
  else .ok (t, .success)

/-- `bndstrg_event_handle`. -/
def driverEvent (t : CliTable) (m : DriverMsg) (now : Timespec) :
    Except Fault (CliTable × ReturnCode) :=
  match actionCode m.action with
  | .connectionReq => (checkConnReq t m now).map fun r => (r.1, .success)
  | .infStatusRsp2G => do
    let name ← copyName m.uc2GIfName
    return ({ t with statusQueried := true, dbdcMode := false, b2GInfReady := m.b2GInfReady,
                     uc2GIfName := name }, .success)
  | .infStatusRsp5G => do
    let name ← copyName m.uc5GIfName
    return ({ t with statusQueried := true, dbdcMode := false, b5GInfReady := m.b5GInfReady,
                     uc5GIfName := name }, .success)
  | .infStatusRspDbdc => do
    let name2G ← copyName m.uc2GIfName
    let name5G ← copyName m.uc5GIfName
    return ({ t with statusQueried := true, dbdcMode := true, b2GInfReady := m.b2GInfReady,
                     uc2GIfName := name2G, b5GInfReady := m.b5GInfReady,
                     uc5GIfName := name5G }, .success)
  | .bndstrgOnoff => .ok (bndstrgEventOnOff t m.onOff m.band, .success)
  | .cliAgingRsp => eventAgingRsp t m
  | .cliDel =>
    (walked (bndstrgDeleteEntry t m.addr m.talbeIndex.toNat)).map fun r => (r.1, .success)
  | .setRssiDiff => .ok ({ t with rssiDiff := m.rssiDiff }, .success)
  | .setRssiLow => .ok ({ t with rssiLow := m.rssiLow }, .success)
  | .setAgeTime => .ok ({ t with ageTime := m.time.toNat }, .success)
  | .setHoldTime => .ok ({ t with holdTime := m.time.toNat }, .success)
  | .setCheckTime => .ok ({ t with checkTime5G := m.time.toNat }, .success)
  | .setChekConditions => .ok ({ t with conditionCheck := m.conditionCheck }, .success)
  | _ => .ok (t, .success)

inductive DriverEvent where
  | msg (m : DriverMsg) (now : Timespec)
  | tick (now : Slot → Timespec)

def driverStep (d : Daemon) : DriverEvent → Except Fault Daemon
  | .msg m now => (driverEvent d.table m now).map fun r => { d with table := r.1 }
  | .tick now =>
    let r := bndstrgPeriodicExec d.table now
    .ok ⟨r.1, r.2.2⟩

def driverRun : Daemon → List DriverEvent → Except Fault Daemon
  | d, [] => .ok d
  | d, ev :: es =>
    if d.running then do
      let d ← driverStep d ev
      driverRun d es
    else .ok d

def NoCrash {α : Type} (r : Except Fault α) : Prop := ∀ f, r = .error f → f = .endless

def Harmless (t : CliTable) (m : DriverMsg) : Prop :=
  match actionCode m.action with
  | .connectionReq => bandOf m.band ≠ none ∨ t.bInitialized = false ∨ t.bEnabled = false ∨
      bndstrgTableLookup t m.addr = none ∨
      (bndstrgTableLookup t m.addr = some none ∧ maxTableSize ≤ t.size)
  | .cliAgingRsp => m.returnCode = 0#8 → m.talbeIndex.toNat < maxTableSize
  | .infStatusRsp2G => 0 ∈ m.uc2GIfName.toList
  | .infStatusRsp5G => 0 ∈ m.uc5GIfName.toList
  | .infStatusRspDbdc => 0 ∈ m.uc2GIfName.toList ∧ 0 ∈ m.uc5GIfName.toList
  | _ => True

def AllHarmless : Daemon → List DriverEvent → Prop
  | _, [] => True
  | d, ev :: es => d.running = true →
      (∀ m now, ev = .msg m now → Harmless d.table m) ∧
        ∀ d', driverStep d ev = .ok d' → AllHarmless d' es

section Crashes

variable {α β : Type} {t : CliTable} {m : DriverMsg} {now : Timespec} {a : MacAddr}

theorem noCrash_ok (x : α) : NoCrash (.ok x) := by
  intro f h
  cases h

theorem noCrash_error (f : Fault) : NoCrash (.error f : Except Fault α) ↔ f = .endless := by
  constructor
  · intro h
    exact h f rfl
  · rintro rfl f h
    cases h
    rfl

theorem noCrash_walked (r : Option α) : NoCrash (walked r) := by
  cases r with
  | none => exact (noCrash_error .endless).mpr rfl
  | some x => exact noCrash_ok x

theorem noCrash_map {r : Except Fault α} {f : α → β} : NoCrash (r.map f) ↔ NoCrash r := by
  cases r with
  | error f => rw [Except.map, noCrash_error, noCrash_error]
  | ok x => exact iff_of_true (noCrash_ok _) (noCrash_ok x)

theorem noCrash_copyName (name : Vector U8 32) {f : IfName → β} :
    NoCrash ((copyName name).bind fun n => .ok (f n)) ↔ 0 ∈ name.toList := by
  unfold copyName
  split
  · rename_i hmem
    exact iff_of_true (noCrash_ok _) hmem
  · rename_i hmem
    exact iff_of_false (fun h => nomatch h _ rfl) hmem

theorem noCrash_copyNames {name name' : Vector U8 32} {f : IfName → IfName → β} :
    NoCrash ((copyName name).bind fun n => (copyName name').bind fun n' => .ok (f n n')) ↔
      0 ∈ name.toList ∧ 0 ∈ name'.toList := by
  by_cases hmem : 0 ∈ name.toList
  · rw [copyName, if_pos hmem]
    exact (noCrash_copyName name').trans (and_iff_right hmem).symm
  · rw [copyName, if_neg hmem]
    exact iff_of_false (fun h => nomatch h _ rfl) fun h => hmem h.1

theorem linkEntry_ends {L : List Slot} (hchain : Chain t.next (t.hash (macAddrHashIndex a)) L)
    (hlen : L.length < chainFuel) (i : Slot) : ∃ t', linkEntry t a i = some t' := by
  cases hhead : t.hash (macAddrHashIndex a) with
  | none => exact ⟨_, by simp only [linkEntry, hhead]; rfl⟩
  | some j =>
    rw [hhead] at hchain
    rcases List.eq_nil_or_concat' L with rfl | ⟨M, last, rfl⟩
    · cases hchain
    · have hwalk : chase t.next (fun k => (t.next k).isNone) _ none _ = some (scan _ none _) :=
        chase_eq hchain hlen
      rw [scan_last hchain] at hwalk
      exact ⟨_, by simp only [linkEntry, hhead, hwalk]; rfl⟩

theorem insertEntry_ends (hlookup : bndstrgTableLookup t a = some none) (now : Timespec) :
    ∃ r, bndstrgInsertEntry t a now = some r ∧ (r.2.2 = none ↔ maxTableSize ≤ t.size) := by
  obtain ⟨⟨pre, _⟩, hchase, hnone⟩ := Option.map_eq_some_iff.mp hlookup
  cases hnone
  obtain ⟨L, hchain, hlen, hpass⟩ := chase_null hchase
  unfold bndstrgInsertEntry
  by_cases hfull : maxTableSize ≤ t.size
  · rw [if_pos hfull]
    exact ⟨_, rfl, iff_of_true rfl hfull⟩
  · rw [if_neg hfull]
    cases hvac : firstVacancy t with
    | none =>
      obtain ⟨t', hlink⟩ := linkEntry_ends hchain hlen (Fin.last 63)
      dsimp only
      rw [hlink]
      exact ⟨_, rfl, iff_of_false (Option.some_ne_none _) hfull⟩
    | some i =>
      have hfree := firstVacancy_spec hvac
      have hchain' : Chain (t.setEntry i (freshEntry i a now)).next
          ((t.setEntry i (freshEntry i a now)).hash (macAddrHashIndex a)) L := by
        refine hchain.congr fun k hk => ?_
        rw [setEntry_next, Function.update_of_ne]
        rintro rfl
        have hstop := hpass k hk
        rw [hfree] at hstop
        cases hstop
      obtain ⟨t', hlink⟩ := linkEntry_ends hchain' hlen i
      dsimp only
      rw [hlink]
      exact ⟨_, rfl, iff_of_false (Option.some_ne_none _) hfull⟩

theorem noCrash_checkConnReq : NoCrash (checkConnReq t m now) ↔
    bandOf m.band ≠ none ∨ t.bInitialized = false ∨ t.bEnabled = false ∨
      bndstrgTableLookup t m.addr = none ∨
      (bndstrgTableLookup t m.addr = some none ∧ maxTableSize ≤ t.size) := by
  unfold checkConnReq
  by_cases hoff : (!t.bInitialized || !t.bEnabled) = true
  · rw [if_pos hoff]
    refine iff_of_true (noCrash_ok _) ?_
    rw [Bool.or_eq_true, Bool.not_eq_true', Bool.not_eq_true'] at hoff
    exact .inr (hoff.imp_right .inl)
  · rw [if_neg hoff]
    rw [Bool.or_eq_true, Bool.not_eq_true', Bool.not_eq_true', not_or] at hoff
    cases hlookup : bndstrgTableLookup t m.addr with
    | none => exact iff_of_true (noCrash_walked none) (.inr (.inr (.inr (.inl rfl))))
    | some found =>
      cases found with
      | some i =>
        cases hband : bandOf m.band with
        | some b => exact iff_of_true (noCrash_ok _) (.inl (Option.some_ne_none b))
        | none =>
          refine iff_of_false (fun h => nomatch h _ rfl) ?_
          simp [hoff]
      | none =>
        obtain ⟨⟨t₁, ret, entry⟩, hinsert, hfull⟩ := insertEntry_ends hlookup now
        dsimp only [walked]
        rw [hinsert]
        cases entry with
        | none => exact iff_of_true (noCrash_ok _) (.inr (.inr (.inr (.inr ⟨rfl, hfull.mp rfl⟩))))
        | some i =>
          have hroom : ¬maxTableSize ≤ t.size := fun h => nomatch hfull.mpr h
          cases hband : bandOf m.band with
          | some b => exact iff_of_true (noCrash_ok _) (.inl (Option.some_ne_none b))
          | none =>
            refine iff_of_false (fun h => nomatch h _ rfl) ?_
            simp [hoff, hroom]

theorem noCrash_agingRsp : NoCrash (eventAgingRsp t m) ↔
    (m.returnCode = 0#8 → m.talbeIndex.toNat < maxTableSize) := by
  unfold eventAgingRsp
  by_cases hcode : m.returnCode = 0#8
  · rw [if_pos hcode]
    by_cases hindex : m.talbeIndex.toNat < maxTableSize
    · rw [dif_pos hindex]
      refine iff_of_true ?_ fun _ => hindex
      dsimp only
      split
      · exact noCrash_ok _
      · split
        · exact noCrash_map.mpr (noCrash_walked _)
        · exact noCrash_ok _
    · rw [dif_neg hindex]
      exact iff_of_false (fun h => nomatch h _ rfl) fun h => hindex (h hcode)
  · rw [if_neg hcode]
    exact iff_of_true (noCrash_ok _) fun h => absurd h hcode

theorem noCrash_driverEvent : NoCrash (driverEvent t m now) ↔ Harmless t m := by
  unfold driverEvent Harmless
  generalize actionCode m.action = action
  cases action with
  | connectionReq => exact noCrash_map.trans noCrash_checkConnReq
  | cliAgingRsp => exact noCrash_agingRsp
  | cliDel => exact iff_of_true (noCrash_map.mpr (noCrash_walked _)) trivial
  | infStatusRsp2G => exact noCrash_copyName m.uc2GIfName
  | infStatusRsp5G => exact noCrash_copyName m.uc5GIfName
  | infStatusRspDbdc => exact noCrash_copyNames
  | _ => exact iff_of_true (noCrash_ok _) trivial

theorem noCrash_driverStep {d : Daemon} {ev : DriverEvent} :
    NoCrash (driverStep d ev) ↔ ∀ m now, ev = .msg m now → Harmless d.table m := by
  cases ev with
  | tick now => exact iff_of_true (noCrash_ok _) fun m now h => nomatch h
  | msg m now =>
    refine noCrash_map.trans (noCrash_driverEvent.trans ?_)
    constructor
    · intro h m' now' heq
      cases heq
      exact h
    · intro h
      exact h m now rfl

/-- The daemon survives exactly the runs in which every message is harmless when it arrives. -/
theorem driverRun_noCrash_iff (es : List DriverEvent) :
    NoCrash (driverRun .init es) ↔ AllHarmless .init es := by
  generalize Daemon.init = d
  induction es generalizing d with
  | nil => exact iff_of_true (noCrash_ok d) trivial
  | cons ev es ih =>
    unfold driverRun AllHarmless
    by_cases hrunning : d.running = true
    · rw [if_pos hrunning, forall_prop_of_true hrunning, ← noCrash_driverStep]
      cases hstep : driverStep d ev with
      | error f =>
        have hfault : NoCrash ((.error f : Except Fault Daemon) >>= fun d => driverRun d es) ↔
            NoCrash (.error f : Except Fault Daemon) := (noCrash_error f).trans (noCrash_error f).symm
        exact hfault.trans (and_iff_left fun d' h => nomatch h).symm
      | ok d' =>
        refine (ih d').trans ?_
        rw [and_iff_right (noCrash_ok d')]
        constructor
        · intro h d'' heq
          cases heq
          exact h
        · intro h
          exact h d' rfl
    · rw [if_neg hrunning]
      exact iff_of_true (noCrash_ok d) fun h => absurd h hrunning

end Crashes

section Decoding

variable {t : CliTable} {m : DriverMsg} {now : Timespec} {r : CliTable × ReturnCode}

theorem walked_ok {α : Type} {r : Option α} {x : α} : walked r = .ok x ↔ r = some x := by
  cases r with
  | none => exact iff_of_false (fun h => nomatch h) fun h => nomatch h
  | some y =>
    rw [walked, Except.ok.injEq, Option.some.injEq]

theorem map_ok {α β : Type} {r : Except Fault α} {f : α → β} {y : β} :
    r.map f = .ok y ↔ ∃ x, r = .ok x ∧ f x = y := by
  cases r with
  | error e => simp [Except.map]
  | ok x => simp [Except.map]

theorem copyName_ok {name : Vector U8 32} {n : IfName} (h : copyName name = .ok n) :
    n = cName name := by
  unfold copyName at h
  split at h
  · cases h
    rfl
  · cases h

theorem checkConnReq_decoded (h : checkConnReq t m now = .ok r) :
    bndstrgCheckConnReq t m.band m.addr m.frameType m.rssi m.bAllowStaConnectInHt now =
      some r := by
  unfold checkConnReq at h
  unfold bndstrgCheckConnReq
  split at h
  · rename_i hoff
    cases h
    rw [if_pos hoff]
  · rename_i hon
    rw [if_neg hon]
    cases hlookup : bndstrgTableLookup t m.addr with
    | none =>
      rw [hlookup] at h
      cases h
    | some found =>
      rw [hlookup] at h
      cases found with
      | some i =>
        dsimp only
        cases hband : bandOf m.band with
        | none =>
          rw [hband] at h
          cases h
        | some b =>
          rw [hband] at h
          cases h
          rfl
      | none =>
        dsimp only at h ⊢
        cases hinsert : bndstrgInsertEntry t m.addr now with
        | none =>
          rw [hinsert] at h
          cases h
        | some placed =>
          obtain ⟨t₁, ret, entry⟩ := placed
          rw [hinsert] at h
          cases entry with
          | none =>
            cases h
            rfl
          | some i =>
            dsimp only
            cases hband : bandOf m.band with
            | none =>
              rw [hband] at h
              cases h
            | some b =>
              rw [hband] at h
              cases h
              rfl

theorem eventAgingRsp_decoded (h : eventAgingRsp t m = .ok r) :
    bndstrgEventAgingRsp t m.decoded = some r := by
  unfold eventAgingRsp at h
  unfold bndstrgEventAgingRsp
  have hcode : m.decoded.returnCode = m.returnCode := rfl
  have hband : m.decoded.band = m.band := rfl
  have haddr : m.decoded.addr = m.addr := rfl
  rw [hcode, hband, haddr]
  split at h
  · rename_i hzero
    rw [if_pos hzero]
    split at h
    · rename_i hlt
      cases hconf : confirmedBands m.band with
      | none =>
        rw [hconf] at h
        cases h
        rfl
      | some confirmed =>
        rw [hconf] at h
        dsimp only at h ⊢
        have hlt' : m.decoded.talbeIndex.toNat < maxTableSize := hlt
        rw [dif_pos hlt']
        split at h
        · rename_i hboth
          refine (if_pos hboth).trans ?_
          obtain ⟨x, hdel, rfl⟩ := map_ok.mp h
          exact Option.map_eq_some_iff.mpr ⟨x, walked_ok.mp hdel, rfl⟩
        · rename_i hboth
          cases h
          exact if_neg hboth
    · cases h
  · rename_i hne
    rw [if_neg hne]
    cases h
    rfl

theorem driverEvent_decoded (h : driverEvent t m now = .ok r) :
    bndstrgEventHandle t m.decoded now = some r := by
  have hact : m.decoded.action = actionCode m.action := rfl
  unfold driverEvent at h
  unfold bndstrgEventHandle
  rw [hact]
  generalize actionCode m.action = action at h
  cases action with
  | connectionReq =>
    obtain ⟨x, hreq, rfl⟩ := map_ok.mp h
    exact Option.map_eq_some_iff.mpr ⟨x, checkConnReq_decoded hreq, rfl⟩
  | cliAgingRsp => exact eventAgingRsp_decoded h
  | cliDel =>
    obtain ⟨x, hdel, rfl⟩ := map_ok.mp h
    exact Option.map_eq_some_iff.mpr ⟨x, walked_ok.mp hdel, rfl⟩
  | infStatusRsp2G =>
    cases hname : copyName m.uc2GIfName with
    | error f => rw [hname] at h; cases h
    | ok name =>
      rw [hname] at h
      cases h
      rw [copyName_ok hname]
      rfl
  | infStatusRsp5G =>
    cases hname : copyName m.uc5GIfName with
    | error f => rw [hname] at h; cases h
    | ok name =>
      rw [hname] at h
      cases h
      rw [copyName_ok hname]
      rfl
  | infStatusRspDbdc =>
    cases hname : copyName m.uc2GIfName with
    | error f => rw [hname] at h; cases h
    | ok name =>
      cases hname' : copyName m.uc5GIfName with
      | error f => rw [hname, hname'] at h; cases h
      | ok name' =>
        rw [hname, hname'] at h
        cases h
        rw [copyName_ok hname, copyName_ok hname']
        rfl
  | _ =>
    cases h
    rfl

def DriverEvent.decoded : DriverEvent → Event
  | .msg m now => .msg m.decoded now
  | .tick now => .tick now

theorem driverStep_decoded {d d' : Daemon} {ev : DriverEvent} (hrunning : d.running = true)
    (h : driverStep d ev = .ok d') : daemonNext d ev.decoded = some d' := by
  cases ev with
  | tick now =>
    cases h
    rw [daemonNext, DriverEvent.decoded, daemonStep, if_pos hrunning]
    rfl
  | msg m now =>
    obtain ⟨r, hr, rfl⟩ := map_ok.mp h
    rw [daemonNext, DriverEvent.decoded, daemonStep, if_pos hrunning, driverEvent_decoded hr]
    rfl

theorem driverRun_decoded {d d' : Daemon} {es : List DriverEvent} (h : driverRun d es = .ok d') :
    ∃ done, done <+: es ∧ Run (Graph daemonNext) d (done.map DriverEvent.decoded) d' := by
  induction es generalizing d with
  | nil =>
    cases h
    exact ⟨[], List.nil_prefix, .nil⟩
  | cons ev es ih =>
    unfold driverRun at h
    split at h
    · rename_i hrunning
      cases hstep : driverStep d ev with
      | error f => rw [hstep] at h; cases h
      | ok d₁ =>
        rw [hstep] at h
        obtain ⟨done, hdone, hrun⟩ := ih h
        refine ⟨ev :: done, List.cons_prefix_cons.mpr ⟨rfl, hdone⟩, ?_⟩
        exact (Run.single (driverStep_decoded hrunning hstep)).trans hrun
    · cases h
      exact ⟨[], List.nil_prefix, .nil⟩

end Decoding

section Faults

def driverUp : List DriverEvent :=
  [.msg { action := 12, onOff := 1, band := band2G ||| band5G } ⟨1, 0⟩]

def faultOf {α : Type} : Except Fault α → Option Fault
  | .error f => some f
  | .ok _ => none

theorem faultOf_crash {α : Type} {r : Except Fault α} {f : Fault} (h : faultOf r = some f)
    (hf : f ≠ .endless) : ¬NoCrash r := by
  intro hsafe
  cases r with
  | ok x => cases h
  | error f' =>
    cases h
    exact hf ((noCrash_error f).mp hsafe)

/-- A request on both radios, a response about entry 64, and a name without NUL. -/
theorem driver_crashes :
    ¬NoCrash (driverRun .init (driverUp ++ [.msg { action := 1, band := 3 } ⟨2, 0⟩])) ∧
      ¬NoCrash (driverRun .init [.msg { action := 6, band := 1, talbeIndex := 64 } ⟨2, 0⟩]) ∧
      ¬NoCrash (driverRun .init
        [.msg { action := 8, uc2GIfName := Vector.replicate 32 0x61 } ⟨2, 0⟩]) := by
  refine ⟨?_, ?_, ?_⟩
  · exact faultOf_crash (f := .nullStatistics) (by decide +kernel) (by decide)
  · exact faultOf_crash (f := .entryIndex) (by decide +kernel) (by decide)
  · exact faultOf_crash (f := .nameOverflow) (by decide +kernel) (by decide)

end Faults

end OpenwrtMtk.Bndstrg
