import OpenwrtMtk.Bndstrg.Effect

/-!
# The aging protocol

The daemon together with the aging requests its driver may still answer and the answers in
flight. The driver answers a request at most once per radio, copies its index and address and
may take as long as it likes. An answer reaches no other client as long as no slot is filled
anew while requests or answers about its former holder are outstanding.
-/

namespace OpenwrtMtk.Bndstrg

open Toolkit

set_option autoImplicit false

variable {t t' : CliTable} {i : Slot} {m : BndstrgMsg} {now : Timespec} {ret : ReturnCode}

/-- A `CLI_AGING_REQ` in the driver's hands and the radios that have not answered it. -/
structure AgingReq where
  talbeIndex : U8
  addr : MacAddr
  silent : Band → Bool

structure AgingRsp where
  talbeIndex : U8
  addr : MacAddr
  band : Band
  deriving DecidableEq

structure AgingNet where
  daemon : Daemon
  requests : List AgingReq
  responses : List AgingRsp

inductive NetEvent where
  | tick (now : Slot → Timespec)
  | msg (m : BndstrgMsg) (now : Timespec)
  | answer (k : Nat) (b : Band)
  | deliver (k : Nat) (now : Timespec)

def bandByte : Band → U8
  | .b2G => band2G
  | .b5G => band5G

def AgingRsp.msg (r : AgingRsp) : BndstrgMsg :=
  { action := .cliAgingRsp, returnCode := 0, talbeIndex := r.talbeIndex,
    band := bandByte r.band, addr := r.addr }

def agingRequests (cmds : List DrvCmd) : List AgingReq :=
  cmds.filterMap fun
    | .accessibleCli _ .cliAgingReq addr talbeIndex _ =>
      some ⟨BitVec.ofNat 8 talbeIndex, addr, fun _ => true⟩
    | _ => none

def netStep (net : AgingNet) : NetEvent → Option AgingNet
  | .tick now =>
    (daemonStep net.daemon (.tick now)).map fun r =>
      { net with daemon := r.1, requests := net.requests ++ agingRequests r.2 }
  | .msg m now =>
    if m.action = .cliAgingRsp then none
    else (daemonStep net.daemon (.msg m now)).map fun r => { net with daemon := r.1 }
  | .answer k b =>
    match net.requests[k]? with
    | some q =>
      if q.silent b then
        some { net with
          requests := net.requests.set k { q with silent := Function.update q.silent b false }
          responses := net.responses ++ [⟨q.talbeIndex, q.addr, b⟩] }
      else none
    | none => none
  | .deliver k now =>
    match net.responses[k]? with
    | some r =>
      (daemonStep net.daemon (.msg r.msg now)).map fun r =>
        { net with daemon := r.1, responses := net.responses.eraseIdx k }
    | none => none

def AgingNet.init : AgingNet := ⟨.init, [], []⟩

def AgingNet.outstanding (net : AgingNet) : List (U8 × MacAddr) :=
  (net.requests.filter fun q => q.silent .b2G || q.silent .b5G).map
      (fun q => (q.talbeIndex, q.addr)) ++
    net.responses.map fun r => (r.talbeIndex, r.addr)

/-- A connection request fills no slot about whose former holder an answer is outstanding. -/
def NoReuse (net : AgingNet) : NetEvent → Prop
  | .msg m _ => ∀ i ∈ insertedSlot net.daemon.table m, ∀ p ∈ net.outstanding,
      p.1.toNat = i → p.2 = m.addr
  | _ => True

instance (net : AgingNet) : (e : NetEvent) → Decidable (NoReuse net e)
  | .msg m _ => inferInstanceAs (Decidable (∀ i ∈ insertedSlot net.daemon.table m, _))
  | .tick _ | .answer _ _ | .deliver _ _ => inferInstanceAs (Decidable True)

def SparesOthers (t t' : CliTable) (a : MacAddr) : Prop :=
  ∀ i, (t.entry i).bValid = true → (t.entry i).addr ≠ a →
    (t'.entry i).bValid = true ∧ (t'.entry i).agingConfirmed = (t.entry i).agingConfirmed

structure AgingInv (net : AgingNet) : Prop where
  slots : SlotsInv net.daemon.table
  holder : ∀ p ∈ net.outstanding, ∀ i : Slot, p.1.toNat = i →
    (net.daemon.table.entry i).bValid = true → (net.daemon.table.entry i).addr = p.2

def DrvCmd.About (c : DrvCmd) (e : CliEntry) : Prop :=
  ∃ iface action update, c = .accessibleCli iface action e.addr e.tableIndex update

theorem accessibleCli_about {iface : Iface} {action : ActionCode} {e e' : CliEntry}
    (haddr : e'.addr = e.addr) (hindex : e'.tableIndex = e.tableIndex) :
    (bndstrgAccessibleCli iface e' action).About e :=
  ⟨iface, action, _, by rw [bndstrgAccessibleCli, haddr, hindex]⟩

theorem periodicEntry2G_about (t : CliTable) (e : CliEntry) :
    ∀ c ∈ (periodicEntry2G t e).2, c.About e := by
  intro c hc
  obtain ⟨flags, hmark⟩ := mark2GOnly_frame t e
  unfold periodicEntry2G at hc
  simp only [hmark] at hc
  split at hc
  · rcases List.mem_cons.mp hc with rfl | hc
    · exact accessibleCli_about rfl rfl
    · split at hc
      · rw [List.mem_singleton.mp hc]
        exact accessibleCli_about rfl rfl
      · simp at hc
  · simp at hc

theorem periodicEntry5G_about (t : CliTable) (e : CliEntry) :
    ∀ c ∈ (periodicEntry5G t e).2, c.About e := by
  intro c hc
  obtain ⟨flags, hframe⟩ := allowStaConn5G_frame t e
  unfold periodicEntry5G at hc
  split at hc
  · simp at hc
  · split at hc <;> rename_i e₁ heq <;> rw [heq] at hframe <;> simp only at hframe
    · rcases List.mem_cons.mp hc with rfl | hc
      · exact accessibleCli_about (by rw [hframe]; rfl) (by rw [hframe]; rfl)
      · split at hc
        · rw [List.mem_singleton.mp hc]
          exact accessibleCli_about (by rw [hframe]; rfl) (by rw [hframe]; rfl)
        · simp at hc
    · rw [List.mem_singleton.mp hc]
      exact accessibleCli_about (by rw [hframe]; rfl) (by rw [hframe]; rfl)

theorem periodicEntry_about (t : CliTable) (now : Timespec) (e : CliEntry) :
    ∀ c ∈ (periodicEntry t now e).2, e.bValid = true ∧ c.About e := by
  intro c hc
  unfold periodicEntry at hc
  split at hc
  · rename_i hv
    refine ⟨hv, ?_⟩
    simp only at hc
    split at hc
    · simp only [List.mem_cons, List.not_mem_nil, or_false] at hc
      rcases hc with rfl | rfl <;> exact accessibleCli_about rfl rfl
    · rcases List.mem_append.mp hc with hc | hc
      · obtain ⟨iface, action, update, rfl⟩ := periodicEntry2G_about t _ c hc
        exact ⟨iface, action, update, rfl⟩
      · obtain ⟨flags, hframe⟩ := periodicEntry2G_frame t
          { e with elapsedTime := bndstrgGetEntryElapsedTime e now }
        obtain ⟨iface, action, update, rfl⟩ := periodicEntry5G_about t _ c hc
        exact ⟨iface, action, update, by rw [hframe]⟩
  · simp at hc

theorem tick_requests {d d' : Daemon} {now : Slot → Timespec} {cmds : List DrvCmd} {q : AgingReq}
    (hinv : SlotsInv d.table) (h : daemonStep d (.tick now) = some (d', cmds))
    (hq : q ∈ agingRequests cmds) :
    ∃ i : Slot, (d.table.entry i).bValid = true ∧ q.talbeIndex.toNat = i ∧
      q.addr = (d.table.entry i).addr := by
  obtain ⟨-, rfl, -⟩ := daemonStep_tick h
  obtain ⟨c, hc, hcq⟩ := List.mem_filterMap.mp hq
  have hloop : c ∈ (periodicLoop d.table now).2 := by
    rcases periodicExec_cases d.table now with ⟨-, -, hcmds⟩ | ⟨-, -, -, -, -, hidle⟩
    · rwa [hcmds] at hc
    · split at hcq
      · exact absurd ⟨_, _, _, _, rfl⟩ (hidle _ hc _)
      · simp at hcq
  obtain ⟨i, -, hi⟩ := List.mem_flatMap.mp hloop
  obtain ⟨hv, iface, action, update, rfl⟩ := periodicEntry_about _ _ _ c hi
  split at hcq
  · rename_i heq
    simp only [DrvCmd.accessibleCli.injEq] at heq
    simp only [Option.some.injEq] at hcq
    refine ⟨i, hv, ?_, by rw [← hcq, heq.2.2.1]⟩
    rw [← hcq, ← heq.2.2.2.1, hinv.index i hv]
    exact Nat.mod_eq_of_lt (Nat.lt_trans i.isLt (by decide))
  · simp at hcq

theorem mem_outstanding {net : AgingNet} {p : U8 × MacAddr} :
    p ∈ net.outstanding ↔
      (∃ q ∈ net.requests, (∃ b, q.silent b = true) ∧ (q.talbeIndex, q.addr) = p) ∨
        ∃ r ∈ net.responses, (r.talbeIndex, r.addr) = p := by
  have hband : ∀ q : AgingReq, (q.silent .b2G || q.silent .b5G) = true ↔
      ∃ b, q.silent b = true := by
    intro q
    rw [Bool.or_eq_true]
    refine ⟨fun h => h.elim (⟨_, ·⟩) (⟨_, ·⟩), ?_⟩
    rintro ⟨b, hb⟩
    cases b
    · exact .inl hb
    · exact .inr hb
  simp only [AgingNet.outstanding, List.mem_append, List.mem_map, List.mem_filter, hband, and_assoc]

theorem AgingInv.holder_of {net net' : AgingNet} (hinv : AgingInv net)
    (hout : ∀ p ∈ net'.outstanding, p ∈ net.outstanding ∨
      ∃ i : Slot, (net.daemon.table.entry i).bValid = true ∧ p.1.toNat = i ∧
        p.2 = (net.daemon.table.entry i).addr)
    (hentry : ∀ i, (net'.daemon.table.entry i).bValid = true →
      (net.daemon.table.entry i).bValid = true ∧
        (net'.daemon.table.entry i).addr = (net.daemon.table.entry i).addr) :
    ∀ p ∈ net'.outstanding, ∀ i : Slot, p.1.toNat = i →
      (net'.daemon.table.entry i).bValid = true → (net'.daemon.table.entry i).addr = p.2 := by
  intro p hp i hpi hi
  obtain ⟨hv, haddr⟩ := hentry i hi
  rw [haddr]
  rcases hout p hp with hold | ⟨j, hj, hpj, hpaddr⟩
  · exact hinv.holder p hold i hpi hv
  · obtain rfl : i = j := Fin.ext (hpi.symm.trans hpj)
    exact hpaddr.symm

variable {net net' : AgingNet} {ev : NetEvent} {es : List NetEvent} {k : Nat} {r : AgingRsp}

theorem netStep_deliver (hr : net.responses[k]? = some r)
    (h : netStep net (.deliver k now) = some net') :
    ∃ ret, bndstrgEventHandle net.daemon.table r.msg now = some (net'.daemon.table, ret) ∧
      net'.requests = net.requests ∧ net'.responses = net.responses.eraseIdx k := by
  simp only [netStep, hr] at h
  obtain ⟨⟨d', cmds⟩, hstep, rfl⟩ := Option.map_eq_some_iff.mp h
  obtain ⟨ret, hhandle, -⟩ := daemonStep_msg hstep
  exact ⟨ret, hhandle, rfl, rfl⟩

theorem netStep_inv (hinv : AgingInv net) (hok : NoReuse net ev)
    (h : netStep net ev = some net') : AgingInv net' := by
  cases ev with
  | tick now =>
    simp only [netStep] at h
    obtain ⟨⟨d', cmds⟩, hstep, rfl⟩ := Option.map_eq_some_iff.mp h
    have htable := (daemonStep_tick hstep).1
    refine ⟨?_, hinv.holder_of (fun p hp => ?_) fun i hi => ?_⟩
    · simp only [htable]
      exact periodicExec_slotsInv hinv.slots now
    · rcases mem_outstanding.mp hp with ⟨q, hq, hsilent, rfl⟩ | hrsp
      · rcases List.mem_append.mp hq with hq | hq
        · exact .inl (mem_outstanding.mpr (.inl ⟨q, hq, hsilent, rfl⟩))
        · exact .inr (tick_requests hinv.slots hstep hq)
      · exact .inl (mem_outstanding.mpr (.inr hrsp))
    · obtain ⟨flags, elapsed, hframe⟩ := periodicExec_frame net.daemon.table now i
      simp only [htable, hframe] at hi ⊢
      exact ⟨hi, trivial⟩
  | msg m now =>
    simp only [netStep] at h
    split at h
    · simp at h
    rename_i hact
    obtain ⟨⟨d', cmds⟩, hstep, rfl⟩ := Option.map_eq_some_iff.mp h
    obtain ⟨ret, hhandle, -⟩ := daemonStep_msg hstep
    refine ⟨(eventHandle_effect hinv.slots.size hhandle).slotsInv hinv.slots, ?_⟩
    intro p hp i hpi hi
    rcases eventHandle_holder hinv.slots hhandle i hi with hsame | ⟨hfill, haddr, -⟩
    · exact hsame.addr.trans (hinv.holder p hp i hpi hsame.valid)
    · exact haddr.trans (hok i hfill p hp hpi).symm
  | answer k b =>
    simp only [netStep] at h
    split at h
    · rename_i q hq
      split at h
      · rename_i hsilent
        obtain rfl := Option.some.inj h
        have hmem := List.mem_of_getElem? hq
        refine ⟨hinv.slots, hinv.holder_of (fun p hp => .inl ?_) fun i hi => ⟨hi, rfl⟩⟩
        rcases mem_outstanding.mp hp with ⟨q', hq', ⟨b', hb'⟩, rfl⟩ | ⟨r, hr, rfl⟩
        · rcases List.mem_or_eq_of_mem_set hq' with hq' | rfl
          · exact mem_outstanding.mpr (.inl ⟨q', hq', ⟨b', hb'⟩, rfl⟩)
          · exact mem_outstanding.mpr (.inl ⟨q, hmem, ⟨b, hsilent⟩, rfl⟩)
        · rcases List.mem_append.mp hr with hr | hr
          · exact mem_outstanding.mpr (.inr ⟨r, hr, rfl⟩)
          · rw [List.mem_singleton.mp hr]
            exact mem_outstanding.mpr (.inl ⟨q, hmem, ⟨b, hsilent⟩, rfl⟩)
      · simp at h
    · simp at h
  | deliver k now =>
    cases hr : net.responses[k]? with
    | none => simp [netStep, hr] at h
    | some r =>
      obtain ⟨ret, hhandle, hreq, hrsp⟩ := netStep_deliver hr h
      refine ⟨(eventHandle_effect hinv.slots.size hhandle).slotsInv hinv.slots,
        hinv.holder_of (fun p hp => .inl ?_) fun i hi => ?_⟩
      swap
      · rcases eventHandle_holder hinv.slots hhandle i hi with hsame | ⟨hfill, -⟩
        · exact ⟨hsame.valid, hsame.addr⟩
        · rw [insertedSlot_eq_none (by simp [AgingRsp.msg])] at hfill
          simp at hfill
      rw [mem_outstanding, hreq, hrsp] at hp
      exact mem_outstanding.mpr (hp.imp_right fun ⟨r', hr', heq⟩ =>
        ⟨r', List.mem_of_mem_eraseIdx hr', heq⟩)

theorem deliver_spares (hinv : AgingInv net) (hr : net.responses[k]? = some r)
    (h : netStep net (.deliver k now) = some net') :
    SparesOthers net.daemon.table net'.daemon.table r.addr := by
  obtain ⟨ret, hhandle, -⟩ := netStep_deliver hr h
  intro i hv haddr
  have hother : r.msg.talbeIndex.toNat ≠ i := fun hindex => haddr (hinv.holder _
    (mem_outstanding.mpr (.inr ⟨r, List.mem_of_getElem? hr, rfl⟩)) i hindex hv)
  have hsame := eventHandle_other hinv.slots hv
    (by rw [BndstrgMsg.concerns, AgingRsp.msg, decide_eq_false (Ne.symm haddr)]
        exact decide_eq_false hother) hhandle
  rw [hsame]
  exact ⟨hv, rfl⟩

theorem agingInv_init : AgingInv .init :=
  ⟨tableInit_slotsInv, fun p hp => by simp [AgingNet.init, AgingNet.outstanding] at hp⟩

/-- In a run that fills no slot while answers about its former holder are outstanding, no
answer touches a slot that holds another client. -/
theorem aging_answer_spares_others
    (h : Run (Guarded NoReuse (Graph netStep)) AgingNet.init es net)
    (hr : net.responses[k]? = some r) (hstep : netStep net (.deliver k now) = some net') :
    SparesOthers net.daemon.table net'.daemon.table r.addr :=
  deliver_spares (h.invariant AgingInv (fun _ _ _ hinv hs => netStep_inv hinv hs.1 hs.2) agingInv_init)
    hr hstep

theorem confirmedBands_byte (b : Band) :
    confirmedBands (bandByte b) = some (fun b' => decide (b' = b)) := by
  cases b <;> rfl

theorem deliver_confuses (net : AgingNet) (now : Timespec) {i : Slot} (hrun : net.daemon.running = true)
    (hr : net.responses[k]? = some r) (hindex : r.talbeIndex.toNat = i)
    (hv : (net.daemon.table.entry i).bValid = true)
    (hfresh : (net.daemon.table.entry i).agingConfirmed = fun _ => false)
    (haddr : (net.daemon.table.entry i).addr ≠ r.addr) :
    ∃ net', netStep net (.deliver k now) = some net' ∧
      ¬SparesOthers net.daemon.table net'.daemon.table r.addr := by
  have hlt : r.talbeIndex.toNat < maxTableSize := hindex ▸ i.isLt
  obtain rfl : i = ⟨r.talbeIndex.toNat, hlt⟩ := Fin.ext hindex.symm
  have hboth : ((confirmAging (net.daemon.table.entry ⟨r.talbeIndex.toNat, hlt⟩)
      fun b => decide (b = r.band)).agingConfirmed .b2G &&
      (confirmAging (net.daemon.table.entry ⟨r.talbeIndex.toNat, hlt⟩)
      fun b => decide (b = r.band)).agingConfirmed .b5G) = false := by
    simp only [confirmAging, hfresh]
    cases r.band <;> rfl
  refine ⟨⟨⟨net.daemon.table.setEntry ⟨r.talbeIndex.toNat, hlt⟩
      (confirmAging (net.daemon.table.entry ⟨r.talbeIndex.toNat, hlt⟩) fun b =>
        decide (b = r.band)), true⟩, net.requests, net.responses.eraseIdx k⟩,
    by simp [netStep, hr, daemonStep, hrun, bndstrgEventHandle, bndstrgEventAgingRsp,
      AgingRsp.msg, confirmedBands_byte, hlt, hboth], fun hspares => ?_⟩
  have hconfirmed := (hspares _ hv haddr).2
  simp only [setEntry_entry, Function.update_self, hfresh] at hconfirmed
  have hband := congrFun hconfirmed r.band
  simp [confirmAging] at hband

theorem msg_fills {i : Slot} (hinv : SlotsInv t) (hfill : i ∈ insertedSlot t m)
    (h : bndstrgEventHandle t m now = some (t', ret)) :
    (t'.entry i).bValid = true ∧ (t'.entry i).addr = m.addr ∧
      (t'.entry i).agingConfirmed = fun _ => false := by
  cases eventHandle_effect hinv.size h with
  | keep hnone => simp [hnone] at hfill
  | note _ _ _ _ hnone => simp [hnone] at hfill
  | insert j b _ hfill' hr =>
    obtain rfl : j = i := Option.some.inj (hfill'.symm.trans hfill)
    obtain ⟨flags, stat, hframe⟩ := notedEntry_frame t m b (freshEntry j m.addr now)
    rw [hr.at_slot rfl, hframe]
    exact ⟨rfl, rfl, rfl⟩
  | confirm _ _ hact | confirmFree _ _ hact | free _ hact =>
    rw [insertedSlot_eq_none (by simp [hact])] at hfill
    simp at hfill

/-- Filling a slot with answers about another client outstanding leads to an answer that
touches the new client. -/
theorem reuse_reaches_confusion (hinv : AgingInv net) (hbad : ¬NoReuse net ev)
    (h : netStep net ev = some net') :
    ∃ es net₁ net₂ k r, Run (Graph netStep) net' es net₁ ∧ net₁.responses[k]? = some r ∧
      netStep net₁ (.deliver k ⟨0, 0⟩) = some net₂ ∧
      ¬SparesOthers net₁.daemon.table net₂.daemon.table r.addr := by
  cases ev with
  | tick | answer | deliver => simp [NoReuse] at hbad
  | msg m now =>
    simp only [NoReuse, not_forall] at hbad
    obtain ⟨i, hfill, p, hp, hpi, hpaddr⟩ := hbad
    simp only [netStep] at h
    split at h
    · simp at h
    obtain ⟨⟨d', cmds⟩, hstep, rfl⟩ := Option.map_eq_some_iff.mp h
    obtain ⟨ret, hhandle, -, -, hrun⟩ := daemonStep_msg hstep
    obtain ⟨hv, haddr, hfresh⟩ := msg_fills hinv.slots hfill hhandle
    rcases mem_outstanding.mp hp with ⟨q, hq, ⟨b, hsilent⟩, rfl⟩ | ⟨r, hr, rfl⟩
    · -- a request still to be answered: it is answered first
      obtain ⟨k, hk, hkq⟩ := List.mem_iff_getElem.mp hq
      have hget : net.requests[k]? = some q := by rw [List.getElem?_eq_getElem hk, hkq]
      obtain ⟨net₂, hnet₂, hspares⟩ := deliver_confuses
        { net with
          daemon := d'
          requests := net.requests.set k { q with silent := Function.update q.silent b false }
          responses := net.responses ++ [⟨q.talbeIndex, q.addr, b⟩] } ⟨0, 0⟩
        (k := net.responses.length) (r := ⟨q.talbeIndex, q.addr, b⟩) hrun (by simp) hpi hv hfresh
        (by rw [haddr]; exact Ne.symm hpaddr)
      exact ⟨_, _, net₂, _, _,
        .single (e := .answer k b) (by simp [Toolkit.Graph, netStep, hget, hsilent]),
        by simp, hnet₂, hspares⟩
    · obtain ⟨k, hk, hkr⟩ := List.mem_iff_getElem.mp hr
      have hget : net.responses[k]? = some r := by rw [List.getElem?_eq_getElem hk, hkr]
      obtain ⟨net₂, hnet₂, hspares⟩ := deliver_confuses { net with daemon := d' }
        ⟨0, 0⟩ hrun hget hpi hv hfresh (by rw [haddr]; exact Ne.symm hpaddr)
      exact ⟨_, _, net₂, k, r, .nil, hget, hnet₂, hspares⟩

def ageOut (a : MacAddr) : List NetEvent :=
  (bringUp ++ [connectionReq band2G a (-50)]).map (fun m => .msg m ⟨1, 0⟩) ++
    [.tick fun _ => ⟨200, 0⟩, .tick fun _ => ⟨201, 0⟩, .answer 0 .b2G, .answer 1 .b5G,
     .deliver 0 ⟨202, 0⟩]

theorem aging_answer_spares_others_ageOut :
    ∃ net net' r, Run (Guarded NoReuse (Graph netStep)) .init (ageOut ⟨0, 0, 0, 0, 0, 1⟩) net ∧
      net.responses[0]? = some r ∧ netStep net (.deliver 0 ⟨202, 0⟩) = some net' ∧
      SparesOthers net.daemon.table net'.daemon.table r.addr := by
  have hrun : ((exec (guardStep NoReuse netStep) .init (ageOut ⟨0, 0, 0, 0, 0, 1⟩)).bind
      fun net => (netStep net (.deliver 0 ⟨202, 0⟩)).map fun _ => net.responses[0]?) =
      some (some ⟨0, ⟨0, 0, 0, 0, 0, 1⟩, .b5G⟩) := by decide +kernel
  obtain ⟨net, hnet, hlast⟩ := Option.bind_eq_some_iff.mp hrun
  obtain ⟨net', hnet', hr⟩ := Option.map_eq_some_iff.mp hlast
  exact ⟨net, net', _, exec_guarded_run hnet, hr, hnet',
    aging_answer_spares_others (exec_guarded_run hnet) hr hnet'⟩

/-- The third answer about the first client arrives when a second one holds the slot. -/
theorem late_answer_confirms_other :
    ∃ net net' r, Run (Graph netStep) .init (ageOut ⟨0, 0, 0, 0, 0, 1⟩ ++ [.deliver 0 ⟨202, 0⟩,
        .msg (connectionReq band2G ⟨0, 0, 0, 0, 0, 2⟩ (-50)) ⟨203, 0⟩, .answer 2 .b2G]) net ∧
      net.responses[0]? = some r ∧ netStep net (.deliver 0 ⟨204, 0⟩) = some net' ∧
      ¬SparesOthers net.daemon.table net'.daemon.table r.addr := by
  have hrun : ((exec netStep .init (ageOut ⟨0, 0, 0, 0, 0, 1⟩ ++ [.deliver 0 ⟨202, 0⟩,
      .msg (connectionReq band2G ⟨0, 0, 0, 0, 0, 2⟩ (-50)) ⟨203, 0⟩, .answer 2 .b2G])).bind
      fun net => (netStep net (.deliver 0 ⟨204, 0⟩)).map fun net' =>
        (net.responses[0]?, (net.daemon.table.entry 0).bValid, (net.daemon.table.entry 0).addr,
          (net.daemon.table.entry 0).agingConfirmed .b2G,
          (net'.daemon.table.entry 0).agingConfirmed .b2G)) =
      some (some ⟨0, ⟨0, 0, 0, 0, 0, 1⟩, .b2G⟩, true, ⟨0, 0, 0, 0, 0, 2⟩, false, true) := by
    decide +kernel
  obtain ⟨net, hnet, hlast⟩ := Option.bind_eq_some_iff.mp hrun
  obtain ⟨net', hnet', hpair⟩ := Option.map_eq_some_iff.mp hlast
  simp only [Prod.mk.injEq] at hpair
  obtain ⟨hr, hv, haddr, hbefore, hafter⟩ := hpair
  refine ⟨net, net', _, exec_run hnet, hr, hnet', fun hspares => ?_⟩
  have hconfirmed := (hspares 0 hv (by rw [haddr]; decide)).2
  rw [hconfirmed, hbefore] at hafter
  simp at hafter

end OpenwrtMtk.Bndstrg
