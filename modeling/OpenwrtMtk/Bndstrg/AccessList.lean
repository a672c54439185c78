import OpenwrtMtk.Bndstrg.Aging
import OpenwrtMtk.Bndstrg.Steering

/-!
# The driver's access lists

The daemon together with the access list of each radio: the addresses that `CLI_ADD` put in
and `CLI_DEL` took out, in the order the commands were sent, less those of deleted entries.
The lists agree with the permission flags as long as no pass takes back a 2.4G permission
without telling the driver and no client is inserted twice.
-/

namespace OpenwrtMtk.Bndstrg

open Toolkit

set_option autoImplicit false

variable {t t' : CliTable} {e : CliEntry} {i : Slot} {a : MacAddr} {m : BndstrgMsg}
variable {now : Timespec} {ret : ReturnCode}

abbrev AccessLists := Band → MacAddr → Bool

def ifaceBand : Iface → Option Band
  | .ra0 => some .b2G
  | .rai0 => some .b5G
  | .named _ => none

def applyCmd (acl : AccessLists) : DrvCmd → AccessLists
  | .accessibleCli iface .cliAdd addr _ _ =>
    fun b a => acl b a || decide (ifaceBand iface = some b ∧ addr = a)
  | .accessibleCli iface .cliDel addr _ _ =>
    fun b a => acl b a && !decide (ifaceBand iface = some b ∧ addr = a)
  | _ => acl

def applyCmds (acl : AccessLists) (cmds : List DrvCmd) : AccessLists := cmds.foldl applyCmd acl

def deletedAddr (t t' : CliTable) (a : MacAddr) : Bool :=
  decide (∃ i, (t.entry i).bValid = true ∧ (t'.entry i).bValid = false ∧ (t.entry i).addr = a)

structure AccessNet where
  daemon : Daemon
  acl : AccessLists

/-- One callback and its effect on the lists, on a device that does not report DBDC mode. -/
def accessStep (net : AccessNet) : Event → Option AccessNet
  | .msg m now =>
    if m.action = .infStatusRspDbdc then none
    else (daemonStep net.daemon (.msg m now)).map fun r =>
      ⟨r.1, fun b a => net.acl b a && !deletedAddr net.daemon.table r.1.table a⟩
  | .tick now =>
    (daemonStep net.daemon (.tick now)).map fun r => ⟨r.1, applyCmds net.acl r.2⟩

def AccessNet.init : AccessNet := ⟨.init, fun _ _ => false⟩

def Agrees (net : AccessNet) : Prop :=
  ∀ i, (net.daemon.table.entry i).bValid = true → ∀ b,
    net.acl b (net.daemon.table.entry i).addr = (net.daemon.table.entry i).has (allowFlag b)

/-- The pass at `now` admits the client on 5G for its strong signal, and takes back a permission
for 2.4G that it had or that the same pass has just granted. -/
def takesBack2G (t : CliTable) (now : Timespec) (e : CliEntry) : Bool :=
  e.bValid && decide (bndstrgGetEntryElapsedTime e now < t.ageTime) && isDualBandClient e &&
    !e.has .is2GOnly && !prefers2G t (agedAt e now) && t.checks .rssi5G &&
    (e.statistics .b5G).rssi != 0#8 && strong5G t e &&
    (e.has .allowToConnet2G || (e.has .lowRssi5G && !e.has .allowToConnet5G))

/-- No valid entry already has the address of a client being inserted, and no pass takes back a
2.4G permission. -/
def KeepsLists (net : AccessNet) : Event → Prop
  | .msg m _ => ∀ _i ∈ insertedSlot net.daemon.table m, ∀ j,
      (net.daemon.table.entry j).bValid = true → (net.daemon.table.entry j).addr ≠ m.addr
  | .tick now => net.daemon.table.operational = true →
      ∀ i, takesBack2G net.daemon.table (now i) (net.daemon.table.entry i) = false

instance (net : AccessNet) : (e : Event) → Decidable (KeepsLists net e)
  | .msg m _ => inferInstanceAs (Decidable (∀ _i ∈ insertedSlot net.daemon.table m, _))
  | .tick _ => inferInstanceAs (Decidable (_ → _))

structure AccessInv (net : AccessNet) : Prop where
  slots : SlotsInv net.daemon.table
  single : net.daemon.table.dbdcMode = false
  unique : ∀ i j, (net.daemon.table.entry i).bValid = true →
    (net.daemon.table.entry j).bValid = true →
    (net.daemon.table.entry i).addr = (net.daemon.table.entry j).addr → i = j
  agrees : Agrees net
  listed : ∀ b a, net.acl b a = true → ∃ i, (net.daemon.table.entry i).bValid = true ∧
    (net.daemon.table.entry i).addr = a

theorem allowStaConn5G_snd (t : CliTable) (e : CliEntry) :
    (allowStaConn5G t e).2 = if isDualBandClient e && !prefers2G t e && t.checks .rssi5G &&
      (e.statistics .b5G).rssi != 0#8 && strong5G t e then e.clear .allowToConnet2G else e := by
  cases hdual : isDualBandClient e with
  | false =>
    unfold allowStaConn5G
    simp only [hdual]
    split <;> rfl
  | true =>
    by_cases hrssi : (e.statistics .b5G).rssi = 0#8
    · unfold allowStaConn5G
      simp only [hrssi, bne_self_eq_false]
      repeat' split
      all_goals simp_all
    · rw [allowStaConn5G_dual hdual hrssi]
      cases prefers2G t e <;> cases t.checks .rssi5G <;> simp [hrssi]

@[simp] theorem applyCmds_nil (acl : AccessLists) : applyCmds acl [] = acl := rfl

theorem applyCmds_cons (acl : AccessLists) (c : DrvCmd) (cmds : List DrvCmd) :
    applyCmds acl (c :: cmds) = applyCmds (applyCmd acl c) cmds := rfl

theorem applyCmds_append (acl : AccessLists) (cmds cmds' : List DrvCmd) :
    applyCmds acl (cmds ++ cmds') = applyCmds (applyCmds acl cmds) cmds' :=
  List.foldl_append

theorem applyCmd_other (acl : AccessLists) {c : DrvCmd} (h : ¬c.Names a) (b : Band) :
    applyCmd acl c b a = acl b a := by
  unfold applyCmd
  split
  · rename_i iface addr index update
    have hne : addr ≠ a := fun heq => h ⟨iface, _, index, update, by rw [heq]⟩
    simp [hne]
  · rename_i iface addr index update
    have hne : addr ≠ a := fun heq => h ⟨iface, _, index, update, by rw [heq]⟩
    simp [hne]
  · rfl

theorem applyCmds_other (acl : AccessLists) {cmds : List DrvCmd}
    (h : ∀ c ∈ cmds, ¬c.Names a) (b : Band) : applyCmds acl cmds b a = acl b a := by
  induction cmds generalizing acl with
  | nil => rfl
  | cons c cmds ih =>
    rw [applyCmds_cons, ih _ fun c' hc' => h c' (List.mem_cons_of_mem _ hc'),
      applyCmd_other acl (h c List.mem_cons_self)]

/-- The lists agree with the flags of the entry `e`. -/
def AgreesAt (acl : AccessLists) (e : CliEntry) : Prop :=
  ∀ b, acl b e.addr = e.has (allowFlag b)

theorem mark2GOnly_has (t : CliTable) (e : CliEntry) {f : ControlFlag} (hf : f ≠ .is2GOnly) :
    (mark2GOnly t e).has f = e.has f := by
  unfold mark2GOnly
  split <;> simp [Ne.symm hf]

theorem set_allowFlag (e : CliEntry) (b b' : Band) :
    (e.set (allowFlag b)).has (allowFlag b') = (e.has (allowFlag b') || decide (b = b')) := by
  rw [has_set]
  simp only [allowFlag_inj]

theorem clear_allowFlag (e : CliEntry) (b b' : Band) :
    (e.clear (allowFlag b)).has (allowFlag b') = (e.has (allowFlag b') && !decide (b = b')) := by
  rw [has_clear]
  simp only [allowFlag_inj]

theorem AgreesAt.add {acl : AccessLists} {iface : Iface} {b : Band} (hag : AgreesAt acl e)
    (hiface : ifaceBand iface = some b) :
    AgreesAt (applyCmd acl (bndstrgAccessibleCli iface (e.set (allowFlag b)) .cliAdd))
      (e.set (allowFlag b)) := by
  intro b'
  rw [set_allowFlag, set_addr, ← hag b']
  simp [bndstrgAccessibleCli, applyCmd, hiface]

theorem AgreesAt.del {acl : AccessLists} {iface : Iface} {b : Band} (hag : AgreesAt acl e)
    (hiface : ifaceBand iface = some b) :
    AgreesAt (applyCmd acl (bndstrgAccessibleCli iface (e.clear (allowFlag b)) .cliDel))
      (e.clear (allowFlag b)) := by
  intro b'
  rw [clear_allowFlag, clear_addr, ← hag b']
  simp [bndstrgAccessibleCli, applyCmd, hiface]

theorem AgreesAt.congr {acl : AccessLists} {e' : CliEntry} (hag : AgreesAt acl e)
    (haddr : e'.addr = e.addr) (hflags : ∀ b, e'.has (allowFlag b) = e.has (allowFlag b)) :
    AgreesAt acl e' := by
  intro b
  rw [haddr, hflags]
  exact hag b

theorem periodicEntry2G_agrees {acl : AccessLists} (hsingle : t.dbdcMode = false)
    (hag : AgreesAt acl e) : AgreesAt (applyCmds acl (periodicEntry2G t e).2)
      (periodicEntry2G t e).1 := by
  obtain ⟨flags, hframe⟩ := mark2GOnly_frame t e
  have hmark : AgreesAt acl (mark2GOnly t e) :=
    hag.congr (by rw [hframe]) fun b => mark2GOnly_has t e (by cases b <;> decide)
  unfold periodicEntry2G
  simp only
  split
  · simp only [hsingle, iface2G, Bool.false_eq_true, if_false, applyCmds_cons, applyCmds_nil]
    exact hmark.add (b := .b2G) rfl
  · exact hmark

/-- The 5G decision on `e` takes back its permission for 2.4G. -/
def drops2G (t : CliTable) (e : CliEntry) : Bool :=
  !e.has .is2GOnly && (isDualBandClient e && !prefers2G t e && t.checks .rssi5G &&
    (e.statistics .b5G).rssi != 0#8 && strong5G t e)

theorem allowStaConn5G_agrees {acl : AccessLists} (hag : AgreesAt acl e)
    (honly : e.has .is2GOnly = false) :
    AgreesAt acl (allowStaConn5G t e).2 ↔ (e.has .allowToConnet2G && drops2G t e) = false := by
  rw [allowStaConn5G_snd, drops2G, honly, Bool.not_false, Bool.true_and]
  split <;> rename_i hcond
  · rw [hcond, Bool.and_true]
    refine ⟨fun h => ?_, fun h => hag.congr rfl fun b => ?_⟩
    · have h2G := h .b2G
      rw [clear_addr, hag .b2G] at h2G
      simpa [allowFlag] using h2G
    · cases b <;> simp [allowFlag, h]
  · rw [Bool.not_eq_true] at hcond
    rw [hcond, Bool.and_false]
    exact ⟨fun _ => rfl, fun _ => hag⟩

/-- The second half keeps lists and flags together exactly when it takes back no permission for
2.4G: its own command and flag concern the 5G list only. -/
theorem periodicEntry5G_agrees {acl : AccessLists} (hsingle : t.dbdcMode = false)
    (hag : AgreesAt acl e) :
    AgreesAt (applyCmds acl (periodicEntry5G t e).2) (periodicEntry5G t e).1 ↔
      (e.has .allowToConnet2G && drops2G t e) = false := by
  unfold periodicEntry5G
  split
  · rename_i honly
    simpa [drops2G, honly] using hag
  rename_i honly
  rw [← allowStaConn5G_agrees hag (by simpa using honly)]
  have h5G : acl .b5G (allowStaConn5G t e).2.addr =
      (allowStaConn5G t e).2.has .allowToConnet5G := by
    rw [allowStaConn5G_snd]
    split
    · simpa [allowFlag] using hag .b5G
    · exact hag .b5G
  split <;> rename_i e₁ heq <;> rw [heq] at h5G ⊢ <;>
    simp only [hsingle, iface5G, Bool.false_eq_true, if_false, applyCmds_cons, applyCmds_nil]
  · refine ⟨fun h b => ?_, fun h => h.add (b := .b5G) rfl⟩
    cases b with
    | b2G => simpa [bndstrgAccessibleCli, applyCmd, ifaceBand, allowFlag] using h .b2G
    | b5G => exact h5G
  · refine ⟨fun h b => ?_, fun h => h.del (b := .b5G) rfl⟩
    cases b with
    | b2G => simpa [bndstrgAccessibleCli, applyCmd, ifaceBand, allowFlag] using h .b2G
    | b5G => exact h5G

theorem periodicEntry2G_other (t : CliTable) (e : CliEntry) {f : ControlFlag}
    (h2G : f ≠ .allowToConnet2G) (honly : f ≠ .is2GOnly) :
    (periodicEntry2G t e).1.has f = e.has f := by
  unfold periodicEntry2G
  simp only
  split <;> simp [mark2GOnly_has t e honly, Ne.symm h2G]

theorem takesBack2G_eq (hv : e.bValid = true)
    (hyoung : bndstrgGetEntryElapsedTime e now < t.ageTime) :
    takesBack2G t now e = ((periodicEntry2G t (agedAt e now)).1.has .allowToConnet2G &&
      drops2G t (periodicEntry2G t (agedAt e now)).1) := by
  obtain ⟨flags, hframe⟩ := periodicEntry2G_frame t (agedAt e now)
  have hstat : (periodicEntry2G t (agedAt e now)).1.statistics = e.statistics := by
    rw [hframe]; rfl
  cases hdual : isDualBandClient e with
  | true =>
    have hhas := periodicEntry2G_has (t := t) (e := agedAt e now) hdual
    have hdual' : isDualBandClient (periodicEntry2G t (agedAt e now)).1 = true := by
      have hflag : ∀ f, (agedAt e now).has f = e.has f := fun _ => rfl
      simpa [isDualBandClient, hhas, hflag] using hdual
    have hprefers : prefers2G t (periodicEntry2G t (agedAt e now)).1 =
        prefers2G t (agedAt e now) :=
      prefers2G_congr (by rw [hframe]) (by rw [hframe]) (by rw [hhas]; exact Bool.or_false _)
    rw [drops2G, hdual', hprefers, strong5G_congr hstat, hstat, hhas, hhas, takesBack2G, hdual]
    have hflag : ∀ f, (agedAt e now).has f = e.has f := fun _ => rfl
    simp only [hflag, hv, hyoung, decide_true]
    cases e.has .is2GOnly <;> cases prefers2G t (agedAt e now) <;> cases t.checks .rssi5G <;>
      simp [Bool.and_comm, Bool.and_left_comm]
  | false =>
    have hdual' : isDualBandClient (periodicEntry2G t (agedAt e now)).1 = false := by
      rw [isDualBandClient, periodicEntry2G_other _ _ (by decide) (by decide),
        periodicEntry2G_other _ _ (by decide) (by decide)]
      exact hdual
    simp [takesBack2G, hdual, drops2G, hdual']

theorem periodicEntry_agrees {acl : AccessLists} (now : Timespec) (hsingle : t.dbdcMode = false)
    (hag : AgreesAt acl e) :
    AgreesAt (applyCmds acl (periodicEntry t now e).2) (periodicEntry t now e).1 ↔
      takesBack2G t now e = false := by
  unfold periodicEntry
  split
  swap
  · rename_i hv
    simpa [takesBack2G, hv] using hag
  rename_i hv
  simp only
  split
  · rename_i hold
    have hkeep : AgreesAt (applyCmds acl [bndstrgAccessibleCli (iface2G t) e .cliAgingReq,
        bndstrgAccessibleCli (iface5G t) e .cliAgingReq]) e := hag
    simpa [takesBack2G, Nat.not_lt.mpr hold] using hkeep
  · rename_i hyoung
    rw [takesBack2G_eq hv (Nat.lt_of_not_le hyoung), applyCmds_append]
    exact periodicEntry5G_agrees hsingle
      (periodicEntry2G_agrees (e := agedAt e now) hsingle (hag.congr rfl fun _ => rfl))

theorem periodicEntry_names (t : CliTable) (now : Timespec) (e : CliEntry) :
    ∀ c ∈ (periodicEntry t now e).2, ∀ a, c.Names a → e.bValid = true ∧ e.addr = a := by
  rintro c hc a ⟨iface, action, index, update, rfl⟩
  obtain ⟨hv, iface', action', update', heq⟩ := periodicEntry_about t now e _ hc
  simp only [DrvCmd.accessibleCli.injEq] at heq
  exact ⟨hv, heq.2.2.1.symm⟩

/-- With one valid entry for each address, the loop does to an entry's address what the pass over
that entry does. -/
theorem periodicLoop_agrees {acl : AccessLists} {now : Slot → Timespec}
    (hsingle : t.dbdcMode = false)
    (hunique : ∀ i j, (t.entry i).bValid = true → (t.entry j).bValid = true →
      (t.entry i).addr = (t.entry j).addr → i = j)
    (hv : (t.entry i).bValid = true) (hag : AgreesAt acl (t.entry i)) :
    AgreesAt (applyCmds acl (periodicLoop t now).2) ((periodicLoop t now).1.entry i) ↔
      takesBack2G t (now i) (t.entry i) = false := by
  obtain ⟨A, B, hAB⟩ := List.append_of_mem (List.mem_finRange i)
  have hnodup : (A ++ i :: B).Nodup := hAB ▸ List.nodup_finRange maxTableSize
  have hother : ∀ {L : List Slot}, i ∉ L → ∀ acl b,
      applyCmds acl (L.flatMap fun k => (periodicEntry t (now k) (t.entry k)).2) b
        (t.entry i).addr = acl b (t.entry i).addr := by
    intro L hL acl b
    refine applyCmds_other acl (fun c hc hnames => ?_) b
    obtain ⟨k, hk, hck⟩ := List.mem_flatMap.mp hc
    obtain ⟨hvk, haddr⟩ := periodicEntry_names _ _ _ c hck _ hnames
    exact hL (hunique k i hvk hv haddr ▸ hk)
  have hA : i ∉ A := fun hi => (List.disjoint_of_nodup_append hnodup) hi List.mem_cons_self
  have hB : i ∉ B := (List.nodup_cons.mp (List.nodup_append.mp hnodup).2.1).1
  have hag' : AgreesAt (applyCmds acl (A.flatMap fun k => (periodicEntry t (now k) (t.entry k)).2))
      (t.entry i) := fun b => (hother hA acl b).trans (hag b)
  obtain ⟨flags, elapsed, hframe⟩ := periodicEntry_frame t (now i) (t.entry i)
  rw [← periodicEntry_agrees (now i) hsingle hag']
  unfold AgreesAt
  refine forall_congr' fun b => ?_
  simp only [periodicLoop, hAB, List.flatMap_append, List.flatMap_cons, applyCmds_append]
  have haddr : (periodicEntry t (now i) (t.entry i)).1.addr = (t.entry i).addr := by rw [hframe]
  rw [haddr, hother hB]

variable {net net' : AccessNet} {ev : Event} {es : List Event}

theorem accessStep_daemon (h : accessStep net ev = some net') :
    daemonNext net.daemon ev = some net'.daemon := by
  cases ev with
  | msg m now =>
    simp only [accessStep] at h
    split at h
    · simp at h
    · obtain ⟨r, hstep, rfl⟩ := Option.map_eq_some_iff.mp h
      simp [daemonNext, hstep]
  | tick now =>
    obtain ⟨r, hstep, rfl⟩ := Option.map_eq_some_iff.mp h
    simp [daemonNext, hstep]

theorem deletedAddr_iff : deletedAddr t t' a = true ↔ ∃ i, (t.entry i).bValid = true ∧
    (t'.entry i).bValid = false ∧ (t.entry i).addr = a := by simp [deletedAddr]

theorem accessStep_msg_inv (hinv : AccessInv net) (hok : KeepsLists net (.msg m now))
    (h : accessStep net (.msg m now) = some net') : AccessInv net' := by
  have hslots := daemonNext_slotsInv hinv.slots (accessStep_daemon h)
  simp only [accessStep] at h
  split at h
  · simp at h
  rename_i hact
  obtain ⟨⟨d', cmds⟩, hstep, rfl⟩ := Option.map_eq_some_iff.mp h
  obtain ⟨ret, hhandle, -⟩ := daemonStep_msg hstep
  have hholder := eventHandle_holder hinv.slots hhandle
  have hvacant : ∀ {i}, i ∈ insertedSlot net.daemon.table m →
      (net.daemon.table.entry i).bValid = false :=
    fun hi => firstVacancy_spec (insertedSlot_spec hi).2.2.2
  refine ⟨hslots, eventHandle_single hinv.slots hact hinv.single hhandle, ?_, ?_, ?_⟩
  · intro i j hi hj haddr
    rcases hholder i hi with hsame | ⟨hfill, hnew, -⟩ <;>
      rcases hholder j hj with hsame' | ⟨hfill', hnew', -⟩
    · exact hinv.unique i j hsame.valid hsame'.valid
        (hsame.addr.symm.trans (haddr.trans hsame'.addr))
    · exact absurd (hsame.addr.symm.trans (haddr.trans hnew')) (hok j hfill' i hsame.valid)
    · exact absurd (hsame'.addr.symm.trans (haddr.symm.trans hnew)) (hok i hfill j hsame'.valid)
    · exact Option.some.inj (hfill.symm.trans hfill')
  · intro i hi b
    rcases hholder i hi with hsame | ⟨hfill, hnew, hflags⟩
    · have hkept : deletedAddr net.daemon.table d'.table (net.daemon.table.entry i).addr = false := by
        rw [Bool.eq_false_iff, ne_eq, deletedAddr_iff]
        rintro ⟨j, hj, hgone, haddr⟩
        rw [hinv.unique j i hj hsame.valid haddr, hi] at hgone
        simp at hgone
      simp only [hsame.addr, hkept, hsame.allowed, Bool.not_false, Bool.and_true]
      exact hinv.agrees i hsame.valid b
    · have hfresh : net.acl b m.addr = false := by
        rw [Bool.eq_false_iff]
        intro hlisted
        obtain ⟨j, hj, haddr⟩ := hinv.listed b _ hlisted
        exact hok i hfill j hj haddr
      simp only [hnew, hfresh, hflags, Bool.false_and]
  · intro b a hlisted
    simp only [Bool.and_eq_true, Bool.not_eq_true'] at hlisted
    obtain ⟨i, hi, haddr⟩ := hinv.listed b a hlisted.1
    have hstay : (d'.table.entry i).bValid = true := by
      by_contra hgone
      have hdel := deletedAddr_iff.mpr ⟨i, hi, by simpa using hgone, haddr⟩
      rw [hdel] at hlisted
      simp at hlisted
    refine ⟨i, hstay, ?_⟩
    rcases hholder i hstay with hsame | ⟨hfill, -⟩
    · exact hsame.addr.trans haddr
    · rw [hvacant hfill] at hi
      simp at hi

theorem accessStep_tick_inv {now : Slot → Timespec} (hinv : AccessInv net)
    (hok : KeepsLists net (.tick now)) (h : accessStep net (.tick now) = some net') :
    AccessInv net' := by
  have hslots := daemonNext_slotsInv hinv.slots (accessStep_daemon h)
  obtain ⟨⟨d', cmds⟩, hstep, rfl⟩ := Option.map_eq_some_iff.mp h
  obtain ⟨htable, rfl, -⟩ := daemonStep_tick hstep
  rcases periodicExec_cases net.daemon.table now with ⟨hop, hloop, hcmds⟩ |
    ⟨-, hentry, -, -, hmode, hidle⟩
  · have hframe := fun i => periodicEntry_frame net.daemon.table (now i) (net.daemon.table.entry i)
    have hsame : ∀ i, ((periodicLoop net.daemon.table now).1.entry i).bValid =
        (net.daemon.table.entry i).bValid ∧ ((periodicLoop net.daemon.table now).1.entry i).addr =
        (net.daemon.table.entry i).addr := by
      intro i
      obtain ⟨flags, elapsed, heq⟩ := hframe i
      simp [periodicLoop, heq]
    refine ⟨hslots, ?_, ?_, ?_, ?_⟩ <;> simp only [htable, hloop, hcmds]
    · exact hinv.single
    · intro i j hi hj haddr
      rw [(hsame i).1] at hi
      rw [(hsame j).1] at hj
      rw [(hsame i).2, (hsame j).2] at haddr
      exact hinv.unique i j hi hj haddr
    · intro i hi
      simp only [htable, hloop] at hi ⊢
      rw [(hsame i).1] at hi
      exact (periodicLoop_agrees hinv.single hinv.unique hi (hinv.agrees i hi)).mpr (hok hop i)
    · intro b a hlisted
      by_cases hnamed : ∃ c ∈ (periodicLoop net.daemon.table now).2, c.Names a
      · obtain ⟨c, hc, hnames⟩ := hnamed
        obtain ⟨i, -, hci⟩ := List.mem_flatMap.mp hc
        obtain ⟨hv, haddr⟩ := periodicEntry_names _ _ _ c hci a hnames
        exact ⟨i, (hsame i).1.trans hv, (hsame i).2.trans haddr⟩
      · rw [applyCmds_other _ fun c hc hn => hnamed ⟨c, hc, hn⟩] at hlisted
        obtain ⟨i, hv, haddr⟩ := hinv.listed b a hlisted
        exact ⟨i, (hsame i).1.trans hv, (hsame i).2.trans haddr⟩
  · have hacl : applyCmds net.acl (bndstrgPeriodicExec net.daemon.table now).2.1 = net.acl := by
      funext b a
      exact applyCmds_other _ (fun c hc => hidle c hc a) b
    refine ⟨hslots, ?_, ?_, ?_, ?_⟩ <;> simp only [htable, hentry, hacl]
    · exact hmode.trans hinv.single
    · exact hinv.unique
    · intro i hi
      simp only [htable, hentry] at hi ⊢
      exact hinv.agrees i hi
    · exact hinv.listed

theorem accessInv_init : AccessInv .init := by
  have hnone : ∀ i, (AccessNet.init.daemon.table.entry i).bValid = false := fun _ => rfl
  refine ⟨tableInit_slotsInv, rfl, fun i j hi => ?_, fun i hi => ?_, fun b a h => ?_⟩
  · simp [hnone i] at hi
  · simp [hnone i] at hi
  · simp [AccessNet.init] at h

/-- In a run that inserts no client twice and takes back no permission for 2.4G, the access lists
agree with the flags of every valid entry. -/
theorem access_lists_agree (h : Run (Guarded KeepsLists (Graph accessStep)) .init es net) :
    Agrees net := by
  refine (h.invariant AccessInv (fun net ev net' hinv hstep => ?_) accessInv_init).agrees
  cases ev with
  | msg m now => exact accessStep_msg_inv hinv hstep.1 hstep.2
  | tick now => exact accessStep_tick_inv hinv hstep.1 hstep.2

theorem accessStep_tick_agrees {now : Slot → Timespec} (hinv : AccessInv net)
    (h : accessStep net (.tick now) = some net') :
    Agrees net' ↔ KeepsLists net (.tick now) := by
  refine ⟨fun hag hop i => ?_, fun hok => (accessStep_tick_inv hinv hok h).agrees⟩
  by_cases hv : (net.daemon.table.entry i).bValid = true
  · obtain ⟨⟨d', cmds⟩, hstep, rfl⟩ := Option.map_eq_some_iff.mp h
    obtain ⟨htable, rfl, -⟩ := daemonStep_tick hstep
    rcases periodicExec_cases net.daemon.table now with ⟨-, hloop, hcmds⟩ | ⟨hidle, -⟩
    · obtain ⟨flags, elapsed, heq⟩ :=
        periodicEntry_frame net.daemon.table (now i) (net.daemon.table.entry i)
      refine (periodicLoop_agrees hinv.single hinv.unique hv (hinv.agrees i hv)).mp ?_
      have hag' := hag i
      simp only [htable, hloop, hcmds] at hag'
      exact hag' (by simp [periodicLoop, heq, hv])
    · simp [hop] at hidle
  · simp [takesBack2G, hv]

/-- A client with a strong 5G signal is put on the 5G list. -/
theorem access_lists_agree_strong :
    ∃ net, Run (Guarded KeepsLists (Graph accessStep)) .init
      (bringUpDual ⟨0, 0, 0, 0, 0, 1⟩ (-60) ++ [.tick fun _ => ⟨3, 0⟩]) net ∧ Agrees net := by
  have hrun : (exec (guardStep KeepsLists accessStep) .init
      (bringUpDual ⟨0, 0, 0, 0, 0, 1⟩ (-60) ++ [.tick fun _ => ⟨3, 0⟩])).isSome = true := by
    decide +kernel
  obtain ⟨net, hnet⟩ := Option.isSome_iff_exists.mp hrun
  exact ⟨net, exec_guarded_run hnet, access_lists_agree (exec_guarded_run hnet)⟩

/-- A 5G signal that turns strong takes back the permission for 2.4G, but not the list entry. -/
theorem strong_signal_keeps_list_entry :
    ∃ net, Run (Graph accessStep) .init (bringUpDual ⟨0, 0, 0, 0, 0, 1⟩ (-75) ++
        [.tick fun _ => ⟨3, 0⟩, .msg (connectionReq band5G ⟨0, 0, 0, 0, 0, 1⟩ (-50)) ⟨3, 0⟩,
         .tick fun _ => ⟨4, 0⟩]) net ∧
      (net.daemon.table.entry 0).bValid = true ∧
      bndstrgGetEntryElapsedTime (net.daemon.table.entry 0) ⟨4, 0⟩ < net.daemon.table.ageTime ∧
      net.acl .b2G (net.daemon.table.entry 0).addr = true ∧
      (net.daemon.table.entry 0).has (allowFlag .b2G) = false := by
  have hrun : (exec accessStep .init (bringUpDual ⟨0, 0, 0, 0, 0, 1⟩ (-75) ++
      [.tick fun _ => ⟨3, 0⟩, .msg (connectionReq band5G ⟨0, 0, 0, 0, 0, 1⟩ (-50)) ⟨3, 0⟩,
       .tick fun _ => ⟨4, 0⟩])).map (fun net => ((net.daemon.table.entry 0).bValid,
        decide (bndstrgGetEntryElapsedTime (net.daemon.table.entry 0) ⟨4, 0⟩ <
          net.daemon.table.ageTime),
        net.acl .b2G (net.daemon.table.entry 0).addr,
        (net.daemon.table.entry 0).has (allowFlag .b2G))) = some (true, true, true, false) := by
    decide +kernel
  obtain ⟨net, hnet, hpair⟩ := Option.map_eq_some_iff.mp hrun
  simp only [Prod.mk.injEq, decide_eq_true_eq] at hpair
  exact ⟨net, exec_run hnet, hpair⟩

end OpenwrtMtk.Bndstrg
