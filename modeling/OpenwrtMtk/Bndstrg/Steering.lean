import OpenwrtMtk.Bndstrg.Effect

/-!
# The two permissions of a dual-band client

What a pass of the tick makes of the two permission flags of a client seen on both radios,
as Boolean functions of its flags, the reasons to prefer 2.4G and the strength of its 5G
signal, and from that exactly when two passes leave it without any permission.
-/

namespace OpenwrtMtk.Bndstrg

open Toolkit

set_option autoImplicit false

variable {t t' : CliTable} {e : CliEntry} {i : Slot} {a : MacAddr} {m : BndstrgMsg}
variable {now : Timespec} {ret : ReturnCode}

def prefers2G (t : CliTable) (e : CliEntry) : Bool :=
  rssiDiffCondition t e || persistCondition t e || htCondition t e

/-- The last 5G reading lies above `RssiLow`. -/
def strong5G (t : CliTable) (e : CliEntry) : Bool :=
  decide (t.rssiLow.toInt < (e.statistics .b5G).rssi.toInt)

theorem allowStaConn2G_dual (hdual : isDualBandClient e = true) :
    allowStaConn2G t e = (prefers2G t e ||
      (t.checks .rssi5G && e.has .lowRssi5G && !e.has .allowToConnet5G) || e.has .is2GOnly) := by
  unfold allowStaConn2G prefers2G
  simp only [hdual, Bool.true_and]
  cases rssiDiffCondition t e <;> cases persistCondition t e <;> cases htCondition t e <;>
    cases t.checks .rssi5G && e.has .lowRssi5G && !e.has .allowToConnet5G <;> simp

theorem allowStaConn5G_dual (hdual : isDualBandClient e = true)
    (hrssi : (e.statistics .b5G).rssi ≠ 0#8) :
    allowStaConn5G t e = (!prefers2G t e && (!t.checks .rssi5G || strong5G t e),
      if !prefers2G t e && t.checks .rssi5G && strong5G t e then e.clear .allowToConnet2G
      else e) := by
  have h5G : e.has .support5G = true := by
    simp only [isDualBandClient, Bool.and_eq_true] at hdual
    exact hdual.2
  unfold allowStaConn5G prefers2G strong5G
  simp only [h5G, hdual]
  by_cases hlow : t.rssiLow.toInt < (e.statistics .b5G).rssi.toInt <;>
    cases rssiDiffCondition t e <;> cases persistCondition t e <;> cases htCondition t e <;>
    cases t.checks .rssi5G <;> simp [hlow, hrssi]

theorem mark2GOnly_dual (hdual : isDualBandClient e = true) : mark2GOnly t e = e := by
  simp only [isDualBandClient, Bool.and_eq_true] at hdual
  simp [mark2GOnly, hdual.2]

theorem periodicEntry2G_dual (hdual : isDualBandClient e = true) :
    (periodicEntry2G t e).1 = if !e.has .allowToConnet2G && allowStaConn2G t e
      then e.set .allowToConnet2G else e := by
  simp only [periodicEntry2G, mark2GOnly_dual hdual]
  split <;> rfl

theorem periodicEntry5G_eq (t : CliTable) (e : CliEntry) :
    (periodicEntry5G t e).1 = if e.has .is2GOnly then e
      else if (allowStaConn5G t e).1 then (allowStaConn5G t e).2.set .allowToConnet5G
      else (allowStaConn5G t e).2.clear .allowToConnet5G := by
  unfold periodicEntry5G
  split
  · rfl
  · split <;> rename_i heq <;> simp [heq]

theorem periodicEntry2G_has (hdual : isDualBandClient e = true) (f : ControlFlag) :
    (periodicEntry2G t e).1.has f = (e.has f || (decide (f = .allowToConnet2G) &&
      (prefers2G t e || (t.checks .rssi5G && e.has .lowRssi5G && !e.has .allowToConnet5G) ||
        e.has .is2GOnly))) := by
  rw [periodicEntry2G_dual hdual, ← allowStaConn2G_dual hdual]
  by_cases hf : f = .allowToConnet2G
  · subst hf
    cases h2G : e.has .allowToConnet2G <;> cases allowStaConn2G t e <;> simp [h2G]
  · split <;> simp [hf, Ne.symm hf]

theorem periodicEntry5G_has (hdual : isDualBandClient e = true)
    (hrssi : (e.statistics .b5G).rssi ≠ 0#8) (f : ControlFlag) :
    (periodicEntry5G t e).1.has f = if e.has .is2GOnly then e.has f
      else if f = .allowToConnet5G then !prefers2G t e && (!t.checks .rssi5G || strong5G t e)
      else e.has f && !(decide (f = .allowToConnet2G) &&
        (!prefers2G t e && t.checks .rssi5G && strong5G t e)) := by
  rw [periodicEntry5G_eq, allowStaConn5G_dual hdual hrssi]
  cases e.has .is2GOnly
  · by_cases hf : f = .allowToConnet5G
    · subst hf
      cases prefers2G t e <;> cases t.checks .rssi5G <;> cases strong5G t e <;> simp
    · cases prefers2G t e <;> cases t.checks .rssi5G <;> cases strong5G t e <;>
        simp [hf, Ne.symm hf, eq_comm]
  · simp

/-- The entry with the elapsed time a pass at `now` gives it. -/
def agedAt (e : CliEntry) (now : Timespec) : CliEntry :=
  { e with elapsedTime := bndstrgGetEntryElapsedTime e now }

theorem prefers2G_congr {e' : CliEntry} (hstat : e'.statistics = e.statistics)
    (helapsed : e'.elapsedTime = e.elapsedTime)
    (hht : e'.has .notSupportHt5G = e.has .notSupportHt5G) :
    prefers2G t e' = prefers2G t e := by
  simp only [prefers2G, rssiDiffCondition, persistCondition, htCondition, hstat, helapsed, hht]

theorem strong5G_congr {e' : CliEntry} (hstat : e'.statistics = e.statistics) :
    strong5G t e' = strong5G t e := by simp only [strong5G, hstat]

def allowed2G (t : CliTable) (now : Timespec) (e : CliEntry) : Bool :=
  (e.has .allowToConnet2G || prefers2G t (agedAt e now) ||
    (t.checks .rssi5G && e.has .lowRssi5G && !e.has .allowToConnet5G) || e.has .is2GOnly) &&
  !(!e.has .is2GOnly && !prefers2G t (agedAt e now) && t.checks .rssi5G && strong5G t e)

def allowed5G (t : CliTable) (now : Timespec) (e : CliEntry) : Bool :=
  if e.has .is2GOnly then e.has .allowToConnet5G
  else !prefers2G t (agedAt e now) && (!t.checks .rssi5G || strong5G t e)

theorem periodicEntry_has (now : Timespec) (hv : e.bValid = true) (hdual : isDualBandClient e = true)
    (hrssi : (e.statistics .b5G).rssi ≠ 0#8)
    (hyoung : bndstrgGetEntryElapsedTime e now < t.ageTime) (f : ControlFlag) :
    (periodicEntry t now e).1.has f =
      if f = .allowToConnet2G then allowed2G t now e
      else if f = .allowToConnet5G then allowed5G t now e else e.has f := by
  have hpass : (periodicEntry t now e).1 =
      (periodicEntry5G t (periodicEntry2G t (agedAt e now)).1).1 := by
    simp [periodicEntry, hv, Nat.not_le.mpr hyoung, agedAt]
  obtain ⟨flags, hframe⟩ := periodicEntry2G_frame t (agedAt e now)
  have hhalf : ∀ f, (periodicEntry2G t (agedAt e now)).1.has f = (e.has f ||
      (decide (f = .allowToConnet2G) && (prefers2G t (agedAt e now) || (t.checks .rssi5G &&
        e.has .lowRssi5G && !e.has .allowToConnet5G) || e.has .is2GOnly))) :=
    periodicEntry2G_has (e := agedAt e now) hdual
  have hstat : (periodicEntry2G t (agedAt e now)).1.statistics = e.statistics := by rw [hframe]; rfl
  have hdual' : isDualBandClient (periodicEntry2G t (agedAt e now)).1 = true := by
    simpa [isDualBandClient, hhalf] using hdual
  rw [hpass, periodicEntry5G_has hdual' (by rw [hstat]; exact hrssi), strong5G_congr hstat,
    prefers2G_congr (e := agedAt e now) (by rw [hframe]) (by rw [hframe])
      (by rw [hhalf]; exact Bool.or_false _), hhalf, hhalf]
  by_cases h2G : f = .allowToConnet2G
  · subst h2G
    cases honly : e.has .is2GOnly <;> simp [allowed2G, honly, Bool.and_assoc, Bool.or_assoc]
  · by_cases h5G : f = .allowToConnet5G
    · subst h5G
      cases honly : e.has .is2GOnly <;> simp [allowed5G, honly]
    · cases honly : e.has .is2GOnly <;> simp [h2G, h5G]

variable {d d' d₀ d₁ d₂ d₃ : Daemon} {es : List Event} {now₁ now₂ : Slot → Timespec}

def Unconcerned (i : Slot) (a : MacAddr) (_ : Daemon) : Event → Prop
  | .msg m _ => m.concerns i a = false
  | .tick _ => False

instance (i : Slot) (a : MacAddr) (d : Daemon) : (e : Event) → Decidable (Unconcerned i a d e)
  | .msg m _ => inferInstanceAs (Decidable (m.concerns i a = false))
  | .tick _ => inferInstanceAs (Decidable False)

theorem run_unconcerned {e : CliEntry} (hinv : SlotsInv d₁.table) (hv : e.bValid = true)
    (he : d₁.table.entry i = e)
    (h : Run (Guarded (Unconcerned i e.addr) (Graph daemonNext)) d₁ es d₂) :
    SlotsInv d₂.table ∧ d₂.table.entry i = { e with pNext := (d₂.table.entry i).pNext } := by
  refine h.invariant (fun d => SlotsInv d.table ∧
    d.table.entry i = { e with pNext := (d.table.entry i).pNext }) ?_ ⟨hinv, by rw [he]⟩
  intro d ev d' hd hstep
  refine ⟨daemonNext_slotsInv hd.1 hstep.2, ?_⟩
  cases ev with
  | tick => exact hstep.1.elim
  | msg m now =>
    obtain ⟨⟨d'', cmds⟩, hs, rfl⟩ := Option.map_eq_some_iff.mp hstep.2
    obtain ⟨ret, hhandle, -⟩ := daemonStep_msg hs
    have hsame := eventHandle_other hd.1 (by rw [hd.2]; exact hv)
      (by rw [hd.2]; exact hstep.1) hhandle
    rw [hsame, hd.2]

theorem operational_tick (hop : d.table.operational = true)
    (h : daemonNext d (.tick now₁) = some d') :
    d'.table = (periodicLoop d.table now₁).1 := by
  obtain ⟨⟨d₁, cmds⟩, hstep, rfl⟩ := Option.map_eq_some_iff.mp h
  rw [(daemonStep_tick hstep).1]
  rcases periodicExec_cases d.table now₁ with ⟨-, htable, -⟩ | ⟨hidle, -⟩
  · exact htable
  · simp [hop] at hidle

/-- Two passes over slot `i`, which holds a client seen on both radios, not yet of age and with
a 5G reading, and callbacks about others between them. -/
structure TwoPasses (d₀ d₂ d₃ : Daemon) (i : Slot) (now₁ now₂ : Slot → Timespec) : Prop where
  steps : ∃ d₁ es, daemonNext d₀ (.tick now₁) = some d₁ ∧
    Run (Guarded (Unconcerned i (d₀.table.entry i).addr) (Graph daemonNext)) d₁ es d₂ ∧
    daemonNext d₂ (.tick now₂) = some d₃
  operational₁ : d₀.table.operational = true
  operational₂ : d₂.table.operational = true
  valid : (d₀.table.entry i).bValid = true
  dual : isDualBandClient (d₀.table.entry i) = true
  reading : ((d₀.table.entry i).statistics .b5G).rssi ≠ 0#8
  young₁ : bndstrgGetEntryElapsedTime (d₀.table.entry i) (now₁ i) < d₀.table.ageTime
  young₂ : bndstrgGetEntryElapsedTime (d₀.table.entry i) (now₂ i) < d₂.table.ageTime

/-- The entry `e`, its settings at the two passes and their times leave it no permission: both
passes find no reason for 2.4G and the second a weak 5G signal, while the first either saw a
strong one or could not grant 2.4G either. -/
def steeringGap (t₁ t₂ : CliTable) (now₁ now₂ : Timespec) (e : CliEntry) : Bool :=
  !e.has .is2GOnly && !prefers2G t₁ (agedAt e now₁) && !prefers2G t₂ (agedAt e now₂) &&
    t₂.checks .rssi5G && !strong5G t₂ e &&
    (t₁.checks .rssi5G && strong5G t₁ e ||
      !e.has .allowToConnet2G && !(t₁.checks .rssi5G && e.has .lowRssi5G))

theorem TwoPasses.permissions (h : TwoPasses d₀ d₂ d₃ i now₁ now₂) (hinv : SlotsInv d₀.table) :
    ∃ e₁, e₁ = (periodicEntry d₀.table (now₁ i) (d₀.table.entry i)).1 ∧
      (d₃.table.entry i).has .allowToConnet2G = allowed2G d₂.table (now₂ i) e₁ ∧
      (d₃.table.entry i).has .allowToConnet5G = allowed5G d₂.table (now₂ i) e₁ := by
  obtain ⟨d₁, es, hfirst, hmid, hsecond⟩ := h.steps
  obtain ⟨flags, elapsed, hframe⟩ := periodicEntry_frame d₀.table (now₁ i) (d₀.table.entry i)
  have h₁ : d₁.table.entry i = (periodicEntry d₀.table (now₁ i) (d₀.table.entry i)).1 := by
    rw [operational_tick h.operational₁ hfirst]
    rfl
  have hhas := periodicEntry_has (now₁ i) h.valid h.dual h.reading h.young₁
  have hmid' : Run (Guarded (Unconcerned i (d₁.table.entry i).addr) (Graph daemonNext)) d₁ es d₂ := by
    rw [h₁, hframe]
    exact hmid
  obtain ⟨-, h₂⟩ := run_unconcerned (daemonNext_slotsInv hinv hfirst)
    (by rw [h₁, hframe]; exact h.valid) rfl hmid'
  have hdual₂ : isDualBandClient (d₂.table.entry i) = true := by
    have hflags : ∀ f, (d₂.table.entry i).has f = (d₁.table.entry i).has f := by
      intro f
      rw [h₂]
      rfl
    have hdual := h.dual
    simp only [isDualBandClient] at hdual ⊢
    simpa [hflags, h₁, hhas] using hdual
  have hlast := periodicEntry_has (t := d₂.table) (e := d₂.table.entry i) (now₂ i)
    (by rw [h₂, h₁, hframe]; exact h.valid) hdual₂ (by rw [h₂, h₁, hframe]; exact h.reading)
    (by rw [h₂, h₁, hframe]; exact h.young₂)
  have h₃ : d₃.table.entry i = (periodicEntry d₂.table (now₂ i) (d₂.table.entry i)).1 := by
    rw [operational_tick h.operational₂ hsecond]
    rfl
  refine ⟨_, rfl, ?_, ?_⟩
  · rw [h₃, hlast, if_pos rfl, h₂, ← h₁]
    rfl
  · rw [h₃, hlast, if_neg (by decide), if_pos rfl, h₂, ← h₁]
    rfl

/-- After two passes a dual-band client has a permission exactly outside the gap. -/
theorem two_passes_permit_iff (hrun : Run (Graph daemonNext) Daemon.init es d₀)
    (h : TwoPasses d₀ d₂ d₃ i now₁ now₂) :
    ((d₃.table.entry i).has .allowToConnet2G = true ∨
      (d₃.table.entry i).has .allowToConnet5G = true) ↔
    steeringGap d₀.table d₂.table (now₁ i) (now₂ i) (d₀.table.entry i) = false := by
  have hinv : SlotsInv d₀.table := hrun.invariant (fun d => SlotsInv d.table)
    (fun _ _ _ hd hs => daemonNext_slotsInv hd hs) tableInit_slotsInv
  obtain ⟨e₁, he₁, h2G, h5G⟩ := h.permissions hinv
  have hhas := periodicEntry_has (now₁ i) h.valid h.dual h.reading h.young₁
  rw [← he₁] at hhas
  obtain ⟨flags, elapsed, hframe⟩ := periodicEntry_frame d₀.table (now₁ i) (d₀.table.entry i)
  rw [← he₁] at hframe
  have hstat : e₁.statistics = (d₀.table.entry i).statistics := by rw [hframe]
  have haged : prefers2G d₂.table (agedAt e₁ (now₂ i)) =
      prefers2G d₂.table (agedAt (d₀.table.entry i) (now₂ i)) := by
    refine prefers2G_congr hstat ?_ ?_
    · rw [hframe]; rfl
    · refine (hhas .notSupportHt5G).trans ?_
      rw [if_neg (by decide), if_neg (by decide)]
      rfl
  rw [h2G, h5G]
  simp only [allowed2G, allowed5G, steeringGap, haged, strong5G_congr hstat, hhas, reduceCtorEq,
    if_true, if_false]
  generalize (d₀.table.entry i).has .is2GOnly = only
  generalize (d₀.table.entry i).has .allowToConnet2G = a2G
  generalize (d₀.table.entry i).has .allowToConnet5G = a5G
  generalize (d₀.table.entry i).has .lowRssi5G = low
  generalize prefers2G d₀.table _ = prefers₁
  generalize prefers2G d₂.table _ = prefers₂
  generalize d₀.table.checks .rssi5G = checks₁
  generalize d₂.table.checks .rssi5G = checks₂
  generalize strong5G d₀.table _ = strong₁
  generalize strong5G d₂.table _ = strong₂
  revert only a2G a5G low prefers₁ prefers₂ checks₁ checks₂ strong₁ strong₂
  decide

/-- Both radios come up and the client `a` asks on both, with the reading `r5G` on 5G. -/
def bringUpDual (a : MacAddr) (r5G : Int) : List Event :=
  (bringUp ++ [connectionReq band2G a (-40), connectionReq band5G a r5G]).map fun m =>
    .msg m ⟨1, 0⟩

/-- The states before, between and after two ticks in a row that follow `es`. -/
def twoTicks (es : List Event) (now₁ now₂ : Slot → Timespec) : Option (Daemon × Daemon × Daemon) :=
  (exec daemonNext Daemon.init es).bind fun d₀ => (daemonNext d₀ (.tick now₁)).bind fun d₁ =>
    (daemonNext d₁ (.tick now₂)).map fun d₂ => (d₀, d₁, d₂)

/-- What `TwoPasses` asks of the states of two ticks in a row, as a test. -/
def twoTicksOk (now₁ now₂ : Slot → Timespec) (r : Daemon × Daemon × Daemon) : Bool :=
  r.1.table.operational && r.2.1.table.operational && (r.1.table.entry 0).bValid &&
    isDualBandClient (r.1.table.entry 0) && ((r.1.table.entry 0).statistics .b5G).rssi != 0#8 &&
    decide (bndstrgGetEntryElapsedTime (r.1.table.entry 0) (now₁ 0) < r.1.table.ageTime) &&
    decide (bndstrgGetEntryElapsedTime (r.1.table.entry 0) (now₂ 0) < r.2.1.table.ageTime)

theorem twoTicks_spec {r : Daemon × Daemon × Daemon} (h : twoTicks es now₁ now₂ = some r)
    (hok : twoTicksOk now₁ now₂ r = true) :
    Run (Graph daemonNext) Daemon.init es r.1 ∧ TwoPasses r.1 r.2.1 r.2.2 0 now₁ now₂ := by
  obtain ⟨d₀, h₀, hrest⟩ := Option.bind_eq_some_iff.mp h
  obtain ⟨d₁, h₁, hlast⟩ := Option.bind_eq_some_iff.mp hrest
  obtain ⟨d₂, h₂, rfl⟩ := Option.map_eq_some_iff.mp hlast
  simp only [twoTicksOk, Bool.and_eq_true, decide_eq_true_eq, bne_iff_ne] at hok
  obtain ⟨⟨⟨⟨⟨⟨hop₁, hop₂⟩, hv⟩, hdual⟩, hrssi⟩, hyoung₁⟩, hyoung₂⟩ := hok
  exact ⟨exec_run h₀, ⟨d₁, [], h₁, .nil, h₂⟩, hop₁, hop₂, hv, hdual, hrssi, hyoung₁, hyoung₂⟩

/-- A reading above `RssiLow` ends with the permission for 5G. -/
theorem two_passes_permit_iff_strong :
    ∃ d₀ d₁ d₂, TwoPasses d₀ d₁ d₂ 0 (fun _ => ⟨3, 0⟩) (fun _ => ⟨4, 0⟩) ∧
      ((d₂.table.entry 0).has .allowToConnet2G = true ∨
        (d₂.table.entry 0).has .allowToConnet5G = true) := by
  have hrun : (twoTicks (bringUpDual ⟨0, 0, 0, 0, 0, 1⟩ (-60)) (fun _ => ⟨3, 0⟩)
      fun _ => ⟨4, 0⟩).map (fun r => (twoTicksOk (fun _ => ⟨3, 0⟩) (fun _ => ⟨4, 0⟩) r,
        steeringGap r.1.table r.2.1.table ⟨3, 0⟩ ⟨4, 0⟩ (r.1.table.entry 0))) =
      some (true, false) := by decide +kernel
  obtain ⟨⟨d₀, d₁, d₂⟩, hr, hpair⟩ := Option.map_eq_some_iff.mp hrun
  simp only [Prod.mk.injEq] at hpair
  obtain ⟨hreach, hpasses⟩ := twoTicks_spec hr hpair.1
  exact ⟨d₀, d₁, d₂, hpasses, (two_passes_permit_iff hreach hpasses).mpr hpair.2⟩

/-- With the default settings a reading equal to `RssiLow` ends without any permission. -/
theorem threshold_reading_locks_out :
    ∃ d₀ d₁ d₂, Run (Graph daemonNext) Daemon.init (bringUpDual ⟨0, 0, 0, 0, 0, 1⟩ (-70)) d₀ ∧
      TwoPasses d₀ d₁ d₂ 0 (fun _ => ⟨3, 0⟩) (fun _ => ⟨4, 0⟩) ∧
      ¬((d₂.table.entry 0).has .allowToConnet2G = true ∨
        (d₂.table.entry 0).has .allowToConnet5G = true) := by
  have hrun : (twoTicks (bringUpDual ⟨0, 0, 0, 0, 0, 1⟩ (-70)) (fun _ => ⟨3, 0⟩)
      fun _ => ⟨4, 0⟩).map (fun r => (twoTicksOk (fun _ => ⟨3, 0⟩) (fun _ => ⟨4, 0⟩) r,
        (r.2.2.table.entry 0).has .allowToConnet2G,
        (r.2.2.table.entry 0).has .allowToConnet5G)) = some (true, false, false) := by
    decide +kernel
  obtain ⟨⟨d₀, d₁, d₂⟩, hr, hpair⟩ := Option.map_eq_some_iff.mp hrun
  simp only [Prod.mk.injEq] at hpair
  obtain ⟨hreach, hpasses⟩ := twoTicks_spec hr hpair.1
  exact ⟨d₀, d₁, d₂, hreach, hpasses, by simp [hpair.2]⟩

end OpenwrtMtk.Bndstrg
