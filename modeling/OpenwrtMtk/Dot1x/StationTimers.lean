import OpenwrtMtk.Dot1x.Identifier
import OpenwrtMtk.Dot1x.StationTable
import OpenwrtMtk.Lib.Loops

/-!
# Timers and their stations

Every timer belongs to a station of the list as long as no station is freed while its session timer
is set: `Ap_free_sta` cancels the tick of the machines and nothing else.
-/

namespace OpenwrtMtk.Dot1x

open Toolkit

set_option autoImplicit false

structure Sound (d : Rtapd) : Prop where
  table : Table d
  timers : TimersLive d

variable {env : Env} {node : Nat} {session : Prop} {d d' : Rtapd} {effects : List Effect}

theorem KeepsTable.sound (h : KeepsTable session node d effects d') (hnode : node ∈ d.nodesOf)
    (hd : Sound d) : Sound d' :=
  ⟨h.table hd.table, h.timersLive hnode hd.timers⟩

structure Aside (d d' : Rtapd) : Prop where
  staList : d'.staList = d.staList
  staHash : d'.staHash = d.staHash
  numSta : d'.numSta = d.numSta
  nodes : d'.nodes = d.nodes
  timeouts : ∀ t ∈ d'.timeouts, t ∈ d.timeouts ∨ t.station = none

namespace Aside

theorem refl (d : Rtapd) : Aside d d := ⟨rfl, rfl, rfl, rfl, fun _ ht => .inl ht⟩

theorem trans {d'' : Rtapd} (h : Aside d d') (h' : Aside d' d'') : Aside d d'' where
  staList := h'.staList.trans h.staList
  staHash := h'.staHash.trans h.staHash
  numSta := h'.numSta.trans h.numSta
  nodes := h'.nodes.trans h.nodes
  timeouts t ht := by
    rcases h'.timeouts t ht with ht | hnone
    · exact h.timeouts t ht
    · exact .inr hnone

theorem sound (h : Aside d d') (hd : Sound d) : Sound d' where
  table := by
    have hkeeps : KeepsTable False 0 d [] d' :=
      ⟨by rw [h.staList], h.staHash, h.numSta, h.nodes, fun t ht =>
        (h.timeouts t ht).imp_right .inl⟩
    exact hkeeps.table hd.table
  timers := by
    intro t ht k hk
    rw [Rtapd.nodesOf, h.staList]
    rcases h.timeouts t ht with ht | hnone
    · exact hd.timers t ht k hk
    · rw [hnone] at hk
      cases hk

theorem register (d : Rtapd) {t : Timeout} (ht : t.station = none) :
    Aside d (d.registerTimeout t) := by
  refine ⟨rfl, rfl, rfl, rfl, fun t' ht' => ?_⟩
  rcases List.mem_append.mp ht' with ht' | ht'
  · exact .inl ht'
  · rw [List.mem_singleton.mp ht']
    exact .inr ht

theorem cancel (d : Rtapd) (t : Timeout) : Aside d (d.cancelTimeout t) :=
  ⟨rfl, rfl, rfl, rfl, fun _ ht => .inl (List.mem_filter.mp ht).1⟩

end Aside

theorem flush_aside (d : Rtapd) : Aside d (radiusClientFlush d) :=
  (Aside.cancel d .radiusClientTimer).trans ⟨rfl, rfl, rfl, rfl, fun _ ht => .inl ht⟩

theorem changeServer_aside (d : Rtapd) (nserv : List U8) (oserv : Option (List U8)) :
    Aside d (radiusChangeServer d nserv oserv) := by
  unfold radiusChangeServer
  split
  · exact flush_aside d
  · have hreset : Aside d { d with
        radius := { d.radius with msgs := d.radius.msgs.map resetEntry } } :=
      ⟨rfl, rfl, rfl, rfl, fun _ ht => .inl ht⟩
    dsimp only
    split
    · exact hreset
    · exact hreset.trans ((Aside.cancel _ _).trans (Aside.register _ rfl))

theorem useServer_aside {i next : Nat} {bss : Bss} (h : useServer d i bss next = some d') :
    Aside d d' := by
  obtain ⟨nserv, _, rfl⟩ := Option.map_eq_some_iff.mp h
  have hconf : Aside d
      { d with conf := { d.conf with bss := d.conf.bss.set i { bss with current := next } } } :=
    ⟨rfl, rfl, rfl, rfl, fun _ ht => .inl ht⟩
  exact hconf.trans (changeServer_aside _ _ _)

theorem failover_aside {msgs : List Entry} {d d' : Rtapd} {i : Nat}
    (h : failover msgs d i = some d') : Aside d d' := by
  unfold failover at h
  split at h
  · cases h
    exact .refl d
  · split at h
    · exact useServer_aside h
    · cases h
      exact .refl d

theorem retryPrimary_aside {d d' : Rtapd} {i : Nat} (h : retryPrimary d i = some d') :
    Aside d d' := by
  unfold retryPrimary at h
  split at h
  · cases h
    exact .refl d
  · split at h
    · exact useServer_aside h
    · cases h
      exact .refl d

theorem radiusClientTimer_aside {now : Nat}
    (h : radiusClientTimer d now = some (d', effects)) : Aside d d' := by
  unfold radiusClientTimer at h
  split at h
  · cases h
    exact .refl d
  · obtain ⟨last, hfold, heq⟩ := Option.map_eq_some_iff.mp h
    cases heq
    have hresent : Aside d { d with radius := { d.radius with
        msgs := (retransmitAll now d.radius.msgs).msgs
        numMsgs := d.radius.numMsgs -
          BitVec.ofNat 32 (retransmitAll now d.radius.msgs).removed } } :=
      ⟨rfl, rfl, rfl, rfl, fun _ ht => .inl ht⟩
    refine hresent.trans (Aside.trans ?_ (foldlM_steps Aside.refl Aside.trans failover_aside hfold))
    split
    · exact .refl _
    · exact Aside.register _ rfl

theorem radiusRetryPrimaryTimer_aside (h : radiusRetryPrimaryTimer d = some d') : Aside d d' := by
  obtain ⟨mid, hfold, rfl⟩ := Option.map_eq_some_iff.mp h
  refine (foldlM_steps Aside.refl Aside.trans retryPrimary_aside hfold).trans ?_
  split
  · exact .refl _
  · exact Aside.register _ rfl

/-- The handler applies a message to the station `s`. -/
def Applies (env : Env) (d : Rtapd) (a : Datagram) (msg : RadiusMsg) (s : Sta) : Prop :=
  a.data.length < radiusBufSize ∧ radiusMsgParse a.mem a.data = some msg ∧
    apGetStaRadiusIdentifier d msg.identifier = some s ∧
    ∃ req rest, takeRequest msg.identifier d.radius.msgs = some (req, rest) ∧
      (bareReject msg ∨ radiusMsgVerify msg env.digest a.stale req.sharedSecret req.msg) ∧
      knownCode msg.code

def Frees (env : Env) (d : Rtapd) : Event → Nat → Prop
  | .datagram a, node => ∃ msg s, Applies env d a msg s ∧ freeFlag d.conf msg ∧ s.node = node
  | .disconnect sa, node => findInChain d sa (d.staHash (staHash sa)) = some (some node)
  | .reload _, node => node ∈ d.nodesOf
  | .frame _, _ | .expired _ _, _ => False

def SparesSession (env : Env) (d : Rtapd) (e : Event) : Prop :=
  ∀ node, Frees env d e node → .apHandleSessionTimer node ∉ d.timeouts

def Next (env : Env) (d : Rtapd) (e : Event) (d' : Rtapd) : Prop :=
  ∃ effects, daemonStep env d e = some (d', effects)

theorem frame_sound {f : Frame} (hd : Sound d)
    (h : ieee8021xReceive env f d = some (d', effects)) : Sound d' := by
  unfold ieee8021xReceive at h
  split at h
  · cases h
  · rename_i k hfind
    obtain ⟨s, hs, _⟩ := findInChain_some hfind
    obtain ⟨hmem, rfl⟩ := sta_spec hs
    have hkeeps : KeepsTable False s.node d effects d' :=
      machinery_keepsTable.receiveFrom f d _ _ h
    exact hkeeps.sound (List.mem_map.mpr ⟨s, hmem, rfl⟩) hd
  · rename_i hfind
    split at h
    · cases h
      exact hd
    · obtain ⟨⟨mid, first⟩, hadd, hrest⟩ := Option.bind_eq_some_iff.mp h
      obtain ⟨⟨last, more⟩, hreceive, heq⟩ := Option.map_eq_some_iff.mp hrest
      cases heq
      obtain ⟨s, hnode, haddr, hadded⟩ := addSta_keepsTable hadd
      have hlisted : Sound (listed d s) :=
        ⟨listed_table hd.table hnode (haddr ▸ addr_new hd.table hfind),
          listed_timers hd.timers hnode⟩
      have hin : d.nodes ∈ (listed d s).nodesOf := List.mem_cons.mpr (.inl hnode.symm)
      have hkeeps : KeepsTable False d.nodes mid more d' :=
        machinery_keepsTable.receiveFrom f mid _ _ hreceive
      refine hkeeps.sound ?_ (hadded.sound hin hlisted)
      rw [hadded.nodesOf]
      exact hin

theorem free_sound (hd : Sound d) (hspare : Timeout.apHandleSessionTimer node ∉ d.timeouts)
    (h : apFreeSta d node = some d') : Sound d' :=
  ⟨apFreeSta_table hd.table h, (apFreeSta_timers hd.table hd.timers hspare h).1⟩

theorem applyReply_sound {a : Datagram} {msg : RadiusMsg} {req : Entry} (hd : Sound d)
    (hnode : node ∈ d.nodesOf)
    (hspare : freeFlag d.conf msg → Timeout.apHandleSessionTimer node ∉ d.timeouts)
    (h : applyReply env node d a msg req = some (d', effects)) : Sound d' := by
  rw [applyReply_eq] at h
  obtain ⟨⟨mid, first⟩, hstep, hrest⟩ := Option.bind_eq_some_iff.mp h
  obtain ⟨⟨last, more⟩, hfree, heq⟩ := Option.map_eq_some_iff.mp hrest
  cases heq
  dsimp only at hfree
  have htaken : ∀ session : Prop, KeepsTable session node d
      [.reply node msg.code req.serial (!bareReject msg)]
      (d.setSta node fun s => { s with radiusIdentifier := -1, lastRecvRadius := some msg }) :=
    fun _ => keepsTable_setSta d node fun _ => ⟨rfl, rfl⟩
  split at hfree
  · rename_i hflag
    have hkeeps : KeepsTable False node d first mid :=
      machinery_keepsTable.stepReply d a msg req (htaken False) (.inl hflag) _ _ hstep
    obtain ⟨freed, hfreed, heq⟩ := Option.map_eq_some_iff.mp hfree
    cases heq
    refine free_sound (hkeeps.sound hnode hd) ?_ hfreed
    intro hmem
    rcases hkeeps.timeouts _ hmem with hmem | hnone | ⟨hfalse, _⟩
    · exact hspare hflag hmem
    · cases hnone
    · exact hfalse
  · cases hfree
    have hkeeps : KeepsTable True node d first d' :=
      machinery_keepsTable.stepReply d a msg req (htaken True) (.inr keepsTable_session) _ _ hstep
    exact hkeeps.sound hnode hd

theorem datagram_sound {a : Datagram} (hd : Sound d) (hspare : SparesSession env d (.datagram a))
    (h : radiusClientReceive env d a = some (d', effects)) : Sound d' := by
  by_cases hlen : radiusBufSize ≤ a.data.length
  · rw [radiusClientReceive, if_pos hlen] at h
    cases h
    exact hd
  rcases radiusClientReceive_cases h with ⟨rfl, _⟩ | ⟨msg, req, rest, res, hparse, htake, hauth⟩
  · exact hd
  · have hunlinked : Aside d (unlinkRequest d rest) :=
      ⟨rfl, rfl, rfl, rfl, fun _ ht => .inl ht⟩
    have hd' := hunlinked.sound hd
    unfold ieee8021xReceiveAuth at hauth
    split at hauth
    · cases hauth
      exact hd'
    · rename_i s hs
      split at hauth
      · cases hauth
        exact hd'
      · rename_i hverified
        split at hauth
        · cases hauth
          exact hd'
        · rename_i hcode
          obtain ⟨⟨last, made⟩, happly, heq⟩ := Option.map_eq_some_iff.mp hauth
          cases heq
          refine applyReply_sound hd' ?_ ?_ happly
          · exact List.mem_map.mpr ⟨s, List.mem_of_find?_eq_some hs, rfl⟩
          · intro hflag
            refine hspare s.node ⟨msg, s, ⟨?_, hparse, hs, req, rest, htake, ?_, ?_⟩, hflag, rfl⟩
            · exact Nat.lt_of_not_le hlen
            · by_cases hbare : bareReject msg
              · exact .inl hbare
              · exact .inr (not_not.mp fun hbad => hverified ⟨hbare, hbad⟩)
            · exact not_not.mp hcode

theorem expire_sound {t : Timeout} {now : Nat} (hd : Sound d) (ht : t ∈ d.timeouts)
    (h : expire env { d with timeouts := d.timeouts.erase t } now t = some (d', effects)) :
    Sound d' := by
  have hleft : Aside d { d with timeouts := d.timeouts.erase t } :=
    ⟨rfl, rfl, rfl, rfl, fun _ ht' => .inl (List.mem_of_mem_erase ht')⟩
  have hd' := hleft.sound hd
  cases t with
  | radiusClientTimer => exact (radiusClientTimer_aside h).sound hd'
  | radiusRetryPrimaryTimer =>
    obtain ⟨last, hretry, heq⟩ := Option.map_eq_some_iff.mp h
    cases heq
    exact (radiusRetryPrimaryTimer_aside hretry).sound hd'
  | eapolPortTimersTick node =>
    have hnode : node ∈ d.nodesOf := hd.timers _ ht node rfl
    obtain ⟨⟨mid, first⟩, hstep, hrest⟩ := Option.bind_eq_some_iff.mp h
    cases hrest
    have hmachines : Machinery env node (KeepsTable False node) := machinery_keepsTable
    have hkeeps : KeepsTable False node { d with
        timeouts := d.timeouts.erase (.eapolPortTimersTick node) } first mid :=
      hmachines.after_edit (keepsIdentity_sm _) (hmachines.stepSta _) _ _ hstep
    have hmid := hkeeps.sound hnode hd'
    refine ⟨?_, ?_⟩
    · exact ⟨hmid.table.nodes, hmid.table.addrs, hmid.table.fresh, hmid.table.chains,
        hmid.table.once, hmid.table.count⟩
    · intro t ht k hk
      rcases List.mem_append.mp ht with ht | ht
      · exact hmid.timers t ht k hk
      · rw [List.mem_singleton.mp ht] at hk
        cases hk
        show node ∈ mid.nodesOf
        rw [hkeeps.nodesOf]
        exact hnode
  | apHandleSessionTimer node =>
    obtain ⟨s, _, heq⟩ := Option.map_eq_some_iff.mp h
    cases heq
    exact hd'

theorem reload_sound {conf : Config} (hd : Sound d)
    (hspare : ∀ k ∈ d.nodesOf, Timeout.apHandleSessionTimer k ∉ d.timeouts)
    (h : handleReloadConfig d conf = some d') : Sound d' := by
  obtain ⟨mid, hfree, rfl⟩ := Option.map_eq_some_iff.mp h
  have hconf : Aside d { radiusClientFlush d with conf := conf } :=
    (flush_aside d).trans ⟨rfl, rfl, rfl, rfl, fun _ ht => .inl ht⟩
  have hd' := hconf.sound hd
  have hspare' : ∀ k ∈ ({ radiusClientFlush d with conf := conf } : Rtapd).staList.map (·.node),
      Timeout.apHandleSessionTimer k ∉ ({ radiusClientFlush d with conf := conf } : Rtapd).timeouts :=
    fun k hk hmem => hspare k hk (List.mem_filter.mp hmem).1
  obtain ⟨htable, htimers⟩ := apdFreeStas_sound hd'.table hd'.timers hspare' hfree
  exact (flush_aside mid).sound ⟨htable, htimers⟩

theorem next_sound {e : Event} (hd : Sound d) (hspare : SparesSession env d e)
    (h : Next env d e d') : Sound d' := by
  obtain ⟨effects, h⟩ := h
  cases e with
  | frame f => exact frame_sound hd h
  | datagram a => exact datagram_sound hd hspare h
  | disconnect sa =>
    obtain ⟨last, hgone, heq⟩ := Option.map_eq_some_iff.mp h
    cases heq
    unfold disconnectEntry at hgone
    split at hgone
    · cases hgone
    · cases hgone
      exact hd
    · rename_i k hfind
      exact free_sound hd (hspare k hfind) hgone
  | reload conf =>
    obtain ⟨last, hload, heq⟩ := Option.map_eq_some_iff.mp h
    cases heq
    exact reload_sound hd hspare hload
  | expired t now =>
    rw [daemonStep] at h
    split at h
    · rename_i ht
      exact expire_sound hd ht h
    · cases h

theorem start_sound (conf : Config) : Sound (.start conf) where
  table := ⟨List.nodup_nil, List.nodup_nil, fun _ h => (List.not_mem_nil h).elim,
    fun _ _ => ⟨fun h => (List.not_mem_nil h).elim, fun ⟨_, h, _⟩ => (List.not_mem_nil h).elim⟩,
    fun _ => List.nodup_nil, rfl⟩
  timers t ht k hk := by
    unfold Rtapd.start at ht
    dsimp only at ht
    split at ht
    · cases ht
    · rw [List.mem_singleton.mp ht] at hk
      cases hk

/-- In every run in which no station is freed while its session timer is set, each timer of a station
is one of a station of the list, and the list and the hash chains have the same stations, each once,
`num_sta` of them. -/
theorem timers_have_stations {conf : Config} {es : List Event}
    (h : Run (Guarded (SparesSession env) (Next env)) (.start conf) es d) :
    (∀ t ∈ d.timeouts, ∀ node, t.station = some node → ∃ s ∈ d.staList, s.node = node) ∧
      (d.staList.map (·.node)).Nodup ∧ (∀ i, (d.staHash i).Nodup) ∧
      (∀ node, (∃ s ∈ d.staList, s.node = node) ↔ ∃ i, node ∈ d.staHash i) ∧
      (∀ i j node, node ∈ d.staHash i → node ∈ d.staHash j → i = j) ∧
      d.numSta = d.staList.length := by
  have hd : Sound d := h.invariant Sound
    (fun d e d' hd hstep => next_sound hd hstep.1 hstep.2) (start_sound conf)
  refine ⟨?_, hd.table.nodes, hd.table.once, ?_, ?_, hd.table.count⟩
  · intro t ht node hnode
    exact List.mem_map.mp (hd.timers t ht node hnode)
  · intro node
    constructor
    · rintro ⟨s, hs, rfl⟩
      exact ⟨staHash s.addr, (hd.table.chains _ _).mpr ⟨s, hs, rfl, rfl⟩⟩
    · rintro ⟨i, hi⟩
      obtain ⟨s, hs, hnode, _⟩ := (hd.table.chains i node).mp hi
      exact ⟨s, hs, hnode⟩
  · intro i j node hi hj
    obtain ⟨s, hs, rfl, rfl⟩ := (hd.table.chains i node).mp hi
    obtain ⟨s', hs', hnode, rfl⟩ := (hd.table.chains j s.node).mp hj
    rw [List.inj_on_of_nodup_map hd.table.nodes hs' hs hnode]

section Examples

theorem run_untraced {init : Trace Rtapd Effect} {t : Trace Rtapd Effect} {es : List Event}
    (h : Run (Graph (traceStep (daemonStep env))) init es t) :
    Run (Next env) init.state es t.state := by
  induction h with
  | nil => exact .nil
  | snoc _ hlast ih =>
    obtain ⟨⟨s, log⟩, hs, heq⟩ := Option.map_eq_some_iff.mp hlast
    cases heq
    exact ih.snoc ⟨log, hs⟩

/-- One station has come. -/
theorem timers_have_stations_one : ∃ d,
    Run (Guarded (SparesSession plainEnv) (Next plainEnv)) (.start oneServer) [eapolStart 7] d ∧
      d.numSta = 1 ∧ ∀ t ∈ d.timeouts, ∀ node, t.station = some node →
        ∃ s ∈ d.staList, s.node = node := by
  have hone : (daemonStep plainEnv (.start oneServer) (eapolStart 7)).map (fun r => r.1.numSta) =
      some 1 := by decide +kernel
  obtain ⟨⟨d, effects⟩, hstep, hnum⟩ := Option.map_eq_some_iff.mp hone
  have hrun : Run (Guarded (SparesSession plainEnv) (Next plainEnv)) (.start oneServer)
      [eapolStart 7] d := .single ⟨fun _ hfrees => hfrees.elim, effects, hstep⟩
  exact ⟨d, hrun, hnum, (timers_have_stations hrun).1⟩

def leavesEarly : List Event :=
  [eapolStart 7, eapResponse 7 1 eapTypeIdentity,
    .datagram (signedDatagram radiusCodeAccessAccept 0 [radiusAttrSessionTimeout, 6, 0, 0, 0, 60]),
    .disconnect (macOf 7)]

/-- Its session timer is still set. -/
theorem session_timer_outlives : ∃ d, Run (Next plainEnv) (.start oneServer) leavesEarly d ∧
    .apHandleSessionTimer 0 ∈ d.timeouts ∧ d.staList = [] := by
  have hrun : (exec (traceStep (daemonStep plainEnv)) ⟨.start oneServer, []⟩ leavesEarly).map
      (fun t => (decide (.apHandleSessionTimer 0 ∈ t.state.timeouts), t.state.staList.isEmpty)) =
      some (true, true) := by decide +kernel
  obtain ⟨t, ht, hfacts⟩ := Option.map_eq_some_iff.mp hrun
  obtain ⟨htimer, hempty⟩ := Prod.mk.inj hfacts
  exact ⟨t.state, run_untraced (exec_run ht), of_decide_eq_true htimer, List.isEmpty_iff.mp hempty⟩

end Examples

end OpenwrtMtk.Dot1x
