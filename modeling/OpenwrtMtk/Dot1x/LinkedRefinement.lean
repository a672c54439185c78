import OpenwrtMtk.Dot1x.LinkedLoops

/-!
# The list in memory is the list of pending requests

Each function of the client on the entries in memory fails when its counterpart on the list of
pending requests does, and otherwise keeps `Matches`: the links spell the list, all of whose
entries are allocated.
-/

namespace OpenwrtMtk.Dot1x.Linked

open Toolkit

set_option autoImplicit false

structure Represents (c : Client) (d : Rtapd) (L : List Nat) : Prop where
  holds : Holds c.radius L
  msgs : d.radius.msgs = L.map c.radius.entry
  numMsgs : d.radius.numMsgs = c.radius.numMsgs
  identifier : d.radius.nextRadiusIdentifier = c.radius.nextRadiusIdentifier
  conf : d.conf = c.conf
  timeouts : d.timeouts = c.timeouts
  acked : ∀ i, c.acked = some i → i ∈ c.radius.live ∧ i ∉ L

def Matches (c : Client) (d : Rtapd) : Prop := ∃ L, Represents c d L

variable {c c' : Client} {d : Rtapd} {L : List Nat}

theorem Represents.msgs_eq_nil (h : Represents c d L) :
    d.radius.msgs = [] ↔ c.radius.msgs = none := by
  rw [h.msgs, h.holds.chain.head_eq, List.map_eq_nil_iff, List.head?_eq_none_iff]

theorem Represents.acked_walked {r : RadiusClientData} {M : List Nat} (h : Represents c d L)
    (hw : Walked c.radius [] L r M) : ∀ i, c.acked = some i → i ∈ r.live ∧ i ∉ M := by
  intro i hi
  obtain ⟨hlive, hout⟩ := h.acked i hi
  exact ⟨hw.live i hlive hout, fun hmem => hout (hw.sub.subset hmem)⟩

theorem Represents.cursor (h : Represents c d L) :
    Cursor c.radius.next c.radius.msgs [] none c.radius.msgs L :=
  Cursor.start h.holds.chain

theorem getId_represents (h : Represents c d L) :
    Option.Rel (fun got out => got.1 = out.1 ∧ ∃ M, M.Sublist L ∧
        Represents { c with radius := got.2 } { d with radius := out.2 } M)
      (radiusClientGetId c.radius) (Dot1x.radiusClientGetId d.radius) := by
  unfold radiusClientGetId Dot1x.radiusClientGetId
  rw [h.msgs, h.identifier]
  refine rel_map (removeId_sim c.radius.nextRadiusIdentifier (fuel c.radius) none false
    (r := { c.radius with nextRadiusIdentifier := c.radius.nextRadiusIdentifier + 1 })
    h.cursor h.holds.live h.holds.length_lt rfl) ?_
  rintro r' es ⟨M, hw, hnum, rfl⟩
  refine ⟨rfl, M, hw.sub, hw.holds, rfl, h.numMsgs.trans hnum.symm, hw.identifier.symm, h.conf,
    h.timeouts, ?_⟩
  intro i hi
  obtain ⟨hlive, hout⟩ := h.acked i hi
  exact ⟨hw.live i hlive hout, fun hmem => hout (hw.sub.subset hmem)⟩

theorem getId_sim (h : Matches c d) :
    Option.Rel (fun got out => got.1 = out.1 ∧
        Matches { c with radius := got.2 } { d with radius := out.2 })
      (radiusClientGetId c.radius) (Dot1x.radiusClientGetId d.radius) := by
  obtain ⟨L, h⟩ := h
  refine rel_mono (getId_represents h) ?_
  rintro got out ⟨hid, M, _, hrep⟩
  exact ⟨hid, M, hrep⟩

def Pushed (numMsgs : U32) (L L' : List Nat) : Prop :=
  L ⊆ L' ∨ (BitVec.ofNat 32 radiusClientMaxEntries).ule numMsgs

theorem limitList_spec {r : RadiusClientData} {i : Nat} (h : Holds r (i :: L)) :
    ∃ r' L', limitList r i = some r' ∧ Walked r [] (i :: L) r' (i :: L') ∧
      r'.entry = r.entry ∧
      if (BitVec.ofNat 32 radiusClientMaxEntries).ule r.numMsgs then
        L' = L.dropLast ∧ r'.numMsgs = r.numMsgs
      else L' = L ∧ r'.numMsgs = r.numMsgs + 1 := by
  unfold limitList
  split
  · have hc : Cursor r.next r.msgs [] none (some i) (i :: L) := by
      have hstart := Cursor.start h.chain
      rwa [h.chain.head_eq] at hstart ⊢
    obtain ⟨B, last, p, hlast, hsplit, hwalk⟩ := walkToLast_spec (fuel r) hc h.live h.length_lt
    rw [hwalk, Option.bind_some]
    have hnone : r.next last = none := hlast.next_eq
    cases p with
    | none =>
      obtain ⟨hB, _⟩ := hlast.unlink_head
      rw [List.nil_append] at hB
      rw [hB, List.nil_append] at hsplit
      cases hsplit
      exact ⟨r, [], rfl, Walked.stay h, rfl, rfl, rfl⟩
    | some q =>
      have hmem : ∀ j ∈ [] ++ B ++ [last], j ∈ r.live := by
        intro j hj
        apply h.live
        rwa [hsplit]
      obtain ⟨head, next, hlink, hc', -⟩ := unlink_spec hlast hmem
      rw [hnone] at hlink hc'
      dsimp only
      rw [hlink, Option.bind_some, 
        free_spec (r := { r with msgs := head, next := next }) (hmem last (by simp))]
      have hB : B ≠ [] := List.ne_nil_of_mem hlast.prev_mem
      obtain ⟨j, M, rfl⟩ := List.exists_cons_of_ne_nil hB
      obtain ⟨rfl, rfl⟩ : i = j ∧ L = M ++ [last] := by simpa using hsplit
      refine ⟨_, M, rfl, ⟨⟨by simpa using hc'.chain, ?_⟩, by simp, ?_, fun _ _ => rfl, rfl⟩, rfl,
        by simp, rfl⟩
      · intro k hk
        exact live_filter hlast.nodup hmem k (by simpa using hk)
      · intro k hk hout
        refine List.mem_filter.mpr ⟨hk, ?_⟩
        have : k ≠ last := fun heq => hout (by simp [heq])
        simpa using this
  · exact ⟨_, L, rfl, ⟨⟨h.chain, h.live⟩, List.Sublist.refl _, fun _ hj _ => hj, fun _ _ => rfl, rfl⟩,
      rfl, rfl, rfl⟩

theorem pushEntry_sim {r : RadiusClientData} {R : Dot1x.RadiusClientData} {i : Nat} (e : Entry)
    (h : Holds r L) (hi : i ∉ r.live) (hmsgs : R.msgs = L.map r.entry)
    (hnum : R.numMsgs = r.numMsgs) :
    ∃ r' L', pushEntry r i e = some r' ∧ Holds r' L' ∧
      (Dot1x.pushEntry R e).msgs = L'.map r'.entry ∧ (Dot1x.pushEntry R e).numMsgs = r'.numMsgs ∧
      r'.nextRadiusIdentifier = r.nextRadiusIdentifier ∧
      (∀ j ∈ r.live, j ∉ L → j ∈ r'.live ∧ j ∉ L') ∧ Pushed r.numMsgs L L' := by
  have hout : ∀ j ∈ L, j ≠ i := by
    rintro j hj rfl
    exact hi (h.live j hj)
  have hheld : Holds { r.setEntry i e with
      live := i :: r.live, next := Function.update r.next i r.msgs, msgs := some i } (i :: L) := by
    constructor
    · refine .cons ?_
      dsimp only
      rw [Function.update_self]
      exact h.chain.congr fun j hj => Function.update_of_ne (hout j hj) _ _
    · intro j hj
      rcases List.mem_cons.mp hj with rfl | hj
      · exact List.mem_cons_self
      · exact List.mem_cons_of_mem _ (h.live j hj)
  obtain ⟨r', L', hlimit, hw, hentry, hcase⟩ := limitList_spec hheld
  change if (BitVec.ofNat 32 radiusClientMaxEntries).ule r.numMsgs then
    L' = L.dropLast ∧ r'.numMsgs = r.numMsgs else L' = L ∧ r'.numMsgs = r.numMsgs + 1 at hcase
  have hsub : L' ⊆ L := (List.cons_sublist_cons.mp hw.sub).subset
  have hnew : r'.entry i = e := by
    rw [hentry]
    exact Function.update_self (β := fun _ => Entry) _ _ _
  have hold : L'.map r'.entry = L'.map r.entry := by
    rw [hentry]
    exact map_setEntry fun hmem => hout i (hsub hmem) rfl
  refine ⟨r', i :: L', hlimit, hw.holds, ?_, ?_, hw.identifier, ?_, ?_⟩
  · unfold Dot1x.pushEntry
    rw [List.map_cons, hnew, hold, hnum]
    split at hcase <;> rename_i hfull
    · rw [if_pos hfull, hcase.1, hmsgs, ← List.map_dropLast]
    · rw [if_neg hfull, hcase.1, hmsgs]
  · unfold Dot1x.pushEntry
    rw [hnum]
    split at hcase <;> rename_i hfull
    · rw [if_pos hfull, hcase.2]
    · rw [if_neg hfull, hcase.2]
  · intro j hj hjL
    have hne : j ∉ i :: L := by
      intro hmem
      rcases List.mem_cons.mp hmem with rfl | hmem
      · exact hi hj
      · exact hjL hmem
    exact ⟨hw.live j (List.mem_cons_of_mem i hj) hne, fun hmem => hne (hw.sub.subset hmem)⟩
  · split at hcase <;> rename_i hfull
    · exact .inr hfull
    · refine .inl ?_
      rw [hcase.1]
      exact List.subset_cons_self i L

theorem Represents.registerTimeout (h : Represents c d L) (t : Timeout) :
    Represents (c.registerTimeout t) (d.registerTimeout t) L :=
  { h with timeouts := congrArg (· ++ [t]) h.timeouts }

theorem Represents.cancelTimeout (h : Represents c d L) (t : Timeout) :
    Represents (c.cancelTimeout t) (d.cancelTimeout t) L :=
  { h with timeouts := congrArg (List.filter (· ≠ t)) h.timeouts }

theorem push_represents (malloc : Malloc) (e : Entry) (h : Represents c d L) :
    ∃ r' L', pushEntry c.radius (malloc.addr c.radius.live) e = some r' ∧
      Represents { c with radius := r' } { d with radius := Dot1x.pushEntry d.radius e } L' ∧
      Pushed c.radius.numMsgs L L' := by
  obtain ⟨r', L', hpush, hheld, hmsgs, hnum, hid, hkept, hpushed⟩ :=
    pushEntry_sim e h.holds (malloc.fresh c.radius.live) h.msgs h.numMsgs
  refine ⟨r', L', hpush, ⟨hheld, hmsgs, hnum, ?_, h.conf, h.timeouts, ?_⟩, hpushed⟩
  · rw [hid, ← h.identifier]
    unfold Dot1x.pushEntry
    dsimp only
    split <;> rfl
  · intro i hi
    exact hkept i (h.acked i hi).1 (h.acked i hi).2

theorem listAdd_sim (o : SendOracle) (malloc : Malloc) (serial : Nat) (msg : RadiusMsg)
    (secret : List U8) (apIdx : Nat) (h : Represents c d L) :
    ∃ c' L', radiusClientListAdd o malloc c serial msg secret apIdx = some c' ∧
      Represents c' (Dot1x.radiusClientListAdd o d serial msg secret apIdx) L' ∧
      Pushed c.radius.numMsgs L L' := by
  unfold radiusClientListAdd Dot1x.radiusClientListAdd
  split
  · by_cases hempty : d.radius.msgs = []
    · rw [if_pos hempty, if_pos (h.msgs_eq_nil.mp hempty)]
      obtain ⟨r', L', hpush, hrep, hpushed⟩ :=
        push_represents malloc _ (h.registerTimeout .radiusClientTimer)
      exact ⟨_, L', congrArg (Option.map _) hpush, hrep, hpushed⟩
    · rw [if_neg hempty, if_neg (mt h.msgs_eq_nil.mpr hempty)]
      obtain ⟨r', L', hpush, hrep, hpushed⟩ := push_represents malloc _ h
      exact ⟨_, L', congrArg (Option.map _) hpush, hrep, hpushed⟩
  · exact ⟨c, L, rfl, h, .inl (List.Subset.refl L)⟩

theorem send_sim (env : Env) (malloc : Malloc) (serial sta : Nat) (msg : RadiusMsg) (apIdx : Nat)
    (h : Matches c d) :
    Option.Rel (fun c' out => Matches c' out.1)
      (radiusClientSend env malloc c serial msg apIdx)
      (Dot1x.radiusClientSend env d serial sta msg apIdx) := by
  obtain ⟨L, h⟩ := h
  unfold radiusClientSend Dot1x.radiusClientSend
  rw [h.conf]
  refine rel_bind rel_refl ?_
  rintro secret _ rfl
  cases radiusMsgFinish (env.send serial).mem env.digest msg secret with
  | none => exact .none
  | some msg =>
    obtain ⟨c', L', hadd, hrep, _⟩ := listAdd_sim (env.send serial) malloc serial msg secret apIdx h
    rw [Option.bind_some, hadd]
    exact .some ⟨L', hrep⟩

/-- `Radius_client_receive` up to the handlers, on the list. -/
def ackRequest (d : Rtapd) (mem : Memory) (data : List U8) : Rtapd :=
  if radiusBufSize ≤ data.length then d
  else
    match radiusMsgParse mem data with
    | none => d
    | some msg =>
      match takeRequest msg.identifier d.radius.msgs with
      | none => d
      | some (_, rest) => unlinkRequest d rest

theorem receive_sim (mem : Memory) (data : List U8) (h : Matches c d) :
    ∃ c', radiusClientReceive c mem data = some c' ∧ Matches c' (ackRequest d mem data) := by
  obtain ⟨L, h⟩ := h
  unfold radiusClientReceive ackRequest
  split
  · exact ⟨c, rfl, L, h⟩
  · cases radiusMsgParse mem data with
    | none => exact ⟨c, rfl, L, h⟩
    | some msg =>
      dsimp only
      rw [h.msgs]
      rcases findRequest_sim msg.identifier (fuel c.radius) h.cursor h.holds.live
        h.holds.length_lt with ⟨B, -, hfind, htake⟩ | ⟨B, i, M, p, hc, rfl, hfind, htake⟩
      · rw [hfind, htake]
        exact ⟨c, rfl, L, h⟩
      · rw [List.nil_append] at hc
        obtain ⟨head, next, hlink, hc', -⟩ := unlink_spec hc h.holds.live
        rw [hfind, htake, Option.bind_some]
        dsimp only
        rw [hlink]
        have hsub : ∀ j ∈ B ++ M, j ∈ B ++ i :: M := fun j hj => by
          rcases List.mem_append.mp hj with hB | hM
          · exact List.mem_append_left _ hB
          · exact List.mem_append_right _ (List.mem_cons_of_mem i hM)
        refine ⟨_, rfl, B ++ M, ⟨hc'.chain, fun j hj => h.holds.live j (hsub j hj)⟩, rfl, ?_,
          h.identifier, h.conf, h.timeouts, ?_⟩
        · exact congrArg (· - 1) h.numMsgs
        · rintro j hj
          cases hj
          refine ⟨h.holds.live i (by simp), ?_⟩
          exact (List.nodup_middle.mp h.holds.nodup).notMem

theorem freeAcked_sim {i : Nat} (hi : c.acked = some i) (h : Matches c d) :
    ∃ c', freeAcked c i = some c' ∧ Matches c' d := by
  obtain ⟨L, h⟩ := h
  obtain ⟨hlive, hout⟩ := h.acked i hi
  unfold freeAcked
  rw [free_spec hlive]
  refine ⟨_, rfl, L, ⟨h.holds.chain, ?_⟩, h.msgs, h.numMsgs, h.identifier, h.conf, h.timeouts, ?_⟩
  · intro j hj
    refine List.mem_filter.mpr ⟨h.holds.live j hj, ?_⟩
    have : j ≠ i := fun heq => hout (heq ▸ hj)
    simpa using this
  · intro j hj
    cases hj

theorem flush_sim (h : Matches c d) :
    ∃ c', radiusClientFlush c = some c' ∧ Matches c' (Dot1x.radiusClientFlush d) := by
  obtain ⟨L, h⟩ := h
  unfold radiusClientFlush Dot1x.radiusClientFlush
  have hfree := freeAll_spec (r := { c.radius with msgs := none, numMsgs := 0 }) (fuel c.radius)
    h.holds.chain h.holds.live h.holds.length_lt
  dsimp only [Client.cancelTimeout]
  rw [hfree]
  refine ⟨_, rfl, [], ⟨.nil, fun j hj => absurd hj List.not_mem_nil⟩, rfl, rfl, h.identifier,
    h.conf, ?_, ?_⟩
  · exact congrArg (List.filter (· ≠ Timeout.radiusClientTimer)) h.timeouts
  · intro i hi
    obtain ⟨hlive, hout⟩ := h.acked i hi
    exact ⟨List.mem_filter.mpr ⟨hlive, by simpa using hout⟩, List.not_mem_nil⟩

theorem changeServer_sim (nserv : List U8) (oserv : Option (List U8)) (h : Matches c d) :
    ∃ c', radiusChangeServer c nserv oserv = some c' ∧
      Matches c' (Dot1x.radiusChangeServer d nserv oserv) := by
  unfold radiusChangeServer Dot1x.radiusChangeServer
  split
  · exact flush_sim h
  · obtain ⟨L, h⟩ := h
    obtain ⟨r', hreset, hw, hnum, hmsgs, hes⟩ :=
      resetAll_spec (fuel c.radius) h.cursor h.holds.live h.holds.length_lt
    rw [hreset]
    have hrep : Represents { c with radius := r' }
        { d with radius := { d.radius with msgs := d.radius.msgs.map resetEntry } } L :=
      ⟨hw.holds, by rw [hes, h.msgs], h.numMsgs.trans hnum.symm,
        h.identifier.trans hw.identifier.symm, h.conf, h.timeouts, h.acked_walked hw⟩
    refine ⟨_, rfl, L, ?_⟩
    dsimp only
    have hempty := hrep.msgs_eq_nil
    dsimp only at hempty
    by_cases hnone : r'.msgs = none
    · rw [if_pos hnone, if_pos (hempty.mpr hnone)]
      exact hrep
    · rw [if_neg hnone, if_neg (mt hempty.mp hnone)]
      exact (hrep.cancelTimeout _).registerTimeout _

theorem useServer_sim (i : Nat) (bss : Bss) (next : Nat) (h : Matches c d) :
    Option.Rel Matches (useServer c i bss next) (Dot1x.useServer d i bss next) := by
  unfold useServer Dot1x.useServer
  cases bss.servers[next]? with
  | none => exact .none
  | some nserv =>
    obtain ⟨L, h⟩ := h
    have hconf : Matches
        { c with conf := { c.conf with bss := c.conf.bss.set i { bss with current := next } } }
        { d with conf := { d.conf with bss := d.conf.bss.set i { bss with current := next } } } :=
      ⟨L, { h with conf := by rw [h.conf] }⟩
    obtain ⟨c', hchange, hrep⟩ := changeServer_sim nserv bss.servers[bss.current]? hconf
    rw [Option.bind_some, hchange]
    exact .some hrep

theorem mem_failedOf (es : List Entry) (i : Nat) :
    i ∈ failedOf es ↔ es.any (fun e => e.apIdx = i ∧ radiusClientNumFailover < e.attempts) := by
  unfold failedOf
  simp only [List.mem_map, List.mem_filter, List.any_eq_true, decide_eq_true_eq]
  constructor
  · rintro ⟨e, ⟨he, hmany⟩, rfl⟩
    exact ⟨e, he, rfl, hmany⟩
  · rintro ⟨e, he, rfl, hmany⟩
    exact ⟨e, ⟨he, hmany⟩, rfl⟩

theorem failover_sim (es : List Entry) (i : Nat) (h : Matches c d) :
    Option.Rel Matches (failover (failedOf es) c i) (Dot1x.failover es d i) := by
  have hconf : d.conf = c.conf := h.elim fun _ h => h.conf
  unfold failover Dot1x.failover
  rw [hconf]
  cases c.conf.bss[i]? with
  | none => exact .some h
  | some bss =>
    simp only [mem_failedOf]
    split
    · exact useServer_sim i bss _ h
    · exact .some h

theorem timer_sim (now : Nat) (h : Matches c d) :
    Option.Rel (fun c' out => Matches c' out.1) (radiusClientTimer c now)
      (Dot1x.radiusClientTimer d now) := by
  obtain ⟨L, h⟩ := h
  unfold radiusClientTimer Dot1x.radiusClientTimer
  by_cases hempty : d.radius.msgs = []
  · rw [if_pos hempty, if_pos (h.msgs_eq_nil.mp hempty)]
    exact .some ⟨L, h⟩
  · rw [if_neg hempty, if_neg (mt h.msgs_eq_nil.mpr hempty)]
    obtain ⟨⟨r', failed, again⟩, M, hloop, hres⟩ :=
      retransmitLoop_sim now (fuel c.radius) h.cursor h.holds.live h.holds.length_lt
    rw [← h.msgs] at hres
    obtain rfl : failed = failedOf (retransmitAll now d.radius.msgs).msgs := hres.failed
    have hrep : Represents { c with radius := r' }
        { d with radius := { d.radius with
          msgs := (retransmitAll now d.radius.msgs).msgs
          numMsgs := d.radius.numMsgs -
            BitVec.ofNat 32 (retransmitAll now d.radius.msgs).removed } } M :=
      ⟨hres.walked.holds, hres.msgs, by rw [hres.numMsgs, h.numMsgs],
        h.identifier.trans hres.walked.identifier.symm, h.conf, h.timeouts,
        h.acked_walked hres.walked⟩
    rw [hloop, Option.bind_some]
    dsimp only
    have hnone := hrep.msgs_eq_nil
    dsimp only at hnone
    have hbss : d.conf.bss.length = c.conf.bss.length := by rw [h.conf]
    by_cases hleft : r'.msgs = none
    · rw [if_pos hleft, if_pos (hnone.mpr hleft)]
      rw [hbss]
      exact rel_map_right (rel_foldlM _ (fun _ _ i hrel => failover_sim _ i hrel) ⟨M, hrep⟩)
        fun _ _ hrel => hrel
    · rw [if_neg hleft, if_neg (mt hnone.mp hleft)]
      have hreg := hrep.registerTimeout .radiusClientTimer
      dsimp only [Client.registerTimeout, Rtapd.registerTimeout]
      rw [hbss]
      exact rel_map_right (rel_foldlM _ (fun _ _ i hrel => failover_sim _ i hrel) ⟨M, hreg⟩)
        fun _ _ hrel => hrel

theorem retryPrimary_sim (i : Nat) (h : Matches c d) :
    Option.Rel Matches (retryPrimary c i) (Dot1x.retryPrimary d i) := by
  have hconf : d.conf = c.conf := h.elim fun _ h => h.conf
  unfold retryPrimary Dot1x.retryPrimary
  rw [hconf]
  cases c.conf.bss[i]? with
  | none => exact .some h
  | some bss =>
    dsimp only
    split
    · exact useServer_sim i bss 0 h
    · exact .some h

theorem retryPrimaryTimer_sim (h : Matches c d) :
    Option.Rel Matches (radiusRetryPrimaryTimer c) (Dot1x.radiusRetryPrimaryTimer d) := by
  have hconf : d.conf = c.conf := h.elim fun _ h => h.conf
  unfold radiusRetryPrimaryTimer Dot1x.radiusRetryPrimaryTimer
  rw [hconf]
  refine rel_map (rel_foldlM _ (fun _ _ i hrel => retryPrimary_sim i hrel) h) ?_
  rintro c' d' ⟨L, hrep⟩
  rw [hrep.conf]
  split
  · exact ⟨L, hrep⟩
  · exact ⟨L, hrep.registerTimeout _⟩

def listStep (env : Env) (d : Rtapd) : ClientEvent → Option Rtapd
  | .request sending =>
    (Dot1x.radiusClientGetId d.radius).bind fun (_, radius) =>
      let d := { d with radius := radius }
      match sending with
      | none => some d
      | some s => (Dot1x.radiusClientSend env d s.serial 0 s.msg s.apIdx).map (·.1)
  | .datagram mem data => some (ackRequest d mem data)
  | .handled => some d
  | .timer now => (Dot1x.radiusClientTimer d now).map (·.1)
  | .retryPrimary => Dot1x.radiusRetryPrimaryTimer d
  | .flush conf => some (Dot1x.radiusClientFlush { d with conf := conf })

theorem clientStep_sim (env : Env) (e : ClientEvent) (h : Matches c d) :
    Option.Rel Matches (clientStep env c e) (listStep env d e) := by
  cases e with
  | request sending =>
    unfold clientStep listStep
    refine rel_bind (getId_sim h) ?_
    rintro ⟨id, r⟩ ⟨_, R⟩ ⟨rfl, hrel⟩
    cases sending with
    | none => exact .some hrel
    | some s =>
      exact rel_map_right (send_sim env s.malloc s.serial 0 s.msg s.apIdx hrel) fun _ _ hrel => hrel
  | datagram mem data =>
    obtain ⟨c', hreceive, hrel⟩ := receive_sim mem data h
    rw [clientStep, listStep, hreceive]
    exact .some hrel
  | handled =>
    rw [clientStep, listStep]
    cases hacked : c.acked with
    | none => exact .some h
    | some i =>
      obtain ⟨c', hfree, hrel⟩ := freeAcked_sim hacked h
      dsimp only
      rw [hfree]
      exact .some hrel
  | timer now => exact rel_map_right (timer_sim now h) fun _ _ hrel => hrel
  | retryPrimary => exact retryPrimaryTimer_sim h
  | flush conf =>
    obtain ⟨L, h⟩ := h
    have hconf : Matches { c with conf := conf } { d with conf := conf } :=
      ⟨L, { h with conf := rfl }⟩
    obtain ⟨c', hflush, hrel⟩ := flush_sim hconf
    rw [clientStep, listStep, hflush]
    exact .some hrel

end OpenwrtMtk.Dot1x.Linked
