import OpenwrtMtk.Dot1x.Request
import OpenwrtMtk.Dot1x.Unverified
import OpenwrtMtk.Lib.Correlation
import OpenwrtMtk.Lib.Loops

/-!
# Replies reach the station that asked

The daemon is a desk where stations ask under 8-bit identifiers: a station waits under its
`radius_identifier`, a pending request is outstanding under the identifier of its message, and its
serial number is its ticket. As long as no identifier is handed out while another station still has
it, a reply is applied to the station its request was sent for, and answers its last request. A
station keeps its identifier when its request is dropped, so after 256 more requests that fails.
-/

namespace OpenwrtMtk.Dot1x

open Toolkit

set_option autoImplicit false

def lastRequest (sta : Nat) (log : List Effect) : Option Nat :=
  log.reverse.findSome? fun x =>
    match x with
    | .request serial sta' _ => if sta' = sta then some serial else none
    | _ => none

def Effect.Unshared : Effect → Prop
  | .identifier before sta id =>
    ∀ s ∈ before.staList, s.node ≠ sta → s.radiusIdentifier ≠ id.toNat
  | _ => True

def Unshared (log : List Effect) : Prop := ∀ x ∈ log, x.Unshared

instance (x : Effect) : Decidable x.Unshared := by
  cases x <;> (unfold Effect.Unshared; infer_instance)

instance (log : List Effect) : Decidable (Unshared log) := inferInstanceAs (Decidable (∀ x ∈ _, _))

def Effect.post : Effect → Option (Post Nat Nat)
  | .request serial sta _ => some (.issued sta serial)
  | .reply sta _ serial _ => some (.answered sta serial)
  | _ => none

def Rtapd.desk (d : Rtapd) : Desk Nat U8 Nat where
  outstanding := { q | ∃ e ∈ d.radius.msgs, e.msg.identifier = q.1 ∧ e.serial = q.2 }
  waits := { p | ∃ s ∈ d.staList, s.node = p.1 ∧ s.radiusIdentifier = p.2.toNat }
  used := { n | n < d.radius.calls }

def Serves (d : Rtapd) (effects : List Effect) (d' : Rtapd) : Prop :=
  Unshared effects →
    ∃ steps, Run Desk.Step d.desk steps d'.desk ∧ steps.flatten = effects.filterMap Effect.post

section Desk

variable {d d' : Rtapd} {effects : List Effect}

theorem unshared_append {more : List Effect} :
    Unshared (effects ++ more) ↔ Unshared effects ∧ Unshared more :=
  List.forall_mem_append

theorem composes_serves : Composes Serves where
  nothing d _ := ⟨[], .nil, rfl⟩
  step := by
    intro d d' d'' effects more h h' hun
    obtain ⟨hfirst, hsecond⟩ := unshared_append.mp hun
    obtain ⟨steps, hrun, hposts⟩ := h hfirst
    obtain ⟨steps', hrun', hposts'⟩ := h' hsecond
    refine ⟨steps ++ steps', hrun.trans hrun', ?_⟩
    rw [List.flatten_append, List.filterMap_append, hposts, hposts']

theorem filterMap_post_quiet (h : AllQuiet effects) : effects.filterMap Effect.post = [] := by
  apply List.filterMap_eq_nil_iff.mpr
  intro x hx
  have hquiet := h x hx
  cases x <;> first | rfl | exact hquiet.elim

theorem serves_of_shrinks (hs : Desk.Shrinks d.desk d'.desk) (hq : AllQuiet effects) :
    Serves d effects d' := by
  intro _
  refine ⟨[[]], .single (.shrink hs), ?_⟩
  rw [filterMap_post_quiet hq]
  rfl

/-- Stations are gone or kept, requests are gone or keep message and number. -/
structure Drops (d d' : Rtapd) : Prop where
  staList : ∀ s ∈ d'.staList, s ∈ d.staList
  msgs : ∀ e ∈ d'.radius.msgs, ∃ e' ∈ d.radius.msgs, e'.msg = e.msg ∧ e'.serial = e.serial
  calls : d'.radius.calls = d.radius.calls

theorem Drops.refl (d : Rtapd) : Drops d d where
  staList _ hs := hs
  msgs e he := ⟨e, he, rfl, rfl⟩
  calls := rfl

theorem Drops.trans {d'' : Rtapd} (h : Drops d d') (h' : Drops d' d'') : Drops d d'' where
  staList s hs := h.staList s (h'.staList s hs)
  msgs := by
    intro e he
    obtain ⟨e', he', hmsg', hserial'⟩ := h'.msgs e he
    obtain ⟨e'', he'', hmsg, hserial⟩ := h.msgs e' he'
    exact ⟨e'', he'', hmsg.trans hmsg', hserial.trans hserial'⟩
  calls := h'.calls.trans h.calls

/-- The stations and the pending requests are the same. -/
structure SameCore (d d' : Rtapd) : Prop where
  staList : d'.staList = d.staList
  radius : d'.radius = d.radius

theorem SameCore.drops (h : SameCore d d') : Drops d d' where
  staList := by
    rw [h.staList]
    exact fun _ hs => hs
  msgs := by
    rw [h.radius]
    exact fun e he => ⟨e, he, rfl, rfl⟩
  calls := by rw [h.radius]

theorem Drops.shrinks (h : Drops d d') : Desk.Shrinks d.desk d'.desk where
  outstanding := by
    rintro ⟨id, serial⟩ ⟨e, he, hid, hserial⟩
    obtain ⟨e', he', hmsg, hserial'⟩ := h.msgs e he
    exact ⟨e', he', by rw [hmsg, hid], hserial'.trans hserial⟩
  waits := by
    rintro ⟨node, id⟩ ⟨s, hs, hnode, hid⟩
    exact ⟨s, h.staList s hs, hnode, hid⟩
  used := by
    intro n hn
    change n < d'.radius.calls
    rw [h.calls]
    exact hn

theorem Drops.serves (h : Drops d d') (hq : AllQuiet effects) : Serves d effects d' :=
  serves_of_shrinks h.shrinks hq

theorem serves_setSta {node : Nat} {f : Sta → Sta}
    (hf : ∀ s, (f s).node = s.node ∧
      ((f s).radiusIdentifier = s.radiusIdentifier ∨ (f s).radiusIdentifier = -1)) :
    Desk.Shrinks d.desk (d.setSta node f).desk where
  outstanding _ h := h
  used _ h := h
  waits := by
    rintro ⟨o, id⟩ ⟨s', hs', hnode, hid⟩
    obtain ⟨s, hs, rfl⟩ := List.mem_map.mp hs'
    refine ⟨s, hs, ?_⟩
    dsimp only at hnode hid
    split at hnode
    · rename_i heq
      rw [if_pos heq] at hid
      rcases (hf s).2 with hsame | hgone
      · exact ⟨(hf s).1.symm.trans hnode, hsame.symm.trans hid⟩
      · omega
    · rename_i hne
      rw [if_neg hne] at hid
      exact ⟨hnode, hid⟩

end Desk

section Sending

variable {env : Env} {id : U8}

theorem removeId_spec {prevFreed : Bool} {msgs left : List Entry}
    (h : removeId id prevFreed msgs = some left) :
    ∀ e ∈ left, e ∈ msgs ∧ e.msg.identifier ≠ id := by
  induction msgs generalizing prevFreed left with
  | nil =>
    cases h
    intro e he
    cases he
  | cons e₀ msgs ih =>
    rw [removeId] at h
    split at h
    · split at h
      · cases h
      · intro e he
        obtain ⟨hin, hne⟩ := ih h e he
        exact ⟨List.mem_cons_of_mem _ hin, hne⟩
    · rename_i hid
      obtain ⟨left', hleft, rfl⟩ := Option.map_eq_some_iff.mp h
      intro e he
      rcases List.mem_cons.mp he with rfl | he
      · exact ⟨List.mem_cons_self, hid⟩
      · obtain ⟨hin, hne⟩ := ih hleft e he
        exact ⟨List.mem_cons_of_mem _ hin, hne⟩

theorem pushEntry_msgs (r : RadiusClientData) (e : Entry) :
    ∀ e' ∈ (pushEntry r e).msgs, e' = e ∨ e' ∈ r.msgs := by
  intro e' he'
  unfold pushEntry at he'
  split at he'
  · rcases List.mem_cons.mp he' with rfl | he'
    · exact .inl rfl
    · exact .inr ((List.dropLast_sublist r.msgs).subset he')
  · exact List.mem_cons.mp he'

theorem pushEntry_calls (r : RadiusClientData) (e : Entry) : (pushEntry r e).calls = r.calls := by
  unfold pushEntry
  split <;> rfl

theorem listAdd_msgs (o : SendOracle) (d : Rtapd) (serial : Nat) (msg : RadiusMsg)
    (secret : List U8) (apIdx : Nat) :
    ∀ e ∈ (radiusClientListAdd o d serial msg secret apIdx).radius.msgs,
      e.msg = msg ∧ e.serial = serial ∨ e ∈ d.radius.msgs := by
  intro e he
  unfold radiusClientListAdd at he
  split at he
  · dsimp only at he
    rcases pushEntry_msgs _ _ e he with rfl | he
    · exact .inl ⟨rfl, rfl⟩
    · split at he <;> exact .inr he
  · exact .inr he

theorem listAdd_calls (o : SendOracle) (d : Rtapd) (serial : Nat) (msg : RadiusMsg)
    (secret : List U8) (apIdx : Nat) :
    (radiusClientListAdd o d serial msg secret apIdx).radius.calls = d.radius.calls := by
  unfold radiusClientListAdd
  split
  · dsimp only
    rw [pushEntry_calls]
    split <;> rfl
  · rfl

def taken (d : Rtapd) (node : Nat) (id : U8) (radius : RadiusClientData) : Rtapd :=
  { d with radius := radius }.setSta node fun s => { s with radiusIdentifier := id.toNat }

theorem takes_identifier {d : Rtapd} {node : Nat} {radius : RadiusClientData}
    (hid : radiusClientGetId d.radius = some (id, radius))
    (hun : (Effect.identifier d node id).Unshared) :
    Desk.Takes d.desk node id { (taken d node id radius).desk with used := d.desk.used } where
  used := subset_rfl
  exclusive := by
    rintro o ⟨s, hs, rfl, hwait⟩
    by_contra hne
    exact hun s hs hne hwait
  outstanding := by
    rintro id' serial ⟨e, he, rfl, hserial⟩
    obtain ⟨left, hleft, heq⟩ := Option.map_eq_some_iff.mp hid
    cases heq
    obtain ⟨hin, hne⟩ := removeId_spec hleft e he
    exact ⟨hne, e, hin, rfl, hserial⟩
  waits := by
    rintro o id' ⟨s', hs', hnode, hwait⟩
    obtain ⟨s, hs, rfl⟩ := List.mem_map.mp hs'
    dsimp only at hnode hwait
    split at hnode
    · rename_i heq
      rw [if_pos heq] at hwait
      refine .inl ⟨hnode.symm.trans heq, ?_⟩
      exact (BitVec.eq_of_toNat_eq (Int.ofNat.inj hwait)).symm
    · rename_i hne
      rw [if_neg hne] at hwait
      exact .inr ⟨fun heq => hne (hnode.trans heq), s, hs, hnode, hwait⟩

theorem getId_calls {r r' : RadiusClientData} (h : radiusClientGetId r = some (id, r')) :
    r'.calls = r.calls + 1 := by
  obtain ⟨left, _, heq⟩ := Option.map_eq_some_iff.mp h
  cases heq
  rfl

theorem serves_take {d : Rtapd} {node : Nat} {radius : RadiusClientData}
    (hid : radiusClientGetId d.radius = some (id, radius)) :
    Serves d [.identifier d node id] (taken d node id radius) := by
  intro hun
  have htakes := takes_identifier hid (hun _ List.mem_cons_self)
  have hused : d.desk.used ⊆ (taken d node id radius).desk.used := by
    intro n hn
    change n < radius.calls
    rw [getId_calls hid]
    exact Nat.lt_succ_of_lt hn
  have hafter : Desk.Takes d.desk node id (taken d node id radius).desk :=
    ⟨htakes.exclusive, htakes.outstanding, htakes.waits, hused⟩
  exact ⟨[[]], .single (.take hafter), rfl⟩

theorem serves_issue {d d' : Rtapd} {node apIdx : Nat} {radius : RadiusClientData}
    {msg : RadiusMsg} {effects : List Effect} (hid : radiusClientGetId d.radius = some (id, radius))
    (hmsg : Headed id msg)
    (hsend : radiusClientSend env (taken d node id radius) d.radius.calls node msg apIdx =
      some (d', effects)) :
    Serves d ([.identifier d node id] ++ effects) d' := by
  intro hun
  obtain ⟨secret, _, hsend⟩ := Option.bind_eq_some_iff.mp hsend
  obtain ⟨signed, hsigned, heq⟩ := Option.map_eq_some_iff.mp hsend
  cases heq
  have htakes := takes_identifier hid (hun _ List.mem_cons_self)
  refine ⟨[[.issued node d.radius.calls]], .single (.issue htakes ?_ ?_ ?_ ?_), rfl⟩
  · exact Nat.lt_irrefl d.radius.calls
  · rintro ⟨id', serial⟩ ⟨e, he, hid', hserial⟩
    rcases listAdd_msgs _ _ _ _ _ _ e he with ⟨hsame, hnew⟩ | hold
    · rw [hsame, (hmsg.finish hsigned).eq] at hid'
      rw [hnew] at hserial
      exact .inl (Prod.ext hid'.symm hserial.symm)
    · exact .inr ⟨e, hold, hid', hserial⟩
  · rintro ⟨o, id'⟩ ⟨s, hs, hwait⟩
    rw [radiusClientListAdd_staList] at hs
    exact ⟨s, hs, hwait⟩
  · intro n hn
    change n < (radiusClientListAdd _ _ _ _ _ _).radius.calls
    rw [listAdd_calls]
    change n < radius.calls
    rw [getId_calls hid]
    rcases hn with rfl | hn
    · exact Nat.lt_succ_self _
    · exact Nat.lt_succ_of_lt hn

theorem encapsulate_serves (node : Nat) (d : Rtapd) :
    Meets Serves d (ieee8021xEncapsulateRadius env node d) := by
  apply meets_bind
  intro s _
  apply meets_bind
  intro bss _
  apply meets_bind
  rintro ⟨id, radius⟩ hid
  dsimp only
  split
  · exact meets_some.mpr (serves_take hid)
  · rename_i msg hbuild
    intro d' effects h
    obtain ⟨⟨d₁, first⟩, hfirst, hrest⟩ := Option.bind_eq_some_iff.mp h
    cases hfirst
    obtain ⟨⟨d₂, second⟩, hsend, heq⟩ := Option.map_eq_some_iff.mp hrest
    cases heq
    exact serves_issue hid (headed_buildRequest hbuild) hsend

theorem machinery_serves (env : Env) (node : Nat) : Machinery env node Serves where
  toComposes := composes_serves
  quiet hq := (Drops.refl _).serves hq
  edit hf hq := serves_of_shrinks (serves_setSta fun s => ⟨(hf s).1, .inl (hf s).2.2⟩) hq
  encapsulate := encapsulate_serves node

end Sending

section Stations

variable {env : Env}

theorem apFreeSta_drops {d d' : Rtapd} {node : Nat} (h : apFreeSta d node = some d') :
    Drops d d' := by
  obtain ⟨s, _, hs⟩ := Option.bind_eq_some_iff.mp h
  obtain ⟨cut, hcut, heq⟩ := Option.map_eq_some_iff.mp hs
  obtain ⟨chain, _, hchain⟩ := Option.map_eq_some_iff.mp hcut
  subst hchain heq
  exact ⟨fun _ hs => (List.mem_filter.mp hs).1, fun e he => ⟨e, he, rfl, rfl⟩, rfl⟩

theorem apdFreeStas_drops {nodes : List Nat} {d d' : Rtapd} (h : apdFreeStas nodes d = some d') :
    Drops d d' := by
  induction nodes generalizing d with
  | nil =>
    cases h
    exact .refl d'
  | cons node nodes ih =>
    obtain ⟨mid, hfirst, hrest⟩ := Option.bind_eq_some_iff.mp h
    exact (apFreeSta_drops hfirst).trans (ih hrest)

theorem newSta_shrinks (d : Rtapd) (sa : Mac) (apIdx : Nat) (ethertype : U16) (sock : Int)
    (aid : U16) (sm : EapolStateMachine) :
    Desk.Shrinks d.desk
      ({ d with
        staList := newSta d sa apIdx ethertype sock aid sm :: d.staList
        numSta := d.numSta + 1, nodes := d.nodes + 1 } : Rtapd).desk where
  outstanding _ h := h
  used _ h := h
  waits := by
    rintro ⟨o, id⟩ ⟨s, hs, hnode, hwait⟩
    rcases List.mem_cons.mp hs with rfl | hs
    · have hnone : (-1 : Int) = id.toNat := hwait
      omega
    · exact ⟨s, hs, hnode, hwait⟩

theorem addSta_serves (d : Rtapd) (sa : Mac) (apIdx : Nat) (ethertype : U16) (sock : Int)
    (aid : U16) : Meets Serves d (addSta env d sa apIdx ethertype sock aid) := by
  apply meets_bind
  rintro ⟨sm, actions⟩ _
  apply meets_andThen composes_serves
  · intro d' effects h
    have hlisted := serves_of_shrinks (newSta_shrinks d sa apIdx ethertype sock aid sm)
      allQuiet_nil
    have hran := (machinery_serves env d.nodes).runActions actions _ d' effects h
    exact composes_serves.step hlisted hran
  · intro d' _ _
    refine meets_some.mpr (serves_of_shrinks (serves_setSta ?_) allQuiet_nil)
    exact fun _ => ⟨rfl, .inl rfl⟩

theorem receive_serves (f : Frame) (d : Rtapd) : Meets Serves d (ieee8021xReceive env f d) := by
  unfold ieee8021xReceive
  split
  · exact meets_none
  · rename_i node _
    exact (machinery_serves env node).receiveFrom f d
  · split
    · exact meets_some.mpr (composes_serves.nothing d)
    · apply meets_andThen composes_serves (addSta_serves d _ _ _ _ _)
      intro d' _ _
      exact (machinery_serves env d.nodes).receiveFrom f d'

end Stations

section Replies

variable {env : Env}

theorem takeRequest_mem {id : U8} {msgs rest : List Entry} {req : Entry}
    (h : takeRequest id msgs = some (req, rest)) :
    req ∈ msgs ∧ ∀ e ∈ rest, e ∈ msgs := by
  induction msgs generalizing rest with
  | nil => cases h
  | cons e msgs ih =>
    rw [takeRequest] at h
    split at h
    · cases h
      exact ⟨List.mem_cons_self, fun _ he => List.mem_cons_of_mem _ he⟩
    · obtain ⟨⟨req', rest'⟩, htake, heq⟩ := Option.map_eq_some_iff.mp h
      cases heq
      obtain ⟨hreq, hrest⟩ := ih htake
      refine ⟨List.mem_cons_of_mem _ hreq, ?_⟩
      intro e' he'
      rcases List.mem_cons.mp he' with rfl | he'
      · exact List.mem_cons_self
      · exact List.mem_cons_of_mem _ (hrest e' he')

theorem unlinkRequest_drops {id : U8} {d : Rtapd} {req : Entry} {rest : List Entry}
    (h : takeRequest id d.radius.msgs = some (req, rest)) : Drops d (unlinkRequest d rest) where
  staList _ hs := hs
  msgs e he := ⟨e, (takeRequest_mem h).2 e he, rfl, rfl⟩
  calls := rfl

/-- A reply is an answer at the desk: its request is outstanding under the identifier that the
station found by it waits under. -/
theorem serves_reply {d : Rtapd} {msg : RadiusMsg} {req : Entry} {rest : List Entry} {s : Sta}
    (htake : takeRequest msg.identifier d.radius.msgs = some (req, rest))
    (hs : apGetStaRadiusIdentifier d msg.identifier = some s) (code : U8) (verified : Bool) :
    Serves d [.reply s.node code req.serial verified]
      ((unlinkRequest d rest).setSta s.node fun s =>
        { s with radiusIdentifier := -1, lastRecvRadius := some msg }) := by
  intro _
  have hreq : (msg.identifier, req.serial) ∈ d.desk.outstanding :=
    ⟨req, (takeRequest_mem htake).1, takeRequest_identifier htake, rfl⟩
  have hholds := List.find?_some hs
  simp only [decide_eq_true_eq] at hholds
  have hwait : (s.node, msg.identifier) ∈ d.desk.waits :=
    ⟨s, List.mem_of_find?_eq_some hs, rfl, hholds.2⟩
  have hunlinked := (unlinkRequest_drops htake).shrinks
  have hstopped : Desk.Shrinks (unlinkRequest d rest).desk
      ((unlinkRequest d rest).setSta s.node fun s =>
        { s with radiusIdentifier := -1, lastRecvRadius := some msg }).desk :=
    serves_setSta fun _ => ⟨rfl, .inr rfl⟩
  have hrun := ((Run.single (Desk.Step.answer hreq hwait)).snoc (.shrink hunlinked)).snoc
    (.shrink hstopped)
  exact ⟨_, hrun, rfl⟩

theorem radiusClientReceive_serves (d : Rtapd) (a : Datagram) :
    Meets Serves d (radiusClientReceive env d a) := by
  intro d' effects h
  rcases radiusClientReceive_cases h with ⟨rfl, rfl⟩ | ⟨msg, req, rest, res, _, htake, hauth⟩
  · exact composes_serves.nothing d'
  · have hdropped : Serves d [] (unlinkRequest d rest) :=
      (unlinkRequest_drops htake).serves allQuiet_nil
    unfold ieee8021xReceiveAuth at hauth
    split at hauth
    · cases hauth
      exact hdropped
    · rename_i s hs
      split at hauth
      · cases hauth
        exact hdropped
      · split at hauth
        · cases hauth
          exact hdropped
        · obtain ⟨⟨d'', effects'⟩, happly, heq⟩ := Option.map_eq_some_iff.mp hauth
          cases heq
          apply (machinery_serves env s.node).applyReply (unlinkRequest d rest) a msg req _ _ _ _ _ happly
          · exact serves_reply htake hs _ _
          · intro d₁
            exact (SameCore.drops ⟨rfl, rfl⟩).serves allQuiet_nil
          · intro d₁ d₂ hfree
            exact (apFreeSta_drops hfree).serves allQuiet_nil

end Replies

section Timers

variable {env : Env}

theorem flush_drops (d : Rtapd) : Drops d (radiusClientFlush d) where
  staList _ hs := hs
  msgs e he := by cases he
  calls := rfl

theorem changeServer_drops (d : Rtapd) (nserv : List U8) (oserv : Option (List U8)) :
    Drops d (radiusChangeServer d nserv oserv) := by
  have hreset : Drops d { d with
      radius := { d.radius with msgs := d.radius.msgs.map resetEntry } } := by
    refine ⟨fun _ hs => hs, ?_, rfl⟩
    intro e he
    obtain ⟨e', he', rfl⟩ := List.mem_map.mp he
    exact ⟨e', he', rfl, rfl⟩
  unfold radiusChangeServer
  split
  · exact flush_drops d
  · dsimp only
    split
    · exact hreset
    · exact hreset.trans (SameCore.drops ⟨rfl, rfl⟩)

theorem useServer_drops {d d' : Rtapd} {i next : Nat} {bss : Bss}
    (h : useServer d i bss next = some d') : Drops d d' := by
  obtain ⟨nserv, _, rfl⟩ := Option.map_eq_some_iff.mp h
  have hconf : Drops d { d with
      conf := { d.conf with bss := d.conf.bss.set i { bss with current := next } } } :=
    SameCore.drops ⟨rfl, rfl⟩
  exact hconf.trans (changeServer_drops _ _ _)

theorem failover_drops {msgs : List Entry} {d d' : Rtapd} {i : Nat}
    (h : failover msgs d i = some d') : Drops d d' := by
  unfold failover at h
  split at h
  · cases h
    exact .refl d
  · split at h
    · exact useServer_drops h
    · cases h
      exact .refl d

theorem retryPrimary_drops {d d' : Rtapd} {i : Nat} (h : retryPrimary d i = some d') :
    Drops d d' := by
  unfold retryPrimary at h
  split at h
  · cases h
    exact .refl d
  · split at h
    · exact useServer_drops h
    · cases h
      exact .refl d

theorem foldlM_drops {f : Rtapd → Nat → Option Rtapd}
    (hf : ∀ {d d' i}, f d i = some d' → Drops d d') {is : List Nat} {d d' : Rtapd}
    (h : is.foldlM f d = some d') : Drops d d' :=
  foldlM_steps Drops.refl Drops.trans hf h

theorem retransmitAll_msgs (now : Nat) (msgs : List Entry) :
    ∀ e ∈ (retransmitAll now msgs).msgs, ∃ e' ∈ msgs, e'.msg = e.msg ∧ e'.serial = e.serial := by
  induction msgs with
  | nil =>
    intro e he
    cases he
  | cons e₀ msgs ih =>
    have hlater : ∀ e ∈ (retransmitAll now msgs).msgs,
        ∃ e' ∈ e₀ :: msgs, e'.msg = e.msg ∧ e'.serial = e.serial := by
      intro e he
      obtain ⟨e', he', hsame⟩ := ih e he
      exact ⟨e', List.mem_cons_of_mem _ he', hsame⟩
    intro e he
    rw [retransmitAll] at he
    split at he
    · split at he
      · exact hlater e he
      · rename_i again hagain
        rcases List.mem_cons.mp he with rfl | he
        · unfold radiusClientRetransmit at hagain
          dsimp only at hagain
          split at hagain
          · cases hagain
          · cases hagain
            exact ⟨e₀, List.mem_cons_self, rfl, rfl⟩
        · exact hlater e he
    · rcases List.mem_cons.mp he with rfl | he
      · exact ⟨e, List.mem_cons_self, rfl, rfl⟩
      · exact hlater e he

theorem allQuiet_retransmit (serials : List Nat) : AllQuiet (serials.map .retransmit) := by
  intro x hx
  obtain ⟨n, _, rfl⟩ := List.mem_map.mp hx
  trivial

theorem radiusClientTimer_serves (d : Rtapd) (now : Nat) :
    Meets Serves d (radiusClientTimer d now) := by
  unfold radiusClientTimer
  split
  · exact meets_some.mpr (composes_serves.nothing d)
  · dsimp only
    apply meets_map
    intro d' hfold
    have hkept : Drops d { d with
        radius := { d.radius with
          msgs := (retransmitAll now d.radius.msgs).msgs
          numMsgs := d.radius.numMsgs -
            BitVec.ofNat 32 (retransmitAll now d.radius.msgs).removed } } :=
      ⟨fun _ hs => hs, retransmitAll_msgs now d.radius.msgs, rfl⟩
    have hfailed := foldlM_drops failover_drops hfold
    refine Drops.serves (hkept.trans (Drops.trans ?_ hfailed)) (allQuiet_retransmit _)
    split
    · exact .refl _
    · exact SameCore.drops ⟨rfl, rfl⟩

theorem retryPrimaryTimer_drops {d d' : Rtapd} (h : radiusRetryPrimaryTimer d = some d') :
    Drops d d' := by
  obtain ⟨mid, hfold, rfl⟩ := Option.map_eq_some_iff.mp h
  refine (foldlM_drops retryPrimary_drops hfold).trans ?_
  split
  · exact .refl _
  · exact SameCore.drops ⟨rfl, rfl⟩

theorem handleReloadConfig_drops {d d' : Rtapd} {conf : Config}
    (h : handleReloadConfig d conf = some d') : Drops d d' := by
  obtain ⟨mid, hfree, rfl⟩ := Option.map_eq_some_iff.mp h
  have hconf : Drops d { radiusClientFlush d with conf := conf } :=
    (flush_drops d).trans (SameCore.drops ⟨rfl, rfl⟩)
  exact (hconf.trans (apdFreeStas_drops hfree)).trans (flush_drops mid)

theorem disconnectEntry_drops {d d' : Rtapd} {sa : Mac} (h : disconnectEntry d sa = some d') :
    Drops d d' := by
  unfold disconnectEntry at h
  split at h
  · cases h
  · cases h
    exact .refl d
  · exact apFreeSta_drops h

theorem expire_serves (d : Rtapd) (now : Nat) (t : Timeout) :
    Meets Serves d (expire env d now t) := by
  cases t with
  | radiusClientTimer => exact radiusClientTimer_serves d now
  | radiusRetryPrimaryTimer =>
    apply meets_map
    intro d' h
    exact (retryPrimaryTimer_drops h).serves allQuiet_nil
  | eapolPortTimersTick node =>
    unfold expire
    apply meets_andThen composes_serves
    · exact (machinery_serves env node).after_edit (keepsIdentity_sm _)
        ((machinery_serves env node).stepSta _)
    · intro d' _ _
      exact meets_some.mpr (Drops.serves (SameCore.drops ⟨rfl, rfl⟩) allQuiet_nil)
  | apHandleSessionTimer node =>
    apply meets_map
    intro s _
    exact (Drops.refl d).serves (allQuiet_singleton trivial)

end Timers

theorem daemonStep_serves (env : Env) (d : Rtapd) (e : Event) :
    Meets Serves d (daemonStep env d e) := by
  cases e with
  | frame f => exact receive_serves f d
  | datagram a => exact radiusClientReceive_serves d a
  | disconnect sa =>
    apply meets_map
    intro d' h
    exact (disconnectEntry_drops h).serves allQuiet_nil
  | reload conf =>
    apply meets_map
    intro d' h
    exact (handleReloadConfig_drops h).serves allQuiet_nil
  | expired t now =>
    by_cases ht : t ∈ d.timeouts
    · rw [daemonStep, if_pos ht]
      intro d' effects h
      have hleft : Drops d { d with timeouts := d.timeouts.erase t } := SameCore.drops ⟨rfl, rfl⟩
      exact composes_serves.step (hleft.serves allQuiet_nil) (expire_serves _ now t d' effects h)
    · rw [daemonStep, if_neg ht]
      exact meets_none

theorem desk_start (conf : Config) : (Rtapd.start conf).desk = Desk.empty := by
  unfold Rtapd.desk Rtapd.start Desk.empty
  simp

theorem lastRequest_eq (sta : Nat) (log : List Effect) :
    lastRequest sta log = Desk.lastIssued sta (log.filterMap Effect.post) := by
  unfold lastRequest Desk.lastIssued
  rw [← List.filterMap_reverse, ← List.head?_filterMap, ← List.head?_filterMap,
    List.filterMap_filterMap]
  congr 2
  funext x
  cases x <;> rfl

/-- A reply that is applied answers the last request of the station it is applied to, in every run
in which no identifier is handed out while another station has it. -/
theorem reply_reaches_requester {env : Env} {conf : Config} {es : List Event}
    {t : Trace Rtapd Effect}
    (h : Run (Graph (traceStep (daemonStep env))) ⟨.start conf, []⟩ es t) (hun : Unshared t.log)
    {pre post : List Effect} {sta serial : Nat} {code : U8} {verified : Bool}
    (hlog : t.log = pre ++ .reply sta code serial verified :: post) :
    lastRequest sta pre = some serial ∧
      ∀ sta' msg, .request serial sta' msg ∈ pre → sta' = sta := by
  obtain ⟨steps, hrun, hposts⟩ := run_meets composes_serves (daemonStep_serves env) h hun
  rw [desk_start] at hrun
  rw [hlog, List.filterMap_append] at hposts
  obtain ⟨hlast, honce⟩ := Desk.run_answers hrun hposts
  rw [lastRequest_eq]
  refine ⟨hlast, ?_⟩
  intro sta' msg hin
  exact honce sta' (List.mem_filterMap.mpr ⟨_, hin, rfl⟩)

section Examples

/-- A datagram of the server, with further attributes and a Message-Authenticator of zeros. -/
def signedDatagram (code id : U8) (attrs : List U8) : Datagram where
  data := [code, id] ++ htons (38 + attrs.length) ++ List.replicate 16 0 ++ attrs ++
    [radiusAttrMessageAuthenticator, 18] ++ List.replicate 16 0
  mem := .ample
  stale _ := 0
  ioctlFails := false

def Effect.asReply : Effect → Option (Nat × U8 × Nat × Bool)
  | .reply sta code serial verified => some (sta, code, serial, verified)
  | _ => none

theorem split_at_reply {log : List Effect} {i sta serial : Nat} {code : U8} {verified : Bool}
    (h : log[i]?.bind Effect.asReply = some (sta, code, serial, verified)) :
    log = log.take i ++ .reply sta code serial verified :: log.drop (i + 1) := by
  obtain ⟨x, hx, hreply⟩ := Option.bind_eq_some_iff.mp h
  obtain ⟨hlt, hget⟩ := List.getElem?_eq_some_iff.mp hx
  have hsame : x = .reply sta code serial verified := by
    cases x <;> simp_all [Effect.asReply]
  rw [← hsame, ← hget, ← List.drop_eq_getElem_cons hlt, List.take_append_drop]

def accepted : Option (Trace Rtapd Effect) :=
  exec (traceStep (daemonStep plainEnv)) ⟨.start oneServer, []⟩
    [eapolStart 7, eapResponse 7 1 eapTypeIdentity,
      .datagram (signedDatagram radiusCodeAccessAccept 0 [])]

theorem reply_reaches_requester_accepted :
    ∃ t pre post, accepted = some t ∧
      t.log = pre ++ .reply 0 radiusCodeAccessAccept 0 true :: post ∧
      lastRequest 0 pre = some 0 ∧ ∀ sta' msg, .request 0 sta' msg ∈ pre → sta' = 0 := by
  have hrun : accepted.map (fun t => (decide (Unshared t.log), t.log[3]?.bind Effect.asReply)) =
      some (true, some (0, radiusCodeAccessAccept, 0, true)) := by decide +kernel
  obtain ⟨t, ht, hfacts⟩ := Option.map_eq_some_iff.mp hrun
  obtain ⟨hun, hreply⟩ := Prod.mk.inj hfacts
  have hlog := split_at_reply hreply
  exact ⟨t, _, _, ht, hlog, reply_reaches_requester (exec_run ht) (of_decide_eq_true hun) hlog⟩

/-- An identity that does not fit in an attribute: the request takes an identifier and cannot be
built. -/
def longIdentity (b id : U8) : Event :=
  eapolFrame b ieee8021xTypeEapPacket
    ([eapCodeResponse, id] ++ htons 259 ++ eapTypeIdentity :: List.replicate 254 0)

def eapolLogoff (b : U8) : Event := eapolFrame b ieee8021xTypeEapolLogoff []

/-- The machines of a station that is asked for its identity under `i`. -/
def askedUnder (i : U8) : EapolStateMachine :=
  { aWhile := 30, quietWhile := 0, reAuthWhen := 3600, txWhen := 30
    authAbort := false, authFail := false, authStart := false, authTimeout := false
    authSuccess := false, currentId := i, initializing := false
    keyAvailable := false, keyTxEnabled := true
    portControl := .auto, portEnabled := true, portStatus := .unauthorized, portValid := true
    reAuthenticate := false
    authPae := ⟨false, false, .auto, 1, false, 60, 2, 30, .connecting⟩
    beAuth := ⟨0, false, false, false, false, 0, 30, 30, 2, .idle⟩
    reauthTimer := ⟨3600, true, .init⟩
    authKeyTx := .noKeyTransmit }

def authenticatingUnder (i : U8) : EapolStateMachine :=
  { askedUnder i with
    authStart := true
    authPae := ⟨false, false, .auto, 1, true, 60, 2, 30, .authenticating⟩
    beAuth := ⟨0, false, false, false, false, 0, 30, 30, 2, .response⟩ }

def introducedUnder (i : U8) : EapolStateMachine :=
  { askedUnder i with authPae := { (askedUnder i).authPae with rxInitialRsp := true } }

def leavingUnder (i : U8) : EapolStateMachine :=
  { authenticatingUnder i with authPae := { (authenticatingUnder i).authPae with eapLogoff := true } }


@[simp] theorem toInt32_thirty : toInt32 30 = 30 := by decide
@[simp] theorem toInt32_hour : toInt32 3600 = 3600 := by decide

theorem pass_introduced (i : U8) :
    eapolSmPass (introducedUnder i) = (authenticatingUnder i, [.sendRespToServer]) := by
  simp [eapolSmPass, introducedUnder, askedUnder, authenticatingUnder, authPaeStep, authPaeSwitch,
    authPaeAuthenticating, beAuthStep, beAuthSwitch, beAuthResponse, reauthTimerStep,
    reauthTimerInitialize, authKeyTxStep]

theorem pass_authenticating (i : U8) :
    eapolSmPass (authenticatingUnder i) = (authenticatingUnder i, []) := by
  simp [eapolSmPass, askedUnder, authenticatingUnder, authPaeStep, authPaeSwitch, beAuthStep,
    beAuthSwitch, reauthTimerStep, reauthTimerInitialize, authKeyTxStep]

theorem pass_asked (i : U8) :
    eapolSmPass (askedUnder i) = (askedUnder i, []) := by
  simp [eapolSmPass, askedUnder, authPaeStep, authPaeSwitch, beAuthStep, beAuthSwitch,
    reauthTimerStep, reauthTimerInitialize, authKeyTxStep]

theorem step_introduced (i : U8) :
    eapolSmStep 20 (introducedUnder i) = some (authenticatingUnder i, [.sendRespToServer]) := by
  simp [eapolSmStep, pass_introduced, pass_authenticating]


theorem step_leaving (i : U8) :
    eapolSmStep 20 (leavingUnder i) =
      some (askedUnder (i + 2), [.setPortUnauthorized, .txCannedFail (i + 1), .txInitialMsg (i + 2)]) := by
  simp [eapolSmStep, eapolSmPass, leavingUnder, askedUnder, authenticatingUnder, authPaeStep,
    authPaeSwitch, authPaeAborting, authPaeDisconnected, authPaeConnecting, beAuthStep,
    beAuthSwitch, beAuthInitialize, beAuthIdle, reauthTimerStep, reauthTimerInitialize,
    authKeyTxStep, EapolStateMachine.states, BitVec.add_assoc]

theorem step_asked (i : U8) : eapolSmStep 20 (askedUnder i) = some (askedUnder i, []) := by
  simp [eapolSmStep, pass_asked]

def said (sm : EapolStateMachine) (rid : Int) (supp identity : Option (List U8)) (s : Sta) : Sta :=
  { s with
    eapolSm := sm, radiusIdentifier := rid, lastRecvRadius := none, lastEapSupp := supp
    identity := identity }

def seated (d : Rtapd) (r : RadiusClientData) (sm : EapolStateMachine) (rid : Int)
    (supp identity : Option (List U8)) : Rtapd :=
  { d with radius := r }.setSta 0 (said sm rid supp identity)

structure Seat (d : Rtapd) : Prop where
  sta : ∃ s, d.sta 0 = some s ∧ s.addr = macOf 1 ∧ s.apIdx = 0
  chain : d.staHash (staHash (macOf 1)) = [0]
  bss : ∃ b, d.conf.bss[0]? = some b

variable {d : Rtapd} {r r' : RadiusClientData} {sm sm' : EapolStateMachine} {rid : Int}
  {supp identity : Option (List U8)} {i id : U8}

theorem said_node (sm : EapolStateMachine) (rid : Int) (supp identity : Option (List U8)) (s : Sta) :
    (said sm rid supp identity s).node = s.node := rfl

theorem setSta_setSta {f g : Sta → Sta} {node : Nat} (hf : ∀ s, (f s).node = s.node) :
    (d.setSta node f).setSta node g = d.setSta node fun s => g (f s) := by
  unfold Rtapd.setSta
  simp only [List.map_map, Rtapd.mk.injEq, true_and, and_true]
  apply List.map_congr_left
  intro s _
  by_cases hs : s.node = node <;> simp [hs, hf]

theorem sta_setSta {f : Sta → Sta} {node : Nat} (hf : ∀ s, (f s).node = s.node) :
    (d.setSta node f).sta node = (d.sta node).map f := by
  unfold Rtapd.setSta Rtapd.sta
  induction d.staList with
  | nil => rfl
  | cons s l ih =>
    rw [List.map_cons, List.find?_cons, List.find?_cons]
    by_cases hs : s.node = node
    · simp [hs, hf]
    · simpa [hs] using ih

theorem seated_setSm (f : EapolStateMachine → EapolStateMachine) :
    (seated d r sm rid supp identity).setSm 0 f = seated d r (f sm) rid supp identity :=
  setSta_setSta (said_node sm rid supp identity)

theorem seated_sta (h : Seat d) (r : RadiusClientData) (sm : EapolStateMachine) (rid : Int)
    (supp identity : Option (List U8)) :
    ∃ s, (seated d r sm rid supp identity).sta 0 = some s ∧ s.addr = macOf 1 ∧ s.apIdx = 0 ∧
      s.eapolSm = sm ∧ s.identity = identity := by
  obtain ⟨s, hs, haddr, hidx⟩ := h.sta
  have hseated : (seated d r sm rid supp identity).sta 0 = some (said sm rid supp identity s) := by
    unfold seated
    rw [sta_setSta (said_node sm rid supp identity)]
    change (d.sta 0).map _ = _
    rw [hs, Option.map_some]
  exact ⟨_, hseated, haddr, hidx, rfl, rfl⟩

theorem receive_seated (h : Seat d) {f : Frame} (hf : f.sa = macOf 1) :
    ieee8021xReceive plainEnv f (seated d r sm rid supp identity) =
      receiveFrom plainEnv f 0 (seated d r sm rid supp identity) := by
  obtain ⟨s, hs, haddr, -⟩ := seated_sta h r sm rid supp identity
  have hfound : findInChain (seated d r sm rid supp identity) f.sa
      ((seated d r sm rid supp identity).staHash (staHash f.sa)) = some (some 0) := by
    rw [hf]
    change findInChain _ _ (d.staHash _) = _
    rw [h.chain, findInChain, hs]
    exact if_pos haddr
  unfold ieee8021xReceive
  rw [hfound]

theorem stepSta_seated (h : Seat d) {actions : List Action}
    (hstep : eapolSmStep 20 sm = some (sm', actions)) :
    stepSta plainEnv 0 (seated d r sm rid supp identity) =
      runActions plainEnv 0 actions (seated d r sm' rid supp identity) := by
  obtain ⟨s, hs, -, -, hsm, -⟩ := seated_sta h r sm rid supp identity
  unfold stepSta
  rw [hs, Option.bind_some, hsm]
  change (eapolSmStep 20 sm).bind _ = _
  rw [hstep, Option.bind_some]
  dsimp only
  rw [seated_setSm]

theorem encapsulate_seated (h : Seat d) (hget : radiusClientGetId r = some (id, r'))
    {name : List U8} (hlong : radiusMaxAttrLen < name.length) :
    ieee8021xEncapsulateRadius plainEnv 0 (seated d r sm rid supp (some name)) =
      some (seated d r' sm id.toNat supp (some name),
        [.identifier (seated d r sm rid supp (some name)) 0 id]) := by
  obtain ⟨s, hs, -, hidx, -, hident⟩ :=
    seated_sta h r sm rid supp (some name)
  obtain ⟨b, hb⟩ := h.bss
  have hfails (o : SendOracle) (conf : Config) (H : Digest) : buildRequest H o conf b s id = none := by
    simp [buildRequest, addAttrs, stationAttrs, hident, radiusMsgAddAttr, hlong]
  have htaken : ({ seated d r sm rid supp (some name) with radius := r' }).setSta 0
      (fun s => { s with radiusIdentifier := id.toNat }) = seated d r' sm id.toNat supp (some name) :=
    setSta_setSta (d := { d with radius := r' }) (said_node sm rid supp (some name))
  unfold ieee8021xEncapsulateRadius
  rw [hs, Option.bind_some, hidx]
  change (d.conf.bss[0]?).bind _ = _
  rw [hb, Option.bind_some]
  change (radiusClientGetId r).bind _ = _
  rw [hget, Option.bind_some]
  dsimp only
  rw [hfails, htaken]


theorem setSta_congr {f g : Sta → Sta} {node : Nat} (h : ∀ s, f s = g s) :
    d.setSta node f = d.setSta node g := by
  rw [funext h]


/-- The identity of `longIdentity`. -/
def longName : List U8 := List.replicate 254 0

theorem longName_length : longName.length = 254 := List.length_replicate

/-- The EAP packet of `longIdentity`. -/
def longPacket (i : U8) : List U8 := eapCodeResponse :: i :: 1 :: 3 :: eapTypeIdentity :: longName

theorem longPacket_length : (longPacket i).length = 259 := by
  simp only [longPacket, List.length_cons, longName_length]

theorem longIdentity_eq :
    longIdentity 1 i =
      .frame ⟨macOf 1, 0, 1 :: 0 :: 1 :: 3 :: longPacket i, 4 + (longPacket i).length, ethPPae, 0,
        1⟩ := by
  have hbody : [eapCodeResponse, i] ++ htons 259 ++ eapTypeIdentity :: List.replicate 254 0 =
      longPacket i := by
    have hlen : htons 259 = [1, 3] := by decide
    rw [hlen]
    rfl
  have hlen : htons 259 = [1, 3] := by decide
  unfold longIdentity eapolFrame
  rw [hbody, longPacket_length, hlen]
  rfl

theorem handleEap_long (s : Sta) (hs : s.eapolSm = askedUnder i) :
    handleEap s (longPacket i) 259 =
      { s with
        eapolSm := introducedUnder i, lastEapSupp := some (longPacket i)
        identity := some longName } := by
  have hlen : ntohs (longPacket i) 2 = 259 := by
    simp [ntohs, longPacket]
  have hbody : slice (longPacket i) sizeofEapHdr (259 - sizeofEapHdr) =
      eapTypeIdentity :: longName := by
    change eapTypeIdentity :: longName.take 254 = _
    rw [List.take_of_length_le longName_length.le]
  unfold handleEap
  rw [if_neg (by decide)]
  dsimp only
  rw [hlen, if_neg (by decide), hbody, if_pos (by rfl)]
  unfold handleEapResponse
  rw [if_neg]
  · dsimp only
    rw [if_pos rfl, hs]
    rfl
  · rw [hs, not_not]
    rfl

theorem receiveFrom_plain (sa : Mac) (node : Nat) (d : Rtapd) (type hi lo : U8) (bytes : List U8)
    (hlen : hi.toNat * 256 + lo.toNat = bytes.length) :
    receiveFrom plainEnv ⟨sa, 0, 1 :: type :: hi :: lo :: bytes, 4 + bytes.length, ethPPae, 0, 1⟩ node
        d =
      dispatchFrame plainEnv node d (1 :: type :: hi :: lo :: bytes) bytes.length := by
  have hsnap : (1 :: type :: hi :: lo :: bytes).take 6 ≠ snap8021h := by
    intro hsame
    injection hsame with hhead
    revert hhead
    decide
  have hdatalen : ntohs (1 :: type :: hi :: lo :: bytes) 2 = bytes.length := hlen
  have hfits : ¬sizeTSub (4 + bytes.length) 4 < bytes.length := by
    have hhi := hi.isLt
    have hlo := lo.isLt
    unfold sizeTSub
    omega
  unfold receiveFrom
  dsimp only
  rw [if_neg hsnap, hdatalen, if_neg hfits, if_neg (fun hbad => hbad.1 rfl),
    if_neg (fun hbad => hbad.1 rfl)]

theorem longIdentity_seated (h : Seat d) (hget : radiusClientGetId r = some (id, r')) (i : U8)
    (rid : Int) (supp identity : Option (List U8)) :
    daemonStep plainEnv (seated d r (askedUnder i) rid supp identity) (longIdentity 1 i) =
      some (seated d r' (authenticatingUnder i) id.toNat (some (longPacket i)) (some longName),
        [.identifier (seated d r (authenticatingUnder i) rid (some (longPacket i))
          (some longName)) 0 id]) := by
  have hhandled : (seated d r (askedUnder i) rid supp identity).setSta 0
      (fun s => handleEap s (longPacket i) 259) =
      seated d r (introducedUnder i) rid (some (longPacket i)) (some longName) := by
    refine (setSta_setSta (d := { d with radius := r }) (said_node _ rid supp identity)).trans ?_
    apply setSta_congr
    intro s
    exact handleEap_long _ rfl
  rw [longIdentity_eq]
  change ieee8021xReceive plainEnv _ _ = _
  rw [receive_seated h rfl]
  rw [receiveFrom_plain _ _ _ 0 1 3 (longPacket i) longPacket_length.symm]
  unfold dispatchFrame
  dsimp only
  have hbody : (1 :: 0 :: 1 :: 3 :: longPacket i).drop 4 = longPacket i := rfl
  rw [if_pos (by rfl), hbody, longPacket_length, hhandled, andThen_some_nil, stepSta_seated h (step_introduced i)]
  unfold runActions runAction
  obtain ⟨s, hs, -⟩ := seated_sta h r (authenticatingUnder i) rid (some (longPacket i))
    (some longName)
  rw [hs, Option.bind_some]
  dsimp only
  rw [encapsulate_seated h hget (by rw [longName_length]; decide)]
  rfl

def farewell (i : U8) : List Effect :=
  [.eapol 0 ieee8021xTypeEapPacket ([eapCodeFailure, i + 1] ++ htons sizeofEapHdr),
    .eapol 0 ieee8021xTypeEapPacket
      ([eapCodeRequest, i + 2] ++ htons (sizeofEapHdr + 1) ++ [eapTypeIdentity])]

theorem runActions_seated (h : Seat d) :
    runActions plainEnv 0 [.setPortUnauthorized, .txCannedFail (i + 1), .txInitialMsg (i + 2)]
        (seated d r sm rid supp identity) =
      some (seated d r sm rid supp identity, farewell i) := by
  obtain ⟨s, hs, -⟩ := seated_sta h r sm rid supp identity
  have hforgets : (seated d r sm rid supp identity).setSta 0 (fun s => { s with lastRecvRadius := none }) =
      seated d r sm rid supp identity :=
    setSta_setSta (d := { d with radius := r }) (said_node sm rid supp identity)
  simp [runActions, runAction, hs, andThen, ieee8021xTxCannedEap, ieee8021xRequestIdentity, hforgets, farewell]

theorem logoff_seated (h : Seat d) (r : RadiusClientData) (i : U8) (rid : Int)
    (supp identity : Option (List U8)) :
    daemonStep plainEnv (seated d r (authenticatingUnder i) rid supp identity) (eapolLogoff 1) =
      some (seated d r (askedUnder (i + 2)) rid supp identity, farewell i) := by
  have hlogoff : eapolLogoff 1 =
      .frame ⟨macOf 1, 0, [1, ieee8021xTypeEapolLogoff, 0, 0], 4 + 0, ethPPae, 0, 1⟩ := by
    rfl
  have hleaves : (seated d r (authenticatingUnder i) rid supp identity).setSm 0
      (fun sm => { sm with authPae := { sm.authPae with eapLogoff := true } }) =
      seated d r (leavingUnder i) rid supp identity := seated_setSm _
  rw [hlogoff]
  change ieee8021xReceive plainEnv _ _ = _
  rw [receive_seated h rfl]
  have hplain := receiveFrom_plain (macOf 1) 0 (seated d r (authenticatingUnder i) rid supp identity)
    ieee8021xTypeEapolLogoff 0 0 [] (by rfl)
  rw [show 4 + 0 = 4 + ([] : List U8).length from rfl, hplain]
  unfold dispatchFrame
  dsimp only
  rw [if_neg (by decide), if_neg (by decide), if_pos (by rfl)]
  rw [hleaves, stepSta_seated h (step_leaving i), runActions_seated h]
  unfold andThen
  rw [Option.bind_some]
  dsimp only
  rw [stepSta_seated h (step_asked (i + 2))]
  simp [runActions]

theorem daemonStep_logs {d' : Rtapd} {e : Event} {more : List Effect}
    (h : daemonStep plainEnv d e = some (d', more)) (log : List Effect) :
    Graph (traceStep (daemonStep plainEnv)) ⟨d, log⟩ e ⟨d', log ++ more⟩ := by
  change (daemonStep plainEnv d e).map _ = _
  rw [h, Option.map_some]

/-- Identifiers are handed out from `k` on. -/
def fromId (r : RadiusClientData) (k : Nat) : RadiusClientData :=
  { r with nextRadiusIdentifier := BitVec.ofNat 8 k, calls := k }

theorem getId_fromId (k : Nat) (hmsgs : r.msgs.map (fun e => e.msg.identifier) = [0])
    (hpos : 0 < k) (hk : k < 256) :
    radiusClientGetId (fromId r k) = some (BitVec.ofNat 8 k, fromId r (k + 1)) := by
  obtain ⟨e, hone, he⟩ := List.map_eq_singleton_iff.mp hmsgs
  have hne : ¬e.msg.identifier = BitVec.ofNat 8 k := by
    rw [he]
    bv_omega
  unfold radiusClientGetId fromId
  dsimp only
  rw [hone, removeId, if_neg hne, removeId]
  simp [BitVec.ofNat_add]

/-- Station 0 has used up `n` identifiers, from 2 on. -/
def afterRounds (d : Rtapd) (n : Nat) : Rtapd :=
  seated d (fromId d.radius (n + 2)) (askedUnder (BitVec.ofNat 8 (2 * n + 3))) (n + 1)
    (some (longPacket (BitVec.ofNat 8 (2 * n + 1)))) (some longName)

theorem rounds_seated (h : Seat d)
    (hmsgs : d.radius.msgs.map (fun e => e.msg.identifier) = [0]) (log : List Effect) (n : Nat)
    (hn : n ≤ 254) :
    ∃ es more, Run (Graph (traceStep (daemonStep plainEnv))) ⟨afterRounds d 0, log⟩ es
        ⟨afterRounds d n, log ++ more⟩ ∧
      more.filterMap Effect.post = [] := by
  induction n with
  | zero => exact ⟨[], [], by simpa using Run.nil, rfl⟩
  | succ n ih =>
    obtain ⟨es, more, hrun, hquiet⟩ := ih (by omega)
    have hasked := longIdentity_seated h (getId_fromId (n + 2) hmsgs (by omega) (by omega))
      (BitVec.ofNat 8 (2 * n + 3)) (n + 1) (some (longPacket (BitVec.ofNat 8 (2 * n + 1))))
      (some longName)
    have hleft := logoff_seated h (fromId d.radius (n + 3)) (BitVec.ofNat 8 (2 * n + 3))
      (BitVec.ofNat 8 (n + 2)).toNat (some (longPacket (BitVec.ofNat 8 (2 * n + 3))))
      (some longName)
    have hround := (hrun.snoc (daemonStep_logs hasked _)).snoc (daemonStep_logs hleft _)
    have hlast : seated d (fromId d.radius (n + 3)) (askedUnder (BitVec.ofNat 8 (2 * n + 3) + 2))
        (BitVec.ofNat 8 (n + 2)).toNat (some (longPacket (BitVec.ofNat 8 (2 * n + 3))))
        (some longName) = afterRounds d (n + 1) := by
      have hid : BitVec.ofNat 8 (2 * n + 3) + 2 = BitVec.ofNat 8 (2 * (n + 1) + 3) := by
        bv_omega
      have htoNat : (BitVec.ofNat 8 (n + 2)).toNat = n + 1 + 1 := by
        rw [BitVec.toNat_ofNat]
        omega
      unfold afterRounds
      rw [hid, htoNat]
      rfl
    rw [hlast] at hround
    simp only [List.append_assoc] at hround
    refine ⟨_, _, hround, ?_⟩
    rw [List.filterMap_append, hquiet]
    rfl

def seatedTrace : Option (Trace Rtapd Effect) :=
  exec (traceStep (daemonStep plainEnv)) ⟨.start oneServer, []⟩
    [eapolStart 1, eapolStart 2, eapResponse 2 1 eapTypeIdentity, longIdentity 1 1, eapolLogoff 1]

def acceptAfter (d : Rtapd) : Option (Rtapd × List Effect × Rtapd × List Effect) :=
  (daemonStep plainEnv d (eapResponse 1 255 eapTypeIdentity)).bind fun (d', asked) =>
    (daemonStep plainEnv d' (.datagram (signedDatagram radiusCodeAccessAccept 0 []))).map
      fun (d'', done) => (d', asked, d'', done)

theorem seatedTrace_facts :
    seatedTrace.map (fun t =>
        (decide ((t.state.sta 0).map (fun s => (s.addr, s.apIdx)) = some (macOf 1, 0)),
          t.state.staHash (staHash (macOf 1)), t.state.conf.bss[0]?.isSome,
          t.state.radius.msgs.map fun e => e.msg.identifier)) =
      some (true, [0], true, [0]) := by
  decide +kernel

def HasSaid (s : Sta) : Prop :=
  s.eapolSm = askedUnder 3 ∧ s.radiusIdentifier = 1 ∧ s.lastRecvRadius.isNone ∧
    s.lastEapSupp = some (longPacket 1) ∧ s.identity = some longName

instance decidableHasSaid (s : Sta) : Decidable (HasSaid s) := inferInstanceAs (Decidable (_ ∧ _))

theorem seatedTrace_station :
    seatedTrace.map (fun t =>
        (t.state.radius.calls, t.state.radius.nextRadiusIdentifier,
          decide (∀ s ∈ t.state.staList, s.node = 0 → HasSaid s))) =
      some (2, 2, true) := by
  decide +kernel

theorem seatedTrace_accept :
    (seatedTrace.bind fun t =>
      (acceptAfter (afterRounds t.state 254)).map fun (_, asked, _, done) =>
        (t.log.filterMap Effect.post, asked.filterMap Effect.post,
          decide (done[0]?.bind Effect.asReply = some (1, radiusCodeAccessAccept, 256, true)))) =
      some ([.issued 1 0], [.issued 0 256], true) := by
  decide +kernel

theorem afterRounds_zero (hcalls : d.radius.calls = 2) (hnext : d.radius.nextRadiusIdentifier = 2)
    (hsta : ∀ s ∈ d.staList, s.node = 0 → HasSaid s) :
    afterRounds d 0 = d := by
  have hradius : fromId d.radius 2 = d.radius := by
    change { d.radius with nextRadiusIdentifier := (2 : U8), calls := 2 } = _
    rw [← hcalls, ← hnext]
  have hlist : d.staList.map (fun s => if s.node = 0 then
      said (askedUnder 3) 1 (some (longPacket 1)) (some longName) s else s) = d.staList := by
    conv_rhs => rw [← List.map_id d.staList]
    apply List.map_congr_left
    intro s hs
    split
    · rename_i hnode
      obtain ⟨hsm, hrid, hrecv, hsupp, hname⟩ := hsta s hs hnode
      unfold said
      rw [← hsm, ← hrid, ← hsupp, ← hname, ← Option.isNone_iff_eq_none.mp hrecv]
      rfl
    · rfl
  change { d with radius := fromId d.radius 2, staList := _ } = d
  rw [hradius]
  exact congrArg (fun l => { d with staList := l }) hlist

/-- The Access-Accept for request 256, of station 0, is applied to station 1, whose last request is
number 0. -/
theorem accept_reaches_other_station :
    ∃ es t pre post, Run (Graph (traceStep (daemonStep plainEnv))) ⟨.start oneServer, []⟩ es t ∧
      t.log = pre ++ .reply 1 radiusCodeAccessAccept 256 true :: post ∧
      (∃ msg, .request 256 0 msg ∈ pre) ∧ lastRequest 1 pre = some 0 := by
  obtain ⟨t, ht, hfacts⟩ := Option.map_eq_some_iff.mp seatedTrace_facts
  simp only [Prod.mk.injEq, decide_eq_true_eq] at hfacts
  obtain ⟨hsta, hchain, hbss, hmsgs⟩ := hfacts
  have hstation := seatedTrace_station
  have haccept := seatedTrace_accept
  rw [ht, Option.map_some, Option.some.injEq] at hstation
  rw [ht, Option.bind_some] at haccept
  simp only [Prod.mk.injEq, decide_eq_true_eq] at hstation
  obtain ⟨hcalls, hnext, hsame⟩ := hstation
  obtain ⟨⟨d, asked, d', done⟩, hlast, hposts⟩ := Option.map_eq_some_iff.mp haccept
  simp only [Prod.mk.injEq, decide_eq_true_eq] at hposts
  obtain ⟨hfirst, hissued, hreply⟩ := hposts
  obtain ⟨⟨_, _⟩, hasked, hrest⟩ := Option.bind_eq_some_iff.mp hlast
  obtain ⟨⟨_, _⟩, hdone, heq⟩ := Option.map_eq_some_iff.mp hrest
  cases heq
  obtain ⟨s, hs, hnames⟩ := Option.map_eq_some_iff.mp hsta
  obtain ⟨haddr, hidx⟩ := Prod.mk.inj hnames
  have hseat : Seat t.state :=
    ⟨⟨s, hs, haddr, hidx⟩, hchain, Option.isSome_iff_exists.mp hbss⟩
  obtain ⟨es, more, hrounds, hquiet⟩ := rounds_seated hseat hmsgs t.log 254 (Nat.le_refl 254)
  rw [afterRounds_zero hcalls hnext hsame] at hrounds
  have hrun := (((exec_run ht).trans hrounds).snoc (daemonStep_logs hasked _)).snoc
    (daemonStep_logs hdone _)
  have hpre : (t.log ++ more ++ asked ++ done.take 0).filterMap Effect.post =
      [.issued 1 0, .issued 0 256] := by
    simp [hfirst, hquiet, hissued]
  refine ⟨_, _, t.log ++ more ++ asked ++ done.take 0, done.drop 1, hrun, ?_, ?_, ?_⟩
  · change t.log ++ more ++ asked ++ done = _
    rw [List.append_assoc _ (done.take 0), ← split_at_reply hreply]
  · have hin : Post.issued 0 256 ∈ (t.log ++ more ++ asked ++ done.take 0).filterMap Effect.post := by
      rw [hpre]
      decide
    obtain ⟨x, hx, hpost⟩ := List.mem_filterMap.mp hin
    cases x with
    | request serial sta msg =>
      cases hpost
      exact ⟨msg, hx⟩
    | reply sta code serial verified => cases hpost
    | _ => cases hpost
  · rw [lastRequest_eq, hpre]
    rfl

end Examples

end OpenwrtMtk.Dot1x
