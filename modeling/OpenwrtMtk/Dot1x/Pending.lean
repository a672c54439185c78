import OpenwrtMtk.Dot1x.Identifier
import OpenwrtMtk.Dot1x.LinkedRefinement
import Mathlib.Algebra.GroupWithZero.Nat
import Mathlib.Algebra.Order.BigOperators.Group.List
import Mathlib.Algebra.Order.Group.Nat

/-!
# Identifiers and number of the pending requests

No two pending requests have the same identifier. Their number is `num_msgs` for as long as
`Radius_client_get_id` hands out identifiers that no pending request has.
-/

namespace OpenwrtMtk.Dot1x.Linked

open Toolkit

set_option autoImplicit false

def ids (es : List Entry) : List U8 := es.map fun e => e.msg.identifier

/-- `num_msgs` is the length of the list, which is limited. -/
structure Counted (r : Dot1x.RadiusClientData) : Prop where
  count : r.numMsgs.toNat = r.msgs.length
  limit : r.msgs.length ≤ radiusClientMaxEntries

structure Thins (r r' : Dot1x.RadiusClientData) : Prop where
  ids : (ids r'.msgs).Sublist (ids r.msgs)
  count : r.numMsgs.toNat = r.msgs.length → r'.numMsgs.toNat = r'.msgs.length

variable {env : Env} {r r' : Dot1x.RadiusClientData} {d d' : Rtapd}

namespace Thins

theorem refl (r : Dot1x.RadiusClientData) : Thins r r := ⟨List.Sublist.refl _, id⟩

theorem trans {r'' : Dot1x.RadiusClientData} (h : Thins r r') (h' : Thins r' r'') :
    Thins r r'' :=
  ⟨h'.ids.trans h.ids, fun hcount => h'.count (h.count hcount)⟩

theorem unique (h : Thins r r') (hr : (Linked.ids r.msgs).Nodup) : (Linked.ids r'.msgs).Nodup :=
  h.ids.nodup hr

theorem counted (h : Thins r r') (hr : Counted r) : Counted r' where
  count := h.count hr.count
  limit := by
    have hlen := h.ids.length_le
    simp only [Linked.ids, List.length_map] at hlen
    exact hlen.trans hr.limit

end Thins

theorem flush_thins (d : Rtapd) : Thins d.radius (Dot1x.radiusClientFlush d).radius :=
  ⟨List.nil_sublist _, fun _ => rfl⟩

theorem takeRequest_ids {id : U8} {msgs rest : List Entry} {req : Entry}
    (h : takeRequest id msgs = some (req, rest)) :
    (ids rest).Sublist (ids msgs) ∧ rest.length + 1 = msgs.length := by
  induction msgs generalizing rest with
  | nil => cases h
  | cons e msgs ih =>
    rw [takeRequest] at h
    split at h
    · cases h
      exact ⟨List.sublist_cons_self _ _, rfl⟩
    · obtain ⟨⟨req', rest'⟩, htake, heq⟩ := Option.map_eq_some_iff.mp h
      cases heq
      obtain ⟨hsub, hlen⟩ := ih htake
      exact ⟨hsub.cons_cons _, congrArg (· + 1) hlen⟩

theorem ackRequest_thins (d : Rtapd) (mem : Memory) (data : List U8) :
    Thins d.radius (ackRequest d mem data).radius := by
  unfold ackRequest
  split
  · exact .refl _
  · split
    · exact .refl _
    · rename_i msg _
      split
      · exact .refl _
      · rename_i req rest htake
        obtain ⟨hsub, hlen⟩ := takeRequest_ids htake
        refine ⟨hsub, fun hcount => ?_⟩
        unfold unlinkRequest
        dsimp only
        bv_omega

theorem resetEntry_ids (msgs : List Entry) : ids (msgs.map resetEntry) = ids msgs := by
  unfold ids
  rw [List.map_map]
  rfl

theorem changeServer_thins (d : Rtapd) (nserv : List U8) (oserv : Option (List U8)) :
    Thins d.radius (Dot1x.radiusChangeServer d nserv oserv).radius := by
  unfold Dot1x.radiusChangeServer
  split
  · exact flush_thins d
  · have hreset : Thins d.radius { d.radius with msgs := d.radius.msgs.map resetEntry } := by
      refine ⟨?_, fun hcount => ?_⟩
      · rw [resetEntry_ids]
      · rw [List.length_map]
        exact hcount
    dsimp only
    split
    · exact hreset
    · exact hreset

theorem useServer_thins {i next : Nat} {bss : Bss} (h : Dot1x.useServer d i bss next = some d') :
    Thins d.radius d'.radius := by
  obtain ⟨nserv, _, rfl⟩ := Option.map_eq_some_iff.mp h
  exact changeServer_thins
    { d with conf := { d.conf with bss := d.conf.bss.set i { bss with current := next } } } nserv _

theorem failover_thins {es : List Entry} {i : Nat} (h : Dot1x.failover es d i = some d') :
    Thins d.radius d'.radius := by
  unfold Dot1x.failover at h
  split at h
  · cases h
    exact .refl _
  · split at h
    · exact useServer_thins h
    · cases h
      exact .refl _

theorem retryPrimary_thins {i : Nat} (h : Dot1x.retryPrimary d i = some d') :
    Thins d.radius d'.radius := by
  unfold Dot1x.retryPrimary at h
  split at h
  · cases h
    exact .refl _
  · split at h
    · exact useServer_thins h
    · cases h
      exact .refl _

theorem foldlM_thins {f : Rtapd → Nat → Option Rtapd}
    (hf : ∀ {d d' i}, f d i = some d' → Thins d.radius d'.radius) {is : List Nat}
    (h : is.foldlM f d = some d') : Thins d.radius d'.radius :=
  foldlM_steps (S := fun d d' => Thins d.radius d'.radius) (fun _ => .refl _) Thins.trans hf h

theorem retransmitAll_ids (now : Nat) (msgs : List Entry) :
    (ids (retransmitAll now msgs).msgs).Sublist (ids msgs) ∧
      (retransmitAll now msgs).msgs.length + (retransmitAll now msgs).removed = msgs.length := by
  induction msgs with
  | nil => exact ⟨List.Sublist.refl _, rfl⟩
  | cons e msgs ih =>
    rw [retransmitAll]
    split
    · split
      · exact ⟨ih.1.cons _, by simp only [List.length_cons]; omega⟩
      · rename_i e' hagain
        have hid : e'.msg.identifier = e.msg.identifier := by
          unfold radiusClientRetransmit at hagain
          dsimp only at hagain
          split at hagain <;> cases hagain
          rfl
        refine ⟨?_, by simp only [List.length_cons]; omega⟩
        unfold ids
        rw [List.map_cons, List.map_cons, hid]
        exact ih.1.cons_cons _
    · exact ⟨ih.1.cons_cons _, by simp only [List.length_cons]; omega⟩

theorem timer_thins {now : Nat} {effects : List Effect}
    (h : Dot1x.radiusClientTimer d now = some (d', effects)) : Thins d.radius d'.radius := by
  unfold Dot1x.radiusClientTimer at h
  split at h
  · cases h
    exact .refl _
  · obtain ⟨last, hfold, heq⟩ := Option.map_eq_some_iff.mp h
    cases heq
    obtain ⟨hsub, hlen⟩ := retransmitAll_ids now d.radius.msgs
    have hswept : Thins d.radius { d.radius with
        msgs := (retransmitAll now d.radius.msgs).msgs
        numMsgs := d.radius.numMsgs - BitVec.ofNat 32 (retransmitAll now d.radius.msgs).removed } := by
      refine ⟨hsub, fun hcount => ?_⟩
      dsimp only
      have hlt := d.radius.numMsgs.isLt
      have hremoved : (BitVec.ofNat 32 (retransmitAll now d.radius.msgs).removed).toNat =
          (retransmitAll now d.radius.msgs).removed := by
        rw [BitVec.toNat_ofNat]
        exact Nat.mod_eq_of_lt (by omega)
      bv_omega
    have hfailed := foldlM_thins failover_thins hfold
    apply hswept.trans
    split at hfailed <;> exact hfailed

theorem retryPrimaryTimer_thins (h : Dot1x.radiusRetryPrimaryTimer d = some d') :
    Thins d.radius d'.radius := by
  obtain ⟨mid, hfold, rfl⟩ := Option.map_eq_some_iff.mp h
  have hretried := foldlM_thins retryPrimary_thins hfold
  split <;> exact hretried

theorem removeId_ids {id : U8} {stale : Bool} {msgs left : List Entry}
    (h : Dot1x.removeId id stale msgs = some left) : (ids left).Sublist (ids msgs) := by
  induction msgs generalizing stale left with
  | nil =>
    cases h
    exact List.Sublist.refl _
  | cons e msgs ih =>
    rw [Dot1x.removeId] at h
    split at h
    · split at h
      · cases h
      · exact (ih h).cons _
    · obtain ⟨left', hleft, rfl⟩ := Option.map_eq_some_iff.mp h
      exact (ih hleft).cons_cons _

theorem removeId_unused {id : U8} {stale : Bool} {msgs : List Entry} (h : id ∉ ids msgs) :
    Dot1x.removeId id stale msgs = some msgs := by
  induction msgs generalizing stale with
  | nil => rfl
  | cons e msgs ih =>
    rw [ids, List.map_cons] at h
    rw [Dot1x.removeId, if_neg (Ne.symm (List.ne_of_not_mem_cons h)),
      ih (List.not_mem_of_not_mem_cons h)]
    rfl

theorem getId_spec {id : U8} (h : Dot1x.radiusClientGetId r = some (id, r')) :
    id = r.nextRadiusIdentifier ∧ (ids r'.msgs).Sublist (ids r.msgs) ∧ id ∉ ids r'.msgs ∧
      r'.numMsgs = r.numMsgs ∧ (r.nextRadiusIdentifier ∉ ids r.msgs → r'.msgs = r.msgs) := by
  obtain ⟨left, hleft, heq⟩ := Option.map_eq_some_iff.mp h
  cases heq
  refine ⟨rfl, removeId_ids hleft, ?_, rfl, ?_⟩
  · intro hmem
    obtain ⟨e, he, hid⟩ := List.mem_map.mp hmem
    exact (removeId_spec hleft e he).2 hid
  · intro hunused
    rw [removeId_unused hunused] at hleft
    exact (Option.some.inj hleft).symm

theorem pushEntry_unique {e : Entry} (hr : (ids r.msgs).Nodup)
    (he : e.msg.identifier ∉ ids r.msgs) : (ids (Dot1x.pushEntry r e).msgs).Nodup := by
  unfold Dot1x.pushEntry
  split
  · refine List.nodup_cons.mpr ⟨fun hmem => he ?_, ?_⟩
    · exact ((List.dropLast_sublist r.msgs).map _).subset hmem
    · exact ((List.dropLast_sublist r.msgs).map _).nodup hr
  · exact List.nodup_cons.mpr ⟨he, hr⟩

theorem pushEntry_counted {e : Entry} (hr : Counted r) : Counted (Dot1x.pushEntry r e) := by
  have hcount := hr.count
  have hlimit := hr.limit
  unfold Dot1x.pushEntry
  unfold radiusClientMaxEntries at hlimit ⊢
  split
  · rename_i hfull
    have hthirty : 30 ≤ r.numMsgs.toNat := by simpa [BitVec.ule] using hfull
    have hlen : (e :: r.msgs.dropLast).length = r.msgs.length := by
      rw [List.length_cons, List.length_dropLast]
      omega
    exact ⟨hcount.trans hlen.symm, hlen.trans_le hlimit⟩
  · rename_i hroom
    have hfew : r.numMsgs.toNat < 30 := by simpa [BitVec.ule] using hroom
    constructor
    · rw [List.length_cons]
      dsimp only
      bv_omega
    · rw [List.length_cons]
      exact (by omega : r.msgs.length + 1 ≤ 30)

theorem send_spec {serial sta apIdx : Nat} {msg : RadiusMsg} {id : U8} {effects : List Effect}
    (hmsg : Headed id msg) (h : Dot1x.radiusClientSend env d serial sta msg apIdx =
      some (d', effects)) :
    ((ids d.radius.msgs).Nodup → id ∉ ids d.radius.msgs → (ids d'.radius.msgs).Nodup) ∧
      (Counted d.radius → Counted d'.radius) := by
  obtain ⟨secret, _, h⟩ := Option.bind_eq_some_iff.mp h
  obtain ⟨finished, hfin, heq⟩ := Option.map_eq_some_iff.mp h
  cases heq
  have hid : finished.identifier = id := (hmsg.finish hfin).eq
  unfold Dot1x.radiusClientListAdd
  split
  · have hradius : (if d.radius.msgs = [] then d.registerTimeout .radiusClientTimer else d).radius =
        d.radius := by
      split <;> rfl
    dsimp only
    rw [hradius]
    exact ⟨fun hr he => pushEntry_unique hr (by rwa [hid]), pushEntry_counted⟩
  · exact ⟨fun hr _ => hr, fun hr => hr⟩

def Unwrapped (r : Dot1x.RadiusClientData) : ClientEvent → Prop
  | .request _ => r.nextRadiusIdentifier ∉ ids r.msgs
  | _ => True

theorem request_spec {sending : Option Sending}
    (hcarries : Carries d.radius.nextRadiusIdentifier (.request sending))
    (h : listStep env d (.request sending) = some d') :
    ((ids d.radius.msgs).Nodup → (ids d'.radius.msgs).Nodup) ∧
      (d.radius.nextRadiusIdentifier ∉ ids d.radius.msgs → Counted d.radius →
        Counted d'.radius) := by
  obtain ⟨⟨id, radius⟩, hget, h⟩ := Option.bind_eq_some_iff.mp h
  obtain ⟨rfl, hsub, hunused, hnum, hsame⟩ := getId_spec hget
  have hcounted : d.radius.nextRadiusIdentifier ∉ ids d.radius.msgs → Counted d.radius →
      Counted radius := by
    intro hun hr
    constructor
    · rw [hnum, hsame hun]
      exact hr.count
    · rw [hsame hun]
      exact hr.limit
  cases sending with
  | none =>
    cases h
    exact ⟨fun hr => hsub.nodup hr, hcounted⟩
  | some s =>
    obtain ⟨⟨last, effects⟩, hsend, rfl⟩ := Option.map_eq_some_iff.mp h
    obtain ⟨huniq, hkept⟩ := send_spec hcarries hsend
    exact ⟨fun hr => huniq (hsub.nodup hr) hunused, fun hun hr => hkept (hcounted hun hr)⟩

theorem listStep_spec {e : ClientEvent} (hcarries : Carries d.radius.nextRadiusIdentifier e)
    (h : listStep env d e = some d') :
    ((ids d.radius.msgs).Nodup → (ids d'.radius.msgs).Nodup) ∧
      (Unwrapped d.radius e → Counted d.radius → Counted d'.radius) := by
  have hthins : Thins d.radius d'.radius → ((ids d.radius.msgs).Nodup →
      (ids d'.radius.msgs).Nodup) ∧ (Unwrapped d.radius e → Counted d.radius → Counted d'.radius) :=
    fun ht => ⟨ht.unique, fun _ => ht.counted⟩
  cases e with
  | request sending => exact request_spec hcarries h
  | datagram mem data =>
    cases h
    exact hthins (ackRequest_thins d mem data)
  | handled =>
    cases h
    exact hthins (.refl _)
  | timer now =>
    obtain ⟨⟨last, effects⟩, htimer, rfl⟩ := Option.map_eq_some_iff.mp h
    exact hthins (timer_thins htimer)
  | retryPrimary => exact hthins (retryPrimaryTimer_thins h)
  | flush conf =>
    cases h
    exact hthins (flush_thins { d with conf := conf })

section Runs

variable {conf : Config} {c c' : Client} {es : List ClientEvent}

/-- Some pending request has the identifier that `Radius_client_get_id` hands out next. -/
def Client.Wraps (c : Client) : Prop :=
  ∃ L, Chain c.radius.next c.radius.msgs L ∧
    ∃ i ∈ L, (c.radius.entry i).msg.identifier = c.radius.nextRadiusIdentifier

/-- `Radius_client_get_id` finds no pending request with the identifier that it hands out. -/
def Unshared (c : Client) : ClientEvent → Prop
  | .request _ => ¬c.Wraps
  | _ => True

theorem start_matches (conf : Config) : Matches (Client.start conf) (Rtapd.start conf) :=
  ⟨[], ⟨.nil, fun _ h => absurd h List.not_mem_nil⟩, rfl, rfl, rfl, rfl, rfl, fun _ h => by cases h⟩

theorem unwrapped_of_unshared (h : Matches c d) {e : ClientEvent} (he : Unshared c e) :
    Unwrapped d.radius e := by
  obtain ⟨L, h⟩ := h
  cases e with
  | request sending =>
    intro hmem
    rw [h.msgs, h.identifier] at hmem
    obtain ⟨e, he', hid⟩ := List.mem_map.mp hmem
    obtain ⟨i, hi, rfl⟩ := List.mem_map.mp he'
    exact he ⟨L, h.holds.chain, i, hi, hid⟩
  | _ => trivial

theorem step_matches {e : ClientEvent} (h : Matches c d) (hstep : Step env c e c') :
    ∃ d', Carries d.radius.nextRadiusIdentifier e ∧ listStep env d e = some d' ∧ Matches c' d' := by
  obtain ⟨hcarries, hstep⟩ := hstep
  have hid : d.radius.nextRadiusIdentifier = c.radius.nextRadiusIdentifier :=
    h.elim fun _ h => h.identifier
  have hsim := clientStep_sim env e h
  rw [hstep] at hsim
  cases hlist : listStep env d e with
  | none =>
    rw [hlist] at hsim
    cases hsim
  | some d' =>
    rw [hlist] at hsim
    exact ⟨d', hid ▸ hcarries, rfl, Option.rel_some_some.mp hsim⟩

theorem run_unique (h : Run (Step env) (Client.start conf) es c) :
    ∃ d, Matches c d ∧ (ids d.radius.msgs).Nodup := by
  refine h.invariant (fun c => ∃ d, Matches c d ∧ (ids d.radius.msgs).Nodup) ?_
    ⟨_, start_matches conf, List.nodup_nil⟩
  rintro c e c' ⟨d, hmatch, huniq⟩ hstep
  obtain ⟨d', hcarries, hlist, hmatch'⟩ := step_matches hmatch hstep
  exact ⟨d', hmatch', (listStep_spec hcarries hlist).1 huniq⟩

theorem run_counted (h : Run (Guarded Unshared (Step env)) (Client.start conf) es c) :
    ∃ d, Matches c d ∧ (ids d.radius.msgs).Nodup ∧ Counted d.radius := by
  refine h.invariant (fun c => ∃ d, Matches c d ∧ (ids d.radius.msgs).Nodup ∧ Counted d.radius) ?_
    ⟨_, start_matches conf, List.nodup_nil, rfl, Nat.zero_le _⟩
  rintro c e c' ⟨d, hmatch, huniq, hcount⟩ ⟨hun, hstep⟩
  obtain ⟨d', hcarries, hlist, hmatch'⟩ := step_matches hmatch hstep
  obtain ⟨hkeeps, hcounts⟩ := listStep_spec hcarries hlist
  exact ⟨d', hmatch', hkeeps huniq, hcounts (unwrapped_of_unshared hmatch hun) hcount⟩

theorem removeId_total {id : U8} {msgs : List Entry} (h : (ids msgs).Nodup) :
    ∃ left, Dot1x.removeId id false msgs = some left := by
  induction msgs with
  | nil => exact ⟨[], rfl⟩
  | cons e msgs ih =>
    obtain ⟨hout, hnd⟩ := List.nodup_cons.mp h
    rw [Dot1x.removeId]
    by_cases hid : e.msg.identifier = id
    · rw [if_pos hid, if_neg (by simp)]
      exact ⟨msgs, removeId_unused (hid ▸ hout)⟩
    · rw [if_neg hid]
      obtain ⟨left, hleft⟩ := ih hnd
      exact ⟨e :: left, by rw [hleft]; rfl⟩

/-- In every run the list ends, all of its entries are allocated and no two of them have the same
identifier; `Radius_client_get_id` writes to none that it has freed. -/
theorem pending_list_sound (h : Run (Step env) (Client.start conf) es c) :
    ∃ L, Holds c.radius L ∧
      (L.map fun i => (c.radius.entry i).msg.identifier).Nodup ∧
      (radiusClientGetId c.radius).isSome := by
  obtain ⟨d, ⟨L, hrep⟩, huniq⟩ := run_unique h
  refine ⟨L, hrep.holds, ?_, ?_⟩
  · rw [hrep.msgs, ids, List.map_map] at huniq
    exact huniq
  · have hsim := getId_sim ⟨L, hrep⟩
    obtain ⟨left, hleft⟩ : ∃ left,
        Dot1x.removeId d.radius.nextRadiusIdentifier false d.radius.msgs = some left :=
      removeId_total huniq
    rw [show Dot1x.radiusClientGetId d.radius = _ from congrArg (Option.map _) hleft] at hsim
    cases hget : radiusClientGetId c.radius with
    | none =>
      rw [hget] at hsim
      cases hsim
    | some got => rfl

theorem send_drops {malloc : Malloc} {serial apIdx : Nat} {msg : RadiusMsg} {L L' : List Nat}
    (h : Represents c d L) (hsend : radiusClientSend env malloc c serial msg apIdx = some c')
    (hL' : Chain c'.radius.next c'.radius.msgs L') :
    Pushed c.radius.numMsgs L L' := by
  obtain ⟨secret, _, hsend⟩ := Option.bind_eq_some_iff.mp hsend
  obtain ⟨finished, _, hadd⟩ := Option.bind_eq_some_iff.mp hsend
  obtain ⟨c'', M, hadd', hrep, hpushed⟩ :=
    listAdd_sim (env.send serial) malloc serial finished secret apIdx h
  rw [hadd] at hadd'
  cases hadd'
  rwa [hL'.unique hrep.holds.chain]

def Malloc.above : Malloc where
  addr live := live.sum + 1
  fresh live hmem := by
    have hle := List.single_le_sum (fun _ _ => Nat.zero_le _) _ hmem
    omega

structure ListStep (env : Env) (d : Rtapd) (e : ClientEvent) (d' : Rtapd) : Prop where
  carries : Carries d.radius.nextRadiusIdentifier e
  result : listStep env d e = some d'

theorem run_lift (hmatch : Matches c d) (h : Run (ListStep env) d es d') : ∃ c', Run (Step env) c es c' ∧ Matches c' d' := by
  induction h with
  | nil => exact ⟨c, .nil, hmatch⟩
  | @snoc es mid last e _ hstep ih =>
    obtain ⟨c', hrun, hmatch'⟩ := ih
    obtain ⟨hcarries, hlist⟩ := hstep
    have hid : mid.radius.nextRadiusIdentifier = c'.radius.nextRadiusIdentifier :=
      hmatch'.elim fun _ h => h.identifier
    have hsim := clientStep_sim env e hmatch'
    rw [hlist] at hsim
    cases hstep : clientStep env c' e with
    | none =>
      rw [hstep] at hsim
      cases hsim
    | some c'' =>
      rw [hstep] at hsim
      exact ⟨c'', hrun.snoc ⟨hid ▸ hcarries, hstep⟩, Option.rel_some_some.mp hsim⟩

end Runs

section Wrap

def wrapConf : Config where
  bss := [⟨[[1]], 0, true, [], ⟨#[0, 0, 0, 0, 0, 0], rfl⟩⟩]
  ownIpAddr := ⟨#[0, 0, 0, 0], rfl⟩
  sessionTimeout := none
  quietInterval := 60
  radiusRetryPrimaryInterval := 0

def wrapEnv : Env where
  digest := zeroDigest
  rounds := 0
  send := fun _ => ⟨.ample, [], 0, true⟩

def bareRequest (id : U8) : RadiusMsg :=
  ⟨radiusCodeAccessRequest :: id :: 0 :: 20 :: List.replicate 16 0, 1024, [], 16⟩

def wrapRequest (id : U8) : ClientEvent := .request (some ⟨.above, 0, bareRequest id, 0⟩)

def bareAnswer (id : U8) : List U8 :=
  radiusCodeAccessChallenge :: id :: 0 :: 20 :: List.replicate 16 0

def answeredRequest (id : U8) : List ClientEvent :=
  [wrapRequest id, .datagram .ample (bareAnswer id), .handled]

/-- The answer to the first request does not come; 255 others are answered, and then identifier 0
is used again. -/
def wrapEvents : List ClientEvent :=
  [wrapRequest 0] ++
    (List.range 255).flatMap (fun k => answeredRequest (BitVec.ofNat 8 (k + 1))) ++
    [wrapRequest 0]

/-- Only the request with identifier 0 is pending, and `id` is next. -/
structure Waiting (d : Rtapd) (id : U8) : Prop where
  conf : d.conf = wrapConf
  msgs : ∃ e, d.radius.msgs = [e] ∧ e.msg.identifier = 0
  numMsgs : d.radius.numMsgs = 1
  next : d.radius.nextRadiusIdentifier = id

theorem headed_bareRequest (id : U8) : Headed id (bareRequest id) := ⟨by simp [bareRequest, sizeofRadiusHdr], rfl⟩

theorem finish_bareRequest (id : U8) : ∃ msg,
    radiusMsgFinish (wrapEnv.send 0).mem wrapEnv.digest (bareRequest id) [1] = some msg ∧
      msg.identifier = id := by
  have hsome : ∃ msg, radiusMsgFinish (wrapEnv.send 0).mem wrapEnv.digest (bareRequest id) [1] =
      some msg := ⟨_, rfl⟩
  obtain ⟨msg, hmsg⟩ := hsome
  exact ⟨msg, hmsg, ((headed_bareRequest id).finish hmsg).eq⟩

theorem send_bareRequest {d : Rtapd} (id : U8) (hconf : d.conf = wrapConf)
    (hroom : d.radius.numMsgs.toNat < 30) :
    ∃ d' effects e, Dot1x.radiusClientSend wrapEnv d 0 0 (bareRequest id) 0 = some (d', effects) ∧
      d'.conf = wrapConf ∧ d'.radius.msgs = e :: d.radius.msgs ∧ e.msg.identifier = id ∧
      d'.radius.numMsgs = d.radius.numMsgs + 1 ∧
      d'.radius.nextRadiusIdentifier = d.radius.nextRadiusIdentifier := by
  obtain ⟨msg, hfin, hid⟩ := finish_bareRequest id
  have hlimit : ¬(BitVec.ofNat 32 radiusClientMaxEntries).ule d.radius.numMsgs = true := by
    simpa [BitVec.ule, radiusClientMaxEntries] using hroom
  have hsecret : d.conf.secret 0 = some [1] := by
    rw [hconf]
    rfl
  unfold Dot1x.radiusClientSend
  dsimp only
  rw [hsecret, Option.bind_some, hfin]
  refine ⟨_, _, ⟨0, msg, 0, 0 + radiusClientFirstWait, 1,
    radiusClientFirstWait * 2, [1], 0⟩, rfl, ?_⟩
  unfold Dot1x.radiusClientListAdd
  rw [if_pos (show (wrapEnv.send 0).listed = true from rfl)]
  have hregister : ∀ d₁ : Rtapd, (d₁ = d ∨ d₁ = d.registerTimeout .radiusClientTimer) →
      d₁.conf = d.conf ∧ d₁.radius = d.radius := by
    rintro d₁ (rfl | rfl) <;> exact ⟨rfl, rfl⟩
  obtain ⟨hconf', hradius⟩ := hregister
    (if d.radius.msgs = [] then d.registerTimeout .radiusClientTimer else d) (by split <;> simp)
  dsimp only
  rw [hconf', hradius]
  unfold Dot1x.pushEntry
  rw [if_neg hlimit]
  exact ⟨hconf, rfl, hid, rfl, rfl⟩

theorem wrapRequest_step {d : Rtapd} {es : List Entry} {id : U8} (hconf : d.conf = wrapConf)
    (hnext : d.radius.nextRadiusIdentifier = id)
    (hleft : Dot1x.removeId id false d.radius.msgs = some es)
    (hroom : d.radius.numMsgs.toNat < 30) :
    ∃ d' e, listStep wrapEnv d (wrapRequest id) = some d' ∧ d'.conf = wrapConf ∧
      d'.radius.msgs = e :: es ∧ e.msg.identifier = id ∧
      d'.radius.numMsgs = d.radius.numMsgs + 1 ∧ d'.radius.nextRadiusIdentifier = id + 1 := by
  have hget : Dot1x.radiusClientGetId d.radius = some (id, { d.radius with
      msgs := es, nextRadiusIdentifier := id + 1, calls := d.radius.calls + 1 }) := by
    unfold Dot1x.radiusClientGetId
    rw [hnext, hleft]
    rfl
  obtain ⟨d', effects, e, hsend, hspec⟩ := send_bareRequest (d := { d with radius := { d.radius with
    msgs := es, nextRadiusIdentifier := id + 1, calls := d.radius.calls + 1 } }) id hconf hroom
  refine ⟨d', e, ?_, hspec⟩
  unfold listStep wrapRequest
  dsimp only
  rw [hget, Option.bind_some]
  dsimp only
  rw [hsend]
  rfl

theorem firstRequest_step : ∃ d e,
    listStep wrapEnv (Rtapd.start wrapConf) (wrapRequest 0) = some d ∧ d.conf = wrapConf ∧
      d.radius.msgs = [e] ∧ e.msg.identifier = 0 ∧ d.radius.numMsgs = 1 ∧
      d.radius.nextRadiusIdentifier = 1 :=
  wrapRequest_step rfl rfl rfl (by decide)

theorem parse_bareAnswer (id : U8) : ∃ msg, radiusMsgParse .ample (bareAnswer id) = some msg ∧
    msg.identifier = id := by
  refine ⟨⟨bareAnswer id, 20, [], 16⟩, ?_, rfl⟩
  simp [radiusMsgParse, radiusMsgInitialize, bareAnswer, ntohs, parseAttrs, sizeofRadiusHdr,
    Memory.ample, radiusDefaultAttrCount]

theorem answeredRequest_waits {d : Rtapd} {id : U8} (h : Waiting d id) (hid : id ≠ 0) :
    ∃ d', Run (ListStep wrapEnv) d (answeredRequest id) d' ∧ Waiting d' (id + 1) := by
  obtain ⟨first, hmsgs, hfirst⟩ := h.msgs
  have hleft : Dot1x.removeId id false d.radius.msgs = some [first] := by
    rw [hmsgs, Dot1x.removeId, if_neg (by rw [hfirst]; exact Ne.symm hid)]
    rfl
  obtain ⟨d', e, hstep, hconf, hmsgs', he, hnum, hnext⟩ := wrapRequest_step h.conf h.next hleft
    (by rw [h.numMsgs]; decide)
  obtain ⟨msg, hparse, hmsg⟩ := parse_bareAnswer id
  have hack : ackRequest d' .ample (bareAnswer id) = unlinkRequest d' [first] := by
    unfold ackRequest
    rw [if_neg (by simp [bareAnswer, radiusBufSize]), hparse]
    dsimp only
    rw [hmsgs', takeRequest, if_pos (by rw [he, hmsg])]
  refine ⟨unlinkRequest d' [first], ?_, ⟨hconf, ⟨first, rfl, hfirst⟩, ?_, hnext⟩⟩
  · have hcarries : Carries d.radius.nextRadiusIdentifier (wrapRequest id) := by
      rw [h.next]
      exact headed_bareRequest id
    have hsent : Run (ListStep wrapEnv) d [wrapRequest id] d' := .single ⟨hcarries, hstep⟩
    have hacked : Run (ListStep wrapEnv) d
        ([wrapRequest id] ++ [.datagram .ample (bareAnswer id)]) (unlinkRequest d' [first]) :=
      hsent.snoc ⟨trivial, congrArg some hack⟩
    have hdone : ListStep wrapEnv (unlinkRequest d' [first]) .handled (unlinkRequest d' [first]) :=
      ⟨trivial, rfl⟩
    exact hacked.snoc hdone
  · show d'.radius.numMsgs - 1 = 1
    rw [hnum, h.numMsgs]
    rfl

theorem answeredRequests_wait {d : Rtapd} (h : Waiting d 1) (n : Nat) (hn : n ≤ 255) :
    ∃ d', Run (ListStep wrapEnv) d
        ((List.range n).flatMap fun k => answeredRequest (BitVec.ofNat 8 (k + 1))) d' ∧
      Waiting d' (BitVec.ofNat 8 (n + 1)) := by
  induction n with
  | zero => exact ⟨d, .nil, h⟩
  | succ n ih =>
    obtain ⟨mid, hrun, hwait⟩ := ih (by omega)
    obtain ⟨d', hrun', hwait'⟩ := answeredRequest_waits hwait (by bv_omega)
    refine ⟨d', ?_, ?_⟩
    · rw [List.range_succ, List.flatMap_append]
      exact hrun.trans (by simpa using hrun')
    · have hnext : BitVec.ofNat 8 (n + 1) + 1 = BitVec.ofNat 8 (n + 1 + 1) := by bv_omega
      rwa [hnext] at hwait'

theorem wrapEvents_run : ∃ d, Run (ListStep wrapEnv) (Rtapd.start wrapConf) wrapEvents d ∧
      d.radius.msgs.length = 1 ∧ d.radius.numMsgs = 2 := by
  obtain ⟨d₁, e, hstep, hconf, hmsgs, he, hnum, hnext⟩ := firstRequest_step
  have hwait : Waiting d₁ 1 := ⟨hconf, ⟨e, hmsgs, he⟩, hnum, hnext⟩
  obtain ⟨d₂, hrun, hwait'⟩ := answeredRequests_wait hwait 255 (by omega)
  obtain ⟨first, hmsgs', hfirst⟩ := hwait'.msgs
  have hleft : Dot1x.removeId 0 false d₂.radius.msgs = some [] := by
    rw [hmsgs', Dot1x.removeId, if_pos hfirst]
    rfl
  obtain ⟨d₃, e', hstep', _, hmsgs'', _, hnum', _⟩ := wrapRequest_step hwait'.conf hwait'.next hleft
    (by rw [hwait'.numMsgs]; decide)
  refine ⟨d₃, ?_, by rw [hmsgs'']; rfl, by rw [hnum', hwait'.numMsgs]; rfl⟩
  refine Run.snoc (Run.trans (Run.single ⟨?_, hstep⟩) hrun) ⟨?_, hstep'⟩
  · exact headed_bareRequest 0
  · rw [hwait'.next]
    exact headed_bareRequest 0

/-- The list in every run in which no identifier is handed out that a pending request has. -/
theorem pending_requests_kept {env : Env} {conf : Config} {c : Client} {es : List ClientEvent}
    (h : Run (Guarded Unshared (Step env)) (Client.start conf) es c) :
    ∃ L, Chain c.radius.next c.radius.msgs L ∧ (∀ i ∈ L, i ∈ c.radius.live) ∧
      (L.map fun i => (c.radius.entry i).msg.identifier).Nodup ∧
      c.radius.numMsgs.toNat = L.length ∧
      ∀ s id r c' L', Unshared c (.request (some s)) →
        radiusClientGetId c.radius = some (id, r) →
        radiusClientSend env s.malloc { c with radius := r } s.serial s.msg s.apIdx = some c' →
        Chain c'.radius.next c'.radius.msgs L' → (∃ i ∈ L, i ∉ L') →
        L.length = radiusClientMaxEntries := by
  obtain ⟨d, ⟨L, hrep⟩, huniq, hcount⟩ := run_counted h
  have hnum : c.radius.numMsgs.toNat = L.length := by
    rw [← hrep.numMsgs, hcount.count, hrep.msgs, List.length_map]
  refine ⟨L, hrep.holds.chain, hrep.holds.live, ?_, hnum, ?_⟩
  · rw [hrep.msgs, ids, List.map_map] at huniq
    exact huniq
  · rintro s id r c' L' hun hget hsend hL' ⟨i, hi, hout⟩
    have hsim := getId_represents hrep
    rw [hget] at hsim
    cases hlist : Dot1x.radiusClientGetId d.radius with
    | none =>
      rw [hlist] at hsim
      cases hsim
    | some out =>
      rw [hlist] at hsim
      obtain ⟨_, M, hsub, hrep'⟩ := Option.rel_some_some.mp hsim
      have hlist' : Dot1x.radiusClientGetId d.radius = some (out.1, out.2) := hlist
      obtain ⟨_, _, _, hnum', hsame⟩ := getId_spec hlist'
      have hmsgs : out.2.msgs = d.radius.msgs :=
        hsame (unwrapped_of_unshared (e := .request (some s)) ⟨L, hrep⟩ hun)
      have hlen : M.length = L.length := by
        have heq := hrep'.msgs.symm.trans (hmsgs.trans hrep.msgs)
        simpa using congrArg List.length heq
      obtain rfl : M = L := hsub.eq_of_length hlen
      rcases send_drops hrep' hsend hL' with hkept | hfull
      · exact absurd (hkept hi) hout
      · have hcounts : r.numMsgs.toNat = M.length := by
          rw [← hrep'.numMsgs, ← hnum, ← hrep.numMsgs]
          exact congrArg BitVec.toNat hnum'
        have hmany : 30 ≤ r.numMsgs.toNat := by
          simpa [BitVec.ule, radiusClientMaxEntries] using hfull
        have hlimit := hcount.limit
        rw [hrep.msgs, List.length_map] at hlimit
        unfold radiusClientMaxEntries at hlimit ⊢
        omega

theorem pending_requests_kept_once : ∃ c L,
    Run (Guarded Unshared (Step wrapEnv)) (Client.start wrapConf) [wrapRequest 0] c ∧
      Chain c.radius.next c.radius.msgs L ∧ c.radius.numMsgs.toNat = L.length := by
  obtain ⟨d, e, hstep, _⟩ := firstRequest_step
  have hrun : Run (ListStep wrapEnv) (Rtapd.start wrapConf) [wrapRequest 0] d :=
    .single ⟨headed_bareRequest 0, hstep⟩
  obtain ⟨c, hrun', _⟩ := run_lift (start_matches wrapConf) hrun
  have hfree : ¬(Client.start wrapConf).Wraps := by
    rintro ⟨L, hL, i, hi, _⟩
    cases hL
    cases hi
  have hguarded : Run (Guarded Unshared (Step wrapEnv)) (Client.start wrapConf) [wrapRequest 0] c :=
    .single ⟨hfree, hrun'.single_inv⟩
  obtain ⟨L, hchain, _, _, hnum, _⟩ := pending_requests_kept hguarded
  exact ⟨c, L, hguarded, hchain, hnum⟩

/-- Identifier 0 is used again while its first request is pending: one request is pending then, and
`num_msgs` is 2. -/
theorem wrapped_identifier_miscounts : ∃ c L,
    Run (Step wrapEnv) (Client.start wrapConf) wrapEvents c ∧
      Chain c.radius.next c.radius.msgs L ∧ L.length = 1 ∧ c.radius.numMsgs = 2 := by
  obtain ⟨d, hrun, hlen, hnum⟩ := wrapEvents_run
  obtain ⟨c, hrun', L, hrep⟩ := run_lift (start_matches wrapConf) hrun
  refine ⟨c, L, hrun', hrep.holds.chain, ?_, hrep.numMsgs.symm.trans hnum⟩
  rw [hrep.msgs, List.length_map] at hlen
  exact hlen

end Wrap

end OpenwrtMtk.Dot1x.Linked
