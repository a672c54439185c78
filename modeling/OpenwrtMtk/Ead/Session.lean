import OpenwrtMtk.Ead.Server
import OpenwrtMtk.Lib.Run

/-!
# The login of an ead session

The state variable says how far the login went: from `getPrime` on a session object is open for the
current user, from `sendA` on `B` points into it, from `sendAuth` on its key is installed, and in
`sendCmd` the client has proved that it knows the key. The log of the effects is what "was called
before" refers to.
-/

namespace OpenwrtMtk.Ead

open Toolkit

set_option autoImplicit false

/-- The server with the log of all it did. -/
structure Session where
  s : State
  log : List Effect

/-- `parse_message` on one packet, with the answers of the parts outside; a fault ends the run. -/
def sessionStep (cfg : Config) (K : Cipher) (σ : Session) (e : Oracle × Packet) :
    Option Session :=
  match parseMessage cfg K e.1 σ.s e.2 with
  | .ok (s, effects) => some ⟨s, σ.log ++ effects⟩
  | .error _ => none

def initialState (password : Password) (crypt : Crypt) : State :=
  { state := .setUsername, username := [], ts := none, B := none, A := [], password := password
    crypt := crypt, servers := [] }

/-- `ead_set_key` was called with a key of the object `id`, and not again. -/
def KeyOf (log : List Effect) (id : Nat) (key : List U8) : Prop :=
  ∃ pre post skey, log = pre ++ .keySet id skey :: post ∧ skey.take 32 = key ∧
    ∀ id' skey', Effect.keySet id' skey' ∉ post

/-- The object `id` was opened for the user, which was not set again. -/
def OpenedFor (log : List Effect) (id : Nat) (username : List U8) : Prop :=
  ∃ pre post, log = pre ++ .opened id username :: post ∧ ∀ name, Effect.userSet name ∉ post

/-- The client was verified on the object `id`, and no user set since. -/
def VerifiedOn (log : List Effect) (id : Nat) : Prop :=
  ∃ pre post, log = pre ++ .verified id true :: post ∧ ∀ name, Effect.userSet name ∉ post

/-- How far the login went. -/
structure LoggedIn (s : State) (log : List Effect) (id : Nat) : Prop where
  ts : s.ts = some id
  server : ∃ t, s.servers[id]? = some (some t) ∧ t.owner = s.username
  opened : OpenedFor log id s.username
  exponent : EadType.sendA.code ≤ s.state.code → s.B = some id
  key : EadType.sendAuth.code ≤ s.state.code → KeyOf log id s.crypt.key
  verified : EadType.sendCmd.code ≤ s.state.code → VerifiedOn log id

/-- The states the server can be in; before `getPrime` there is no session object. -/
inductive SessionInv (σ : Session) : Prop where
  | idle : σ.s.state = .setUsername → σ.s.ts = none → SessionInv σ
  | login (id : Nat) : σ.s.state ∈ [EadType.getPrime, .sendA, .sendAuth, .sendCmd] →
      LoggedIn σ.s σ.log id → SessionInv σ

theorem code_le_of_state {s : State} {k t : EadType} (h : s.state = t) (hk : k.code ≤ t.code) :
    k.code ≤ s.state.code :=
  h ▸ hk

section Log

variable {log effects : List Effect} {id : Nat} {key username : List U8} {s : State}

def Quiet (effects : List Effect) : Prop :=
  (∀ name, Effect.userSet name ∉ effects) ∧ ∀ id skey, Effect.keySet id skey ∉ effects

theorem Quiet.append {effects' : List Effect} (h : Quiet effects) (h' : Quiet effects') :
    Quiet (effects ++ effects') := by
  refine ⟨?_, ?_⟩
  · intro name hmem
    rcases List.mem_append.mp hmem with hmem | hmem
    · exact h.1 name hmem
    · exact h'.1 name hmem
  · intro id skey hmem
    rcases List.mem_append.mp hmem with hmem | hmem
    · exact h.2 id skey hmem
    · exact h'.2 id skey hmem

theorem KeyOf.append (h : KeyOf log id key) (hq : Quiet effects) :
    KeyOf (log ++ effects) id key := by
  obtain ⟨pre, post, skey, rfl, hkey, hlast⟩ := h
  refine ⟨pre, post ++ effects, skey, by simp, hkey, ?_⟩
  intro id' skey' hmem
  rcases List.mem_append.mp hmem with hmem | hmem
  · exact hlast id' skey' hmem
  · exact hq.2 id' skey' hmem

theorem OpenedFor.append (h : OpenedFor log id username) (hq : ∀ name, Effect.userSet name ∉ effects) :
    OpenedFor (log ++ effects) id username := by
  obtain ⟨pre, post, rfl, hlast⟩ := h
  refine ⟨pre, post ++ effects, by simp, ?_⟩
  intro name hmem
  rcases List.mem_append.mp hmem with hmem | hmem
  · exact hlast name hmem
  · exact hq name hmem

theorem VerifiedOn.append (h : VerifiedOn log id) (hq : ∀ name, Effect.userSet name ∉ effects) :
    VerifiedOn (log ++ effects) id := by
  obtain ⟨pre, post, rfl, hlast⟩ := h
  refine ⟨pre, post ++ effects, by simp, ?_⟩
  intro name hmem
  rcases List.mem_append.mp hmem with hmem | hmem
  · exact hlast name hmem
  · exact hq name hmem

theorem LoggedIn.append (h : LoggedIn s log id) (hq : Quiet effects) :
    LoggedIn s (log ++ effects) id where
  ts := h.ts
  server := h.server
  opened := h.opened.append hq.1
  exponent := h.exponent
  key := fun hstate => (h.key hstate).append hq
  verified := fun hstate => (h.verified hstate).append hq.1

theorem quiet_sent (cfg : Config) (pkt : Packet) (t : EadType) (reply : Option (List U8)) :
    Quiet (reply.toList.map fun body => Effect.sent ⟨t.code + 1, cfg.nid, pkt.sid, body⟩) := by
  cases reply <;> simp [Quiet]

end Log

def Keeps (σ : Session) (r : Result) : Prop :=
  match r with
  | .ok (s, effects) => SessionInv ⟨s, σ.log ++ effects⟩
  | .error f => f = .overread ∨ f = .overrun

section Handlers

variable {cfg : Config} {K : Cipher} {o : Oracle} {pkt : Packet} {s : State} {log : List Effect}
  {id : Nat}

theorem LoggedIn.server_ok (h : LoggedIn s log id) :
    ∃ t, s.server = .ok (id, t) ∧ s.servers[id]? = some (some t) ∧ t.owner = s.username := by
  obtain ⟨t, ht, howner⟩ := h.server
  refine ⟨t, ?_, ht, howner⟩
  simp only [State.server, h.ts, ht]

theorem SessionInv.login_of_state {σ : Session} (h : SessionInv σ)
    (hstate : σ.s.state ≠ .setUsername) :
    ∃ id, σ.s.state ∈ [EadType.getPrime, .sendA, .sendAuth, .sendCmd] ∧ LoggedIn σ.s σ.log id := by
  cases h with
  | idle hidle _ => exact absurd hidle hstate
  | login id hmem hlogin => exact ⟨id, hmem, hlogin⟩

theorem setState_self (o : Oracle) (s : State) : setState o s s.state = .ok (s, []) := by
  rw [setState, if_pos rfl]

theorem setState_forward (o : Oracle) {s : State} {k nstate : EadType} (hstate : s.state = k)
    (hlt : k.code < nstate.code) : setState o s nstate = leaveState o s nstate := by
  subst hstate
  have hne : s.state ≠ nstate := by
    intro heq
    rw [heq] at hlt
    exact Nat.lt_irrefl _ hlt
  rw [setState, if_neg hne, if_neg (Nat.not_lt.mpr (Nat.le_of_lt hlt))]

theorem finish_forward {t k nstate : EadType} {reply : Option (List U8)} {effects : List Effect}
    (hstate : s.state = k) (hlt : k.code < nstate.code) :
    finish cfg o pkt t ⟨reply, nstate, s, effects⟩ = (leaveState o s nstate).map fun r =>
      (r.1, effects ++ (reply.toList.map fun body =>
        Effect.sent ⟨t.code + 1, cfg.nid, pkt.sid, body⟩) ++ r.2) := by
  unfold finish
  rw [setState_forward o hstate hlt]

theorem setState_setUsername {σ : Session} (h : SessionInv σ) (o : Oracle) :
    ∃ s' effects, setState o σ.s .setUsername = .ok (s', effects) ∧ s'.state = .setUsername ∧
      s'.ts = none ∧ Quiet effects := by
  cases h with
  | idle hstate hts =>
    refine ⟨σ.s, [], ?_, hstate, hts, by simp [Quiet]⟩
    rw [← hstate, setState_self]
  | login id hmem hlogin =>
    obtain ⟨t, hserver, _, _⟩ := hlogin.server_ok
    have hcode : EadType.getPrime.code ≤ σ.s.state.code := by
      revert hmem
      cases σ.s.state <;> decide
    have hne : σ.s.state ≠ .setUsername := by
      intro hstate
      rw [hstate] at hcode
      revert hcode
      decide
    refine ⟨{ σ.s with ts := none, servers := σ.s.servers.set id none, state := .setUsername },
      [.closed id], ?_, rfl, rfl, by simp [Quiet]⟩
    · rw [setState, if_neg hne, if_pos (Nat.lt_of_lt_of_le (by decide) hcode),
        if_pos ⟨by decide, hcode⟩, hserver]
      rfl

theorem ping_keeps {σ : Session} (h : SessionInv σ) :
    Keeps σ ((handlePing cfg σ.s).bind (finish cfg o pkt .ping)) := by
  unfold handlePing finish Keeps
  simp only [Except.bind, setState_self, Except.map, List.append_nil]
  cases h with
  | idle hstate hts => exact .idle hstate hts
  | login id hmem hlogin => exact .login id hmem (hlogin.append (by simp [Quiet]))

theorem setUsername_keeps {σ : Session} (h : SessionInv σ) :
    Keeps σ ((handleSetUsername o σ.s pkt).bind (finish cfg o pkt .setUsername)) := by
  obtain ⟨s, effects, hback, hstate, hts, _⟩ := setState_setUsername h o
  unfold handleSetUsername
  rw [hback]
  simp only [Except.map, Except.bind]
  rw [finish_forward (k := .setUsername) (s := { s with username := userName pkt.data }) hstate
    (by decide)]
  simp only [leaveState, hstate, Keeps]
  cases o.prepare with
  | none => exact .idle rfl hts
  | some password =>
    cases o.openraw with
    | none => exact .idle rfl rfl
    | some salt =>
      refine .login s.servers.length (by simp) ⟨rfl, ?_, ?_, ?_, ?_, ?_⟩
      · exact ⟨⟨userName pkt.data, salt, []⟩, by simp, rfl⟩
      · exact ⟨_, [], (List.append_assoc _ _ _).symm, by simp⟩
      · intro hcode
        exact absurd hcode (by simp [EadType.code])
      · intro hcode
        exact absurd hcode (by simp [EadType.code])
      · intro hcode
        exact absurd hcode (by simp [EadType.code])

theorem getPrime_keeps {σ : Session} (h : SessionInv σ) (hstate : σ.s.state = .getPrime) :
    Keeps σ ((handleGetPrime o σ.s).bind (finish cfg o pkt .getPrime)) := by
  obtain ⟨id, _, hlogin⟩ := h.login_of_state (by rw [hstate]; decide)
  obtain ⟨t, hserver, hopen, howner⟩ := hlogin.server_ok
  unfold handleGetPrime
  rw [hserver]
  simp only [Except.map, Except.bind]
  rw [finish_forward (k := .getPrime) hstate (by decide)]
  simp only [leaveState, hstate, hserver, Except.map, Keeps, List.nil_append, List.append_nil]
  have hid : id < σ.s.servers.length := (List.getElem?_eq_some_iff.mp hopen).1
  refine .login id (by simp) ⟨hlogin.ts, ?_, hlogin.opened.append (quiet_sent cfg pkt _ _).1,
    fun _ => rfl, ?_, ?_⟩
  · exact ⟨_, List.getElem?_set_self hid, howner⟩
  · intro hcode
    exact absurd hcode (by simp [EadType.code])
  · intro hcode
    exact absurd hcode (by simp [EadType.code])

theorem sendA_keeps {σ : Session} (h : SessionInv σ) (hstate : σ.s.state = .sendA) :
    Keeps σ ((handleSendA o σ.s pkt).bind (finish cfg o pkt .sendA)) := by
  obtain ⟨id, hmem, hlogin⟩ := h.login_of_state (by rw [hstate]; decide)
  obtain ⟨t, _, hopen, howner⟩ := hlogin.server_ok
  have hB : σ.s.exponent = .ok t.B := by
    simp only [State.exponent, hlogin.exponent (code_le_of_state hstate (by decide)), hopen]
  simp only [handleSendA]
  split
  · -- a number that is too long is dropped
    simp only [finish, Except.bind, setState_self, Except.map]
    exact .login id hmem (hlogin.append (by simp [Quiet]))
  · split
    · exact Or.inr rfl
    · split
      · exact Or.inl rfl
      · rw [hB]
        simp only [Except.map, Except.bind]
        rw [finish_forward (k := .sendA)
          (s := { σ.s with A := slice pkt.data 1 (pkt.len - 1).toInt.toNat }) hstate (by decide)]
        simp only [leaveState, hstate, State.server, hlogin.ts, hopen, Except.map]
        cases o.getkey with
        | none =>
          refine .login id (by simp) ?_
          simp only [List.nil_append, List.append_nil]
          have hquiet := hlogin.append (quiet_sent cfg pkt .sendA (some (o.stale 0 :: t.B)))
          refine ⟨rfl, hquiet.server, hquiet.opened, fun _ => ?_, ?_, ?_⟩
          · exact hlogin.exponent (code_le_of_state hstate (by decide))
          · intro hcode
            exact absurd hcode (by simp [EadType.code])
          · intro hcode
            exact absurd hcode (by simp [EadType.code])
        | some skey =>
          refine .login id (by simp) ⟨rfl, hlogin.server, ?_, fun _ => ?_, fun _ => ?_, ?_⟩
          · exact hlogin.opened.append (by simp)
          · exact hlogin.exponent (code_le_of_state hstate (by decide))
          · refine ⟨σ.log ++ _, [], skey, (List.append_assoc _ _ _).symm, rfl, by simp⟩
          · intro hcode
            exact absurd hcode (by simp [EadType.code])

theorem sendAuth_keeps {σ : Session} (h : SessionInv σ) (hstate : σ.s.state = .sendAuth) :
    Keeps σ ((handleSendAuth o σ.s).bind (finish cfg o pkt .sendAuth)) := by
  obtain ⟨id, _, hlogin⟩ := h.login_of_state (by rw [hstate]; decide)
  obtain ⟨t, hserver, hopen, howner⟩ := hlogin.server_ok
  unfold handleSendAuth
  rw [hserver]
  simp only [Except.map, Except.bind]
  cases o.verify with
  | false =>
    obtain ⟨s', effects, hback, hstate', hts, _⟩ := setState_setUsername h o
    simp only [Bool.false_eq_true, if_false, finish, hback]
    exact .idle hstate' hts
  | true =>
    simp only [if_true]
    rw [finish_forward (k := .sendAuth) hstate (by decide)]
    simp only [leaveState, hstate, Except.map, Keeps]
    refine .login id (by simp) ⟨hlogin.ts, hlogin.server, ?_, fun _ => ?_, fun _ => ?_,
      fun _ => ?_⟩
    · exact hlogin.opened.append (by simp)
    · exact hlogin.exponent (code_le_of_state hstate (by decide))
    · exact (hlogin.key (code_le_of_state hstate (by decide))).append (by simp [Quiet])
    · exact ⟨σ.log, _, rfl, by simp⟩

theorem eadDecryptMessage_key {c c' : Crypt} {len n : U32} {data plain : List U8}
    (h : eadDecryptMessage K c len data = .ok (c', n, plain)) : c'.key = c.key := by
  unfold eadDecryptMessage at h
  split at h
  · obtain ⟨rfl, _⟩ := Prod.mk.inj (Except.ok.inj h)
    rfl
  · split at h
    · cases h
    · dsimp only at h
      split at h
      · obtain ⟨rfl, _⟩ := Prod.mk.inj (Except.ok.inj h)
        rfl
      · split at h
        · obtain ⟨rfl, _⟩ := Prod.mk.inj (Except.ok.inj h)
          rfl
        · split at h <;>
          · obtain ⟨rfl, _⟩ := Prod.mk.inj (Except.ok.inj h)
            rfl

theorem eadDecryptMessage_error {c : Crypt} {len : U32} {data : List U8} {f : Fault}
    (h : eadDecryptMessage K c len data = .error f) : f = .overread := by
  unfold eadDecryptMessage at h
  split at h
  · cases h
  · split at h
    · exact (Except.error.inj h).symm
    · dsimp only at h
      split at h
      · cases h
      · split at h
        · cases h
        · split at h <;> cases h

theorem streamOutput_key (K : Cipher) : ∀ (chunks : List Chunk) (c : Crypt),
    (streamOutput K c chunks).1.key = c.key := by
  intro chunks
  induction chunks with
  | nil => intro c; rfl
  | cons chunk chunks ih =>
    intro c
    exact ih _

theorem handleSendCmd_ok {h : Handled} (hok : handleSendCmd K o s pkt = .ok h) :
    h.nstate = s.state ∧ Quiet h.effects ∧
      ∃ c, h.s = { s with crypt := c } ∧ c.key = s.crypt.key := by
  unfold handleSendCmd at hok
  cases hdec : eadDecryptMessage K s.crypt pkt.len pkt.data with
  | error f => simp [hdec] at hok
  | ok r =>
    obtain ⟨c, enclen, plain⟩ := r
    have hkey := eadDecryptMessage_key hdec
    simp only [hdec] at hok
    split at hok
    · obtain rfl := Except.ok.inj hok
      exact ⟨rfl, by simp [Quiet], c, rfl, hkey⟩
    · split at hok
      · obtain rfl := Except.ok.inj hok
        have hstream := streamOutput_key K o.chunks c
        unfold runNormal
        cases o.finished with
        | true => exact ⟨rfl, by simp [Quiet], _, rfl, hstream.trans hkey⟩
        | false => exact ⟨rfl, by simp [Quiet], _, rfl, hstream.trans hkey⟩
      · obtain rfl := Except.ok.inj hok
        exact ⟨rfl, by simp [runBackground, Quiet], _, rfl, hkey⟩
      · obtain rfl := Except.ok.inj hok
        exact ⟨rfl, by simp [Quiet], c, rfl, hkey⟩

theorem handleSendCmd_error {f : Fault} (herr : handleSendCmd K o s pkt = .error f) :
    f = .overread := by
  unfold handleSendCmd at herr
  cases hdec : eadDecryptMessage K s.crypt pkt.len pkt.data with
  | error g =>
    simp only [hdec] at herr
    rw [← Except.error.inj herr]
    exact eadDecryptMessage_error hdec
  | ok r =>
    simp only [hdec] at herr
    split at herr
    · cases herr
    · split at herr <;> cases herr

theorem sendCmd_keeps {σ : Session} (h : SessionInv σ) (hstate : σ.s.state = .sendCmd) :
    Keeps σ ((handleSendCmd K o σ.s pkt).bind (finish cfg o pkt .sendCmd)) := by
  obtain ⟨id, hmem, hlogin⟩ := h.login_of_state (by rw [hstate]; decide)
  cases hcmd : handleSendCmd K o σ.s pkt with
  | error f => exact Or.inl (handleSendCmd_error hcmd)
  | ok handled =>
    obtain ⟨hn, hquiet, c, hs, hkey⟩ := handleSendCmd_ok hcmd
    have hself : setState o handled.s handled.nstate = .ok (handled.s, []) := by
      rw [hn, hs]
      exact setState_self o { σ.s with crypt := c }
    simp only [Except.bind, finish, hself, Except.map, List.append_nil]
    have hlog := hlogin.append (hquiet.append (quiet_sent cfg pkt .sendCmd handled.reply))
    rw [hs]
    refine .login id hmem ⟨hlog.ts, hlog.server, hlog.opened, hlog.exponent, ?_, hlog.verified⟩
    intro hcode
    have hkeyOf := hlog.key hcode
    rw [← hkey] at hkeyOf
    exact hkeyOf

end Handlers

section Runs

variable {cfg : Config} {K : Cipher}

/-- One packet: no handler uses a session object that is not there, and the login goes on. -/
theorem parseMessage_keeps {σ : Session} (h : SessionInv σ) (o : Oracle) (pkt : Packet) :
    Keeps σ (parseMessage cfg K o σ.s pkt) := by
  have hstay : Keeps σ (.ok (σ.s, [])) := by
    simp only [Keeps, List.append_nil]
    exact h
  unfold parseMessage
  cases eadType pkt.type with
  | none => exact hstay
  | some t =>
    dsimp only
    split
    · rename_i hdispatch
      have hstate : EadType.getPrime.code ≤ t.code → σ.s.state = t := by
        intro hcode
        rcases hdispatch.1 with hlow | heq
        · omega
        · exact heq
      cases t with
      | ping =>
        simp only [handlerOf]
        split
        · exact hstay
        · exact ping_keeps h
      | setUsername =>
        simp only [handlerOf]
        split
        · exact hstay
        · exact setUsername_keeps h
      | getPrime =>
        simp only [handlerOf]
        split
        · exact hstay
        · exact getPrime_keeps h (hstate (by decide))
      | sendA =>
        simp only [handlerOf]
        split
        · exact hstay
        · exact sendA_keeps h (hstate (by decide))
      | sendAuth =>
        simp only [handlerOf]
        split
        · exact hstay
        · exact sendAuth_keeps h (hstate (by decide))
      | sendCmd =>
        simp only [handlerOf]
        split
        · exact hstay
        · exact sendCmd_keeps h (hstate (by decide))
      | pong => exact hstay
      | ackUsername => exact hstay
      | prime => exact hstay
      | sendB => exact hstay
      | doneAuth => exact hstay
      | resultCmd => exact hstay
    · exact hstay

theorem session_run {σ₀ σ : Session} {packets : List (Oracle × Packet)} (hinit : SessionInv σ₀)
    (hrun : Run (Graph (sessionStep cfg K)) σ₀ packets σ) : SessionInv σ := by
  apply hrun.invariant SessionInv _ hinit
  intro σ e σ' h hstep
  have hkeeps := @parseMessage_keeps cfg K _ h e.1 e.2
  unfold Toolkit.Graph sessionStep at hstep
  cases hparse : parseMessage cfg K e.1 σ.s e.2 with
  | error f => simp [hparse] at hstep
  | ok r =>
    rw [hparse] at hkeeps
    obtain rfl := Option.some.inj ((by simpa only [hparse] using hstep) :
      some (⟨r.1, σ.log ++ r.2⟩ : Session) = some σ')
    exact hkeeps

/-- `parse_message` calls `handle_send_cmd`, which decrypts first of all. -/
def ReachesDecryption (cfg : Config) (s : State) (pkt : Packet) : Prop :=
  eadType pkt.type = some .sendCmd ∧ dispatches cfg s pkt .sendCmd ∧
    sizeofPacket + (3 + sizeofEncrypted) ≤ pkt.hlen

instance (cfg : Config) (s : State) (pkt : Packet) : Decidable (ReachesDecryption cfg s pkt) :=
  inferInstanceAs (Decidable (_ ∧ _))

theorem parseMessage_of_reaches {o : Oracle} {s : State} {pkt : Packet}
    (h : ReachesDecryption cfg s pkt) :
    parseMessage cfg K o s pkt = (handleSendCmd K o s pkt).bind (finish cfg o pkt .sendCmd) := by
  obtain ⟨htype, hdispatch, hlen⟩ := h
  simp only [parseMessage, htype, if_pos hdispatch, handlerOf]
  rw [if_neg (Nat.not_lt.mpr hlen)]

/-- Whatever packets came before: where a command is decrypted, the session object was opened for
the current user, its key is installed, and the client was verified on it since; and no handler
uses a session object that is closed or not there. -/
theorem decryption_follows_login {password : Password} {crypt : Crypt}
    {packets : List (Oracle × Packet)} {σ : Session}
    (hrun : Run (Graph (sessionStep cfg K)) ⟨initialState password crypt, []⟩ packets σ)
    (o : Oracle) (pkt : Packet) :
    (ReachesDecryption cfg σ.s pkt → ∃ id t, σ.s.ts = some id ∧
      σ.s.servers[id]? = some (some t) ∧ t.owner = σ.s.username ∧
      OpenedFor σ.log id σ.s.username ∧ KeyOf σ.log id σ.s.crypt.key ∧ VerifiedOn σ.log id) ∧
    ∀ f ∈ [Fault.nullTs, .closedTs, .nullB], parseMessage cfg K o σ.s pkt ≠ .error f := by
  have hinv := session_run (.idle rfl rfl) hrun
  refine ⟨?_, ?_⟩
  · rintro ⟨_, hdispatch, _⟩
    have hstate : σ.s.state = .sendCmd := by
      rcases hdispatch.1 with hlow | hstate
      · exact absurd hlow (by decide)
      · exact hstate
    obtain ⟨id, _, hlogin⟩ := hinv.login_of_state (by rw [hstate]; decide)
    obtain ⟨t, ht, howner⟩ := hlogin.server
    exact ⟨id, t, hlogin.ts, ht, howner, hlogin.opened, hlogin.key (code_le_of_state hstate (by decide)),
      hlogin.verified (code_le_of_state hstate (by decide))⟩
  · intro f hf herror
    have hkeeps := @parseMessage_keeps cfg K _ hinv o pkt
    rw [herror] at hkeeps
    rcases hkeeps with rfl | rfl
    · simp at hf
    · simp at hf

end Runs

def sumCipher : Cipher where
  encrypt := fun key block => block.map (· ^^^ key.headD 0)
  decrypt := fun key block => block.map (· ^^^ key.headD 0)
  sha := fun bytes => List.replicate 19 0 ++ [bytes.foldl (· + ·) 0]
  length_encrypt := by
    intro key block h
    rw [List.length_map, h]
  decrypt_encrypt := by
    intro key block _
    rw [List.map_map]
    apply List.map_id''
    intro b
    simp [BitVec.xor_assoc]
  length_sha := by
    intro bytes
    simp

def willing : Oracle where
  prepare := some ⟨1, []⟩
  openraw := some []
  genexp := [2]
  getkey := some (List.range 40 |>.map (BitVec.ofNat 8))
  verify := true
  response := List.replicate 20 0
  started := true
  chunks := []
  finished := true
  stale := fun _ => 0

def packetOf (type : U32) (data : List U8) : Packet where
  hlen := sizeofPacket + data.length
  etherType := ethertypeIp
  dhost := broadcast
  proto := uipProtoUdp
  destport := eadPort
  magic := eadMagic
  len := BitVec.ofNat 32 data.length
  type := type
  nid := 0xffff
  sid := 0
  data := data

def someConfig : Config := ⟨0x1234, 0, []⟩

def noCrypt : Crypt := ⟨[], 0, 0, 0, 0⟩

def loginPackets : List (Oracle × Packet) :=
  [(willing, packetOf 2 (List.replicate 32 0x75)), (willing, packetOf 4 []),
    (willing, packetOf 6 [0, 3]), (willing, packetOf 8 (List.replicate 20 0))]

theorem decryption_follows_login_once :
    ∃ σ, Run (Graph (sessionStep someConfig sumCipher)) ⟨initialState ⟨0, []⟩ noCrypt, []⟩
        loginPackets σ ∧
      ReachesDecryption someConfig σ.s (packetOf 10 (List.replicate 64 0)) ∧
      ∃ id, σ.s.ts = some id ∧ VerifiedOn σ.log id := by
  have hexec : (exec (sessionStep someConfig sumCipher) ⟨initialState ⟨0, []⟩ noCrypt, []⟩
      loginPackets).map (fun σ => decide (ReachesDecryption someConfig σ.s
        (packetOf 10 (List.replicate 64 0)))) = some true := by
    decide +kernel
  obtain ⟨σ, hσ, hreach⟩ := Option.map_eq_some_iff.mp hexec
  have hrun := exec_run hσ
  obtain ⟨id, _, hts, _, _, _, _, hverified⟩ :=
    (decryption_follows_login hrun willing (packetOf 10 (List.replicate 64 0))).1
      (of_decide_eq_true hreach)
  exact ⟨σ, hrun, of_decide_eq_true hreach, id, hts, hverified⟩

end OpenwrtMtk.Ead
