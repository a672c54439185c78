import OpenwrtMtk.Wapi.Link

/-!
# Pairwise keys are installed once

As long as the AE is not handed a response again that it has accepted, while its challenge is the
one of that response, no key goes to the driver twice. The challenges of a response determine the
key, the nonce of the station determines the response.
-/

namespace OpenwrtMtk.Wapi

open Toolkit

set_option autoImplicit false

def KdfInjective (c : Crypto) : Prop :=
  ∀ (bk bk' : Bytes 16) (addid addid' : Bytes 12) (anonce anonce' snonce snonce' : Nonce),
    pairwiseKey c bk addid anonce snonce = pairwiseKey c bk' addid' anonce' snonce' →
      anonce = anonce' ∧ snonce = snonce'

/-- The AE is in a state that takes responses, `f` passes the tests that precede the one of its
code, and it is one that a key was installed for already, under the challenge and with the index
that it would be installed with now. -/
def Link.repeats (l : Link) (f : Frame) (hdr : Bytes 12) (stale : List U8) (env : Env) : Prop :=
  let pMsg := UcastKeyRespFrame.read f.body
  .peerUcastKeyResp ∈ keyActions l.ae.entry.waiKeyState ∧
  l.ae.entry.valid = true ∧
  pMsg.aeChallenge = l.ae.entry.anonce ∧
  (uskRenewIsOn pMsg.flag = true → pMsg.uskid ≠ l.ae.entry.uskid) ∧
  (uskRenewIsOn pMsg.flag = false →
    wieMatches env (.received hdr f.body stale) UcastKeyRespFrame.size = true) ∧
  env.malloc = true ∧ env.send = true ∧
  ∃ i ∈ l.installed, i.resp = f.body ∧
    i.uskid = if uskRenewIsOn pMsg.flag then pMsg.uskid else l.ae.entry.uskid

def Unrepeated (l : Link) : Event → Prop
  | .aeReceive n hdr stale env =>
    ∀ f ∈ l.fromAsue[n]?, f.subType = .uniKeyResp → ¬l.repeats f hdr stale env
  | _ => True

def Side.pair (s : Side) : U8 × Ptk := (s.entry.uskid, s.entry.ptk)

def asueNonces (es : List Event) : List Nonce := es.filterMap Event.asueNonce

/-- What is known of the frames on the air when the nonces `drawn` have been used. -/
structure History (l : Link) (drawn : List Nonce) : Prop where
  aeTypes : ∀ f ∈ l.fromAe, f.ofAe
  asueTypes : ∀ f ∈ l.fromAsue, f.ofAsue
  used : ∀ f ∈ l.fromAsue, f.subType = .uniKeyResp → f.asueChallenge ∈ drawn
  unique : ∀ f ∈ l.fromAsue, ∀ g ∈ l.fromAsue, f.subType = .uniKeyResp →
    g.subType = .uniKeyResp → f.asueChallenge = g.asueChallenge → f = g

/-- Every installed key is the one of a response of the station, and no two are the same. -/
structure Accounted (c : Crypto) (l : Link) : Prop where
  answered : ∀ i ∈ l.installed, ∃ f ∈ l.fromAsue, f.subType = .uniKeyResp ∧ f.body = i.resp ∧
    ∃ bk addid, i.ptk = pairwiseKey c bk addid (UcastKeyRespFrame.read f.body).aeChallenge
      f.asueChallenge
  once : (l.installed.map Install.pair).Nodup

section Frames

variable {l : Link} {drawn : List Nonce} {env : Env} {r : Side × List Effect}

theorem History.weaken {nonces : List Nonce} (h : History l drawn) :
    History l (drawn ++ nonces) where
  aeTypes := h.aeTypes
  asueTypes := h.asueTypes
  used := fun f hf hresp => List.mem_append_left _ (h.used f hf hresp)
  unique := h.unique

theorem History.aeActs {resp : List U8} (h : History l drawn) (hsent : ∀ f ∈ sent r, f.ofAe) :
    History (l.aeActs resp r) drawn where
  aeTypes := by
    intro f hf
    rcases List.mem_append.mp hf with hold | hnew
    · exact h.aeTypes f hold
    · exact hsent f hnew
  asueTypes := h.asueTypes
  used := h.used
  unique := h.unique

theorem History.asueActs (h : History l drawn) (hsent : StationFrames env (sent r))
    (hfresh : env.random ∉ drawn) : History (l.asueActs r) (drawn ++ [env.random]) := by
  rcases hsent with hnone | ⟨f, hone, hf⟩
  · have hwire : (l.asueActs r).fromAsue = l.fromAsue := by
      change l.fromAsue ++ sent r = l.fromAsue
      rw [hnone, List.append_nil]
    have hkeep : History l (drawn ++ [env.random]) := h.weaken
    exact ⟨hkeep.aeTypes, by rw [hwire]; exact hkeep.asueTypes, by rw [hwire]; exact hkeep.used,
      by rw [hwire]; exact hkeep.unique⟩
  · have hwire : (l.asueActs r).fromAsue = l.fromAsue ++ [f] := by
      change l.fromAsue ++ sent r = _
      rw [hone]
    have hnonce : f.subType = .uniKeyResp → f.asueChallenge = env.random := by
      intro hresp
      rcases hf with hf | hmcast
      · exact hf.2
      · rw [hresp] at hmcast
        cases hmcast
    have hnew : ∀ g ∈ l.fromAsue, g.subType = .uniKeyResp → f.subType = .uniKeyResp →
        g.asueChallenge ≠ f.asueChallenge := by
      intro g hg hgresp hfresp heq
      apply hfresh
      rw [← hnonce hfresp, ← heq]
      exact h.used g hg hgresp
    constructor
    · exact h.aeTypes
    · rw [hwire]
      intro g hg
      rcases List.mem_append.mp hg with hold | hlast
      · exact h.asueTypes g hold
      · rw [List.mem_singleton.mp hlast]
        rcases hf with hf | hf
        · exact Or.inl hf.1
        · exact Or.inr hf
    · rw [hwire]
      intro g hg hresp
      rcases List.mem_append.mp hg with hold | hlast
      · exact List.mem_append_left _ (h.used g hold hresp)
      · rw [List.mem_singleton.mp hlast] at hresp ⊢
        rw [hnonce hresp]
        simp
    · rw [hwire]
      intro g hg g' hg' hresp hresp' heq
      rcases List.mem_append.mp hg with hold | hlast
      · rcases List.mem_append.mp hg' with hold' | hlast'
        · exact h.unique g hold g' hold' hresp hresp' heq
        · rw [List.mem_singleton.mp hlast'] at hresp' heq
          exact absurd heq (hnew g hold hresp hresp')
      · rcases List.mem_append.mp hg' with hold' | hlast'
        · rw [List.mem_singleton.mp hlast] at hresp heq
          exact absurd heq.symm (hnew g' hold' hresp' hresp)
        · rw [List.mem_singleton.mp hlast, List.mem_singleton.mp hlast']

end Frames

section Keys

variable {c : Crypto} {l : Link} {drawn : List Nonce} {r : Side × List Effect}

theorem Accounted.aeActs {resp : List U8} (h : Accounted c l) (hnone : installs r = false) :
    Accounted c (l.aeActs resp r) := by
  have hlog : (l.aeActs resp r).installed = l.installed := by
    simp [Link.aeActs, hnone]
  constructor
  · rw [hlog]
    exact h.answered
  · rw [hlog]
    exact h.once

theorem Accounted.asueActs (h : Accounted c l) : Accounted c (l.asueActs r) where
  answered := by
    intro i hi
    obtain ⟨f, hf, hrest⟩ := h.answered i hi
    exact ⟨f, List.mem_append_left _ hf, hrest⟩
  once := h.once

theorem Accounted.accepts (hkdf : KdfInjective c) (hhist : History l drawn) (h : Accounted c l)
    {f : Frame} (hf : f ∈ l.fromAsue) (hresp : f.subType = .uniKeyResp) {env : Env}
    {hdr : Bytes 12} {stale : List U8}
    (hstate : .peerUcastKeyResp ∈ keyActions l.ae.entry.waiKeyState)
    (hacc : AcceptsUcastKeyResp c env (.received hdr f.body stale) l.ae)
    (hside : r.1 =
      l.ae.completed c (UcastKeyRespFrame.read (Elem.received hdr f.body stale).body))
    (hinst : installs r = true) (hnew : ¬l.repeats f hdr stale env) :
    Accounted c (l.aeActs f.body r) := by
  obtain ⟨hlen, hvalid, hidx, hwie, hchal, -, hmalloc, hsend⟩ := hacc
  have hread : UcastKeyRespFrame.read (Elem.received hdr f.body stale).body =
      UcastKeyRespFrame.read f.body := by
    rw [Elem.received_body]
    apply UcastKeyRespFrame.read_append
    simp only [Elem.received_msgLen] at hlen
    omega
  rw [hread] at hidx hwie hchal hside
  have hptk : r.1.entry.ptk = pairwiseKey c l.ae.entry.bk l.ae.entry.addid
      (UcastKeyRespFrame.read f.body).aeChallenge f.asueChallenge := by
    rw [hside, completed_ptk, hchal]
    rfl
  have huskid : r.1.entry.uskid =
      if uskRenewIsOn (UcastKeyRespFrame.read f.body).flag then
        (UcastKeyRespFrame.read f.body).uskid else l.ae.entry.uskid := by
    rw [hside, completed_uskid]
  have hlog : (l.aeActs f.body r).installed =
      l.installed ++ [⟨r.1.entry.uskid, r.1.entry.ptk, f.body⟩] := by
    simp [Link.aeActs, hinst]
  constructor
  · rw [hlog]
    intro i hi
    rcases List.mem_append.mp hi with hold | hlast
    · exact h.answered i hold
    · rw [List.mem_singleton.mp hlast]
      exact ⟨f, hf, hresp, rfl, _, _, hptk⟩
  · rw [hlog, List.map_append]
    refine List.nodup_append.mpr ⟨h.once, by simp, ?_⟩
    intro pair hold pair' hlast heq
    obtain ⟨i, hi, rfl⟩ := List.mem_map.mp hold
    rw [List.map_singleton, List.mem_singleton] at hlast
    have hpair : i.pair = (r.1.entry.uskid, r.1.entry.ptk) := heq.trans hlast
    have hiusk : i.uskid = r.1.entry.uskid := congrArg Prod.fst hpair
    have hiptk : i.ptk = r.1.entry.ptk := congrArg Prod.snd hpair
    obtain ⟨g, hg, hgresp, hbody, bk, addid, hkey⟩ := h.answered i hi
    -- the same key means the same challenges, and so the same response
    have hsame := hkdf _ _ _ _ _ _ _ _ ((hkey.symm.trans hiptk).trans hptk)
    have hgf := hhist.unique g hg f hf hgresp hresp hsame.2
    apply hnew
    exact ⟨hstate, hvalid, hchal, hidx, hwie, hmalloc, hsend, i, hi, by rw [← hbody, hgf],
      hiusk.trans huskid⟩

/-- Such a response does install the pair again when the AE derives the key of then from it. -/
theorem accepted_again {f : Frame} {hdr : Bytes 12} {stale : List U8} {env : Env} {i : Install}
    (hi : i ∈ l.installed)
    (hacc : AcceptsUcastKeyResp c env (.received hdr f.body stale) l.ae)
    (hkey : i.pair =
      (l.ae.completed c (UcastKeyRespFrame.read (Elem.received hdr f.body stale).body)).pair) :
    ¬((l.aeActs f.body
      (waiPeerUcastKeyRespAction c env (.received hdr f.body stale) l.ae)).installed.map
        Install.pair).Nodup := by
  rw [waiPeerUcastKeyRespAction_accepts hacc]
  intro honce
  have hlog := List.nodup_append.mp (List.map_append .. ▸ honce)
  exact hlog.2.2 i.pair (List.mem_map_of_mem hi) _ (List.mem_singleton_self _) hkey

end Keys

section Runs

variable {c : Crypto} {l l' : Link} {drawn : List Nonce} {e : Event}

/-- What holds of a link whose station has used the nonces `drawn`. -/
def KeysOnce (c : Crypto) (l : Link) (drawn : List Nonce) : Prop := History l drawn ∧ Accounted c l

theorem KeysOnce.aeTrigger {t : Trigger} {env : Env} (h : KeysOnce c l drawn)
    (hstep : l.step c (.aeTrigger t env) = some l') : KeysOnce c l' drawn := by
  simp only [Link.step] at hstep
  split at hstep
  · rename_i hrole
    obtain ⟨r, hr, rfl⟩ := Option.map_eq_some_iff.mp hstep
    obtain ⟨hinst, hframes⟩ := aeTrigger_effects (Bool.and_eq_true_iff.mp hrole).2 hr
    refine ⟨h.1.aeActs ?_, h.2.aeActs hinst⟩
    intro f hf
    rcases hframes f hf with hreq | hnotify
    · exact Or.inl hreq
    · exact Or.inr (Or.inr hnotify)
  · cases hstep

theorem KeysOnce.aeReceive {n : Nat} {hdr : Bytes 12} {stale : List U8} {env : Env}
    (hkdf : KdfInjective c) (h : KeysOnce c l drawn)
    (hnew : Unrepeated l (.aeReceive n hdr stale env))
    (hstep : l.step c (.aeReceive n hdr stale env) = some l') : KeysOnce c l' drawn := by
  simp only [Link.step] at hstep
  obtain ⟨f, hf, hstep⟩ := Option.bind_eq_some_iff.mp hstep
  obtain ⟨r, hr, rfl⟩ := Option.map_eq_some_iff.mp hstep
  have hmem : f ∈ l.fromAsue := List.mem_of_getElem? hf
  rcases aeReceive_effects (h.1.asueTypes f hmem) hr with
    ⟨hsent, hinst⟩ | ⟨hresp, hstate, hacc, hside, ⟨body, hsent⟩, hinst⟩
  · refine ⟨h.1.aeActs ?_, h.2.aeActs hinst⟩
    intro g hg
    rw [hsent] at hg
    cases hg
  · refine ⟨h.1.aeActs ?_,
      h.2.accepts hkdf h.1 hmem hresp hstate hacc hside hinst (hnew f hf hresp)⟩
    intro g hg
    rw [hsent, List.mem_singleton] at hg
    rw [hg]
    exact Or.inr (Or.inl rfl)

theorem KeysOnce.asueTrigger {t : Trigger} {env : Env} (h : KeysOnce c l drawn)
    (hfresh : env.random ∉ drawn) (hstep : l.step c (.asueTrigger t env) = some l') :
    KeysOnce c l' (drawn ++ [env.random]) := by
  simp only [Link.step] at hstep
  split at hstep
  · rename_i hrole
    obtain ⟨r, hr, rfl⟩ := Option.map_eq_some_iff.mp hstep
    have hframes := asueTrigger_frames (Bool.and_eq_true_iff.mp hrole).2 hr
    exact ⟨h.1.asueActs hframes hfresh, h.2.asueActs⟩
  · cases hstep

theorem KeysOnce.asueReceive {n : Nat} {hdr : Bytes 12} {stale : List U8} {env : Env}
    (h : KeysOnce c l drawn) (hfresh : env.random ∉ drawn)
    (hstep : l.step c (.asueReceive n hdr stale env) = some l') :
    KeysOnce c l' (drawn ++ [env.random]) := by
  simp only [Link.step] at hstep
  obtain ⟨f, hf, hstep⟩ := Option.bind_eq_some_iff.mp hstep
  obtain ⟨r, hr, rfl⟩ := Option.map_eq_some_iff.mp hstep
  have hmem : f ∈ l.fromAe := List.mem_of_getElem? hf
  exact ⟨h.1.asueActs (asueReceive_frames (h.1.aeTypes f hmem) hr) hfresh, h.2.asueActs⟩

theorem append_no_nonce (h : e.asueNonce = none) : drawn ++ e.asueNonce.toList = drawn := by
  rw [h, Option.toList_none, List.append_nil]

theorem KeysOnce.step (hkdf : KdfInjective c) (h : KeysOnce c l drawn) (hnew : Unrepeated l e)
    (hfresh : ∀ nonce ∈ e.asueNonce, nonce ∉ drawn) (hstep : l.step c e = some l') :
    KeysOnce c l' (drawn ++ e.asueNonce.toList) := by
  cases e with
  | aeTrigger t env =>
    rw [append_no_nonce rfl]
    exact h.aeTrigger hstep
  | asueTrigger t env => exact h.asueTrigger (hfresh _ rfl) hstep
  | aeReceive n hdr stale env =>
    rw [append_no_nonce rfl]
    exact h.aeReceive hkdf hnew hstep
  | asueReceive n hdr stale env => exact h.asueReceive (hfresh _ rfl) hstep
  | aeReinsert =>
    cases hstep
    rw [append_no_nonce rfl]
    exact ⟨⟨h.1.aeTypes, h.1.asueTypes, h.1.used, h.1.unique⟩, ⟨h.2.answered, h.2.once⟩⟩
  | asueReinsert =>
    cases hstep
    rw [append_no_nonce rfl]
    exact ⟨⟨h.1.aeTypes, h.1.asueTypes, h.1.used, h.1.unique⟩, ⟨h.2.answered, h.2.once⟩⟩

theorem KeysOnce.start (ae asue : Side) : KeysOnce c (.start ae asue) [] :=
  ⟨⟨by simp [Link.start], by simp [Link.start], by simp [Link.start], by simp [Link.start]⟩,
    ⟨by simp [Link.start], by simp [Link.start]⟩⟩

theorem asueNonces_snoc (es : List Event) (e : Event) :
    asueNonces (es ++ [e]) = asueNonces es ++ e.asueNonce.toList := by
  unfold asueNonces
  rw [List.filterMap_append]
  cases h : e.asueNonce with
  | none => simp [h]
  | some nonce => simp [h]

/-- A whole run keeps the account, by induction on its steps. -/
theorem KeysOnce.run {ae asue : Side} {es : List Event} (hkdf : KdfInjective c)
    (hrun : Run (Guarded Unrepeated (Toolkit.Graph (Link.step c))) (.start ae asue) es l)
    (hfresh : (asueNonces es).Nodup) : KeysOnce c l (asueNonces es) := by
  induction hrun with
  | nil => exact .start ae asue
  | snoc _ hstep ih =>
    rw [asueNonces_snoc] at hfresh ⊢
    obtain ⟨hbefore, -, hdistinct⟩ := List.nodup_append.mp hfresh
    apply (ih hbefore).step hkdf hstep.1 _ hstep.2
    intro nonce hnonce hold
    exact hdistinct nonce hold nonce (by simpa using hnonce) rfl

end Runs

/-- Where the key derivation is injective in the challenges and the nonces of the station are
fresh, the AE gives no pair of index and PTK to its driver twice, in any run in which it is not
handed a response again that it has installed that pair for. -/
theorem no_key_installed_twice (c : Crypto) (hkdf : KdfInjective c) (ae asue : Side)
    (es : List Event) (l : Link)
    (hrun : Run (Guarded Unrepeated (Toolkit.Graph (Link.step c))) (.start ae asue) es l)
    (hfresh : (asueNonces es).Nodup) : (l.installed.map Install.pair).Nodup :=
  (KeysOnce.run hkdf hrun hfresh).2.once

def exampleHandshake : List Event :=
  [.aeTrigger .triggerTimer (exampleEnv 1), .asueReceive 0 (.zero 12) [] (exampleEnv 2),
    .aeReceive 0 (.zero 12) [] (exampleEnv 3)]

instance (l : Link) (f : Frame) (hdr : Bytes 12) (stale : List U8) (env : Env) :
    Decidable (l.repeats f hdr stale env) := by
  unfold Link.repeats
  infer_instance

instance : ∀ (l : Link) (e : Event), Decidable (Unrepeated l e)
  | _, .aeReceive _ _ _ _ => by
    unfold Unrepeated
    infer_instance
  | _, .aeTrigger _ _ => isTrue trivial
  | _, .asueTrigger _ _ => isTrue trivial
  | _, .asueReceive _ _ _ _ => isTrue trivial
  | _, .aeReinsert => isTrue trivial
  | _, .asueReinsert => isTrue trivial

theorem pairwiseKey_plain (bk : Bytes 16) (addid : Bytes 12) (anonce snonce : Nonce) :
    (pairwiseKey plainCrypto bk addid anonce snonce).val =
      anonce.val ++ (snonce.val ++ snonce.val) := by
  have htext : slice (pairwiseText addid anonce snonce) 12 64 = anonce.val ++ snonce.val := by
    unfold pairwiseText
    rw [slice_skip addid _ _ _ (Nat.le_refl _), slice, ← List.append_assoc, List.drop_zero]
    exact List.take_left' (by simp)
  have hagain : slice (pairwiseText addid anonce snonce) 44 32 = snonce.val := by
    unfold pairwiseText
    rw [slice_skip addid _ _ _ (by omega), slice_skip anonce _ _ _ (by omega), slice,
      List.drop_zero]
    exact List.take_left' (by simp)
  have hkey : (pairwiseKey plainCrypto bk addid anonce snonce).val =
      (anonce.val ++ snonce.val ++ snonce.val ++ pairwiseText addid anonce snonce).take 96 := by
    change (padded 96 (slice (pairwiseText addid anonce snonce) 12 64 ++
      slice (pairwiseText addid anonce snonce) 44 32 ++ pairwiseText addid anonce snonce)).val = _
    rw [htext, hagain, padded_of_le (by simp; omega)]
  rw [hkey, List.take_left' (by simp), List.append_assoc]

theorem plainCrypto_kdfInjective : KdfInjective plainCrypto := by
  intro bk bk' addid addid' anonce anonce' snonce snonce' h
  have hval := congrArg Subtype.val h
  rw [pairwiseKey_plain, pairwiseKey_plain] at hval
  obtain ⟨hanonce, hrest⟩ := Bytes.append_inj hval
  exact ⟨hanonce, (Bytes.append_inj hrest).1⟩

theorem no_key_installed_twice_handshake :
    ∃ l, exec (guardStep Unrepeated (Link.step plainCrypto)) (.start exampleAe exampleAsue)
        exampleHandshake = some l ∧
      l.installed.length = 1 ∧ (l.installed.map Install.pair).Nodup := by
  obtain ⟨l, hl, hone⟩ := (Option.any_eq_true _ _).mp (by decide +kernel :
    (exec (guardStep Unrepeated (Link.step plainCrypto)) (.start exampleAe exampleAsue)
      exampleHandshake).any (fun l => decide (l.installed.length = 1)) = true)
  exact ⟨l, hl, of_decide_eq_true hone,
    no_key_installed_twice plainCrypto plainCrypto_kdfInjective exampleAe exampleAsue
      exampleHandshake l (exec_guarded_run hl) (by decide)⟩

def exampleReplay : List Event := exampleHandshake ++ [.aeReceive 0 (.zero 12) [] (exampleEnv 4)]

theorem replay_installs_again :
    ¬∀ (c : Crypto), KdfInjective c → ∀ (ae asue : Side) (es : List Event) (l : Link),
      ae.entry.bk = asue.entry.bk →
      Run (Toolkit.Graph (Link.step c)) (.start ae asue) es l → (asueNonces es).Nodup →
      (l.installed.map Install.pair).Nodup := by
  intro h
  obtain ⟨l, hl, hdup⟩ := (Option.any_eq_true _ _).mp (by decide +kernel :
    (exec (Link.step plainCrypto) (.start exampleAe exampleAsue) exampleReplay).any
      (fun l => decide (¬(l.installed.map Install.pair).Nodup)) = true)
  have honce := h plainCrypto plainCrypto_kdfInjective exampleAe exampleAsue exampleReplay l rfl
    (exec_run hl) (by decide)
  exact of_decide_eq_true hdup honce

end OpenwrtMtk.Wapi
