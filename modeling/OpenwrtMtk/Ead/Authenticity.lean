import OpenwrtMtk.Ead.Session

/-!
# What an ead server executes

The client and the server share the key, the start of the vectors and their increments, and the
type of a message is outside the encryption. So the network can turn an output packet of the
server around: what is executed was encrypted in the session, by the client as a command or
by the server as console output.
-/

namespace OpenwrtMtk.Ead

open Toolkit

set_option autoImplicit false

inductive Party where
  | client | server
  deriving DecidableEq

/-- An encrypted message and who made it. -/
structure Message where
  sender : Party
  m : Sealed
  deriving DecidableEq

/-- One session: the server, the client, what they encrypted and what the server executed. -/
structure Link where
  server : State
  client : Crypt
  sealed : List Message
  executed : List Executed

inductive LinkEvent where
  /-- The client encrypts a command. -/
  | command (data : List U8) (stale : Nat → U8)
  /-- The network hands a frame to the server. -/
  | deliver (o : Oracle) (pkt : Packet)

def executedOf (effects : List Effect) : List Executed :=
  effects.filterMap fun
    | .executed x => some x
    | _ => none

def sealedOf (effects : List Effect) : List Sealed :=
  effects.filterMap fun
    | .sealed m => some m
    | _ => none

def Packet.body (pkt : Packet) : List U8 := pkt.data.take pkt.len.toInt.toNat

/-- The ideal cipher and hash: what decrypts with a right hash was encrypted in the session. -/
def Genuine (K : Cipher) (link : Link) (pkt : Packet) : Prop :=
  0 < pkt.len.toInt →
    hashMatches K pkt.len.toInt.toNat (plainOf K link.server.crypt.key pkt.len pkt.data) = true →
    ∃ x ∈ link.sealed, x.m.wire = pkt.body

instance (K : Cipher) (link : Link) (pkt : Packet) : Decidable (Genuine K link pkt) :=
  inferInstanceAs (Decidable (_ → _ → _))

/-- The network may do anything to a frame but forge an encrypted part. The session lasts as long
as the server waits for commands. -/
def linkStep (cfg : Config) (K : Cipher) (link : Link) : LinkEvent → Option Link
  | .command data stale =>
    let (c, m) := eadEncryptMessage K link.client data stale
    some { link with client := c, sealed := link.sealed ++ [⟨.client, m⟩] }
  | .deliver o pkt =>
    if link.server.state = .sendCmd ∧ pkt.hlen < 2 ^ 31 ∧ Genuine K link pkt then
      match handlePacket cfg K o link.server pkt with
      | .ok (s, effects) => some { link with
          server := s
          sealed := link.sealed ++ (sealedOf effects).map (⟨.server, ·⟩)
          executed := link.executed ++ executedOf effects }
      | .error _ => none
    else none

/-- Both sides right after the login, with the same session key. -/
structure LinkStart (skey : List U8) (link : Link) : Prop where
  state : link.server.state = .sendCmd
  server : ∃ c, link.server.crypt = eadSetKey c skey
  client : ∃ c, link.client = eadSetKey c skey
  sealed : link.sealed = []
  executed : link.executed = []

def commandOf (data : List U8) : List U8 := (data.drop 3).takeWhile (· ≠ 0)

section Sealing

variable {K : Cipher} {key : List U8} {m m' : Sealed}

def Sealed.plain (K : Cipher) (m : Sealed) : List U8 :=
  layOut (K.sha (layOut zeroHash m.iv m.data m.padding)) m.iv m.data m.padding

/-- The message is what `ead_encrypt_message` makes of its parts. -/
structure WellSealed (K : Cipher) (key : List U8) (m : Sealed) : Prop where
  padding : m.padding.length = padLength m.data.length
  wire : m.wire = mapBlocks (K.encrypt key) ((m.plain K).length / 16) (m.plain K)

theorem length_plain (m : Sealed) :
    (m.plain K).length = m.data.length + sizeofEncrypted + m.padding.length :=
  length_layOut _ _ _ (K.length_sha _)

theorem WellSealed.blocks (h : WellSealed K key m) : (m.plain K).length % 64 = 0 :=
  length_layOut_padded _ _ _ (K.length_sha _) h.padding

theorem WellSealed.length_wire (h : WellSealed K key m) :
    m.wire.length = (m.plain K).length := by
  rw [h.wire]
  apply length_mapBlocks (K.length_encrypt key)
  omega

theorem WellSealed.decrypt (h : WellSealed K key m) (rest : List U8) :
    mapBlocks (K.decrypt key) (m.wire.length / 16) (m.wire ++ rest) = m.plain K ++ rest := by
  have hblocks := h.blocks
  rw [h.length_wire, h.wire]
  apply mapBlocks_decrypt_encrypt
  omega

theorem plain_iv (m : Sealed) (rest : List U8) : slice (m.plain K ++ rest) 20 4 = htonl m.iv := by
  unfold slice Sealed.plain layOut
  simp only [List.append_assoc]
  rw [List.drop_left' (K.length_sha _), List.take_left' (length_htonl m.iv)]

theorem plain_pad (m : Sealed) (rest : List U8) :
    (m.plain K ++ rest).getD 24 0 = BitVec.ofNat 8 m.padding.length := by
  have hhead : (K.sha (layOut zeroHash m.iv m.data m.padding) ++ htonl m.iv).length = 24 := by
    rw [List.length_append, K.length_sha, length_htonl]
  rw [List.getD_eq_getElem?_getD, Sealed.plain, layOut]
  simp only [List.append_assoc]
  rw [← List.append_assoc, List.getElem?_append_right (by omega), hhead]
  rfl

theorem plain_data (m : Sealed) (rest : List U8) :
    (m.plain K ++ rest).drop sizeofEncrypted = m.data ++ (m.padding ++ rest) := by
  have hhead : (K.sha (layOut zeroHash m.iv m.data m.padding) ++ htonl m.iv ++
      [BitVec.ofNat 8 m.padding.length]).length = sizeofEncrypted := by
    rw [List.length_append, List.length_append, K.length_sha, length_htonl]
    rfl
  rw [Sealed.plain, layOut, List.append_assoc, List.append_assoc, List.drop_left' hhead]

theorem WellSealed.iv_eq (h : WellSealed K key m) (h' : WellSealed K key m')
    (hwire : m.wire = m'.wire) : m.iv = m'.iv := by
  have hplain := h.decrypt []
  rw [hwire, h'.decrypt []] at hplain
  have hiv := congrArg (fun bytes => ntohl (slice bytes 20 4)) hplain
  simp only [plain_iv, ntohl_htonl] at hiv
  exact hiv.symm

theorem encrypt_wellSealed (K : Cipher) (c : Crypt) (data : List U8) (stale : Nat → U8) :
    WellSealed K c.key (eadEncryptMessage K c data stale).2 :=
  ⟨by simp [eadEncryptMessage], rfl⟩

theorem stream_sealed (K : Cipher) : ∀ (chunks : List Chunk) (c : Crypt),
    (streamOutput K c chunks).1.key = c.key ∧ (streamOutput K c chunks).1.rxIv = c.rxIv ∧
      ∀ m ∈ (streamOutput K c chunks).2, WellSealed K c.key m ∧ ∃ bytes, m.data = 0 :: bytes := by
  intro chunks
  induction chunks with
  | nil => intro c; exact ⟨rfl, rfl, by simp [streamOutput]⟩
  | cons chunk chunks ih =>
    intro c
    obtain ⟨hkey, hrx, hall⟩ := ih (eadEncryptMessage K c (0 :: chunk.bytes) chunk.stale).1
    refine ⟨hkey, hrx, ?_⟩
    intro m hm
    rcases List.mem_cons.mp hm with rfl | hm
    · exact ⟨encrypt_wellSealed K c _ _, chunk.bytes, rfl⟩
    · exact hall m hm

end Sealing

section Accept

variable {K : Cipher} {c c' : Crypt} {len n : U32} {data plain : List U8}

/-- What `ead_decrypt_message` found when it does not return 0. -/
structure Accepted (K : Cipher) (c c' : Crypt) (len n : U32) (data plain : List U8) : Prop where
  blocks : len ≠ 0 ∧ len.toInt.tmod eadEncPad ≤ 0
  inside : len.toInt.toNat ≤ data.length
  buffer : plain = plainOf K c.key len data
  pad : (plain.getD 24 0).toNat < eadEncPad
  iv : c'.rxIv = ntohl (slice plain 20 4)
  fresh : c.rxIv < c'.rxIv
  hash : hashMatches K len.toInt.toNat plain = true
  result : n = len - BitVec.ofNat 32 ((plain.getD 24 0).toNat + sizeofEncrypted)

theorem eadDecryptMessage_ok (h : eadDecryptMessage K c len data = .ok (c', n, plain)) :
    c.rxIv ≤ c'.rxIv ∧ (n = 0 ∨ Accepted K c c' len n data plain) := by
  unfold eadDecryptMessage at h
  split at h
  · obtain ⟨rfl, hrest⟩ := Prod.mk.inj (Except.ok.inj h)
    exact ⟨BitVec.le_refl _, Or.inl (Prod.mk.inj hrest).1.symm⟩
  · rename_i hblocks
    split at h
    · cases h
    · rename_i hinside
      dsimp only at h
      split at h
      · obtain ⟨rfl, hrest⟩ := Prod.mk.inj (Except.ok.inj h)
        exact ⟨BitVec.le_refl _, Or.inl (Prod.mk.inj hrest).1.symm⟩
      · rename_i hpad
        split at h
        · obtain ⟨rfl, hrest⟩ := Prod.mk.inj (Except.ok.inj h)
          exact ⟨BitVec.le_refl _, Or.inl (Prod.mk.inj hrest).1.symm⟩
        · rename_i iv hiv
          obtain ⟨rfl, hfresh⟩ := checkRxIv_some hiv
          split at h
          · rename_i hhash
            obtain ⟨rfl, hrest⟩ := Prod.mk.inj (Except.ok.inj h)
            obtain ⟨hn, rfl⟩ := Prod.mk.inj hrest
            refine ⟨BitVec.le_of_lt hfresh, Or.inr ⟨?_, by omega, rfl, by omega, rfl, hfresh, hhash,
              hn.symm⟩⟩
            exact ⟨fun hzero => hblocks (Or.inl hzero), by omega⟩
          · obtain ⟨rfl, hrest⟩ := Prod.mk.inj (Except.ok.inj h)
            exact ⟨BitVec.le_of_lt hfresh, Or.inl (Prod.mk.inj hrest).1.symm⟩

theorem wrapped_len {cfg : Config} {pkt : Packet} {pad : Nat} (hframe : wellFramed cfg pkt)
    (hlen : pkt.hlen < 2 ^ 31) (hneg : ¬ 0 < pkt.len.toInt) (hzero : pkt.len ≠ 0)
    (hpad : pad < eadEncPad) :
    (pkt.len - BitVec.ofNat 32 (pad + sizeofEncrypted) - 3).toInt ≤ 0 := by
  obtain ⟨_, _, _, _, _, _, hsum, _⟩ := hframe
  simp only [eadEncPad, sizeofEncrypted, sizeofPacket] at *
  have hne : pkt.len.toNat ≠ 0 := fun h => hzero (BitVec.eq_of_toNat_eq (by simpa using h))
  have hlt := pkt.len.isLt
  have hthree : (3 : U32).toNat = 3 := rfl
  simp only [BitVec.toInt_eq_toNat_cond, BitVec.toNat_sub, BitVec.toNat_add,
    BitVec.toNat_ofNat, hthree] at *
  split at hneg
  · omega
  · split <;> omega

end Accept

section Step

variable {cfg : Config} {K : Cipher} {o : Oracle} {pkt : Packet} {s s' : State}
  {effects : List Effect} {h : Handled}

theorem effects_ran (x : Executed) (ms : List Sealed) :
    executedOf (.decrypting :: .executed x :: ms.map .sealed) = [x] ∧
      sealedOf (.decrypting :: .executed x :: ms.map .sealed) = ms := by
  refine ⟨?_, ?_⟩
  · simp [executedOf, List.filterMap_map]
  · simp [sealedOf, List.filterMap_map]

/-- What one command message does: nothing, or one command is executed and its output encrypted. -/
inductive CmdResult (K : Cipher) (s : State) (pkt : Packet) (h : Handled) : Prop where
  | refused (rx : U32) : s.crypt.rxIv ≤ rx → h.s.crypt.key = s.crypt.key → h.s.crypt.rxIv = rx →
      executedOf h.effects = [] → sealedOf h.effects = [] → CmdResult K s pkt h
  | ran (c : Crypt) (n : U32) (plain : List U8) (x : Executed) (ms : List Sealed) :
      Accepted K s.crypt c pkt.len n pkt.data plain → 0 < (n - 3).toInt →
      x = ⟨pkt.body, ntohl (slice plain 20 4), commandText plain (n - 3).toInt.toNat⟩ →
      executedOf h.effects = [x] → sealedOf h.effects = ms →
      (∀ m ∈ ms, WellSealed K s.crypt.key m ∧ (m.data = [1] ∨ ∃ bytes, m.data = 0 :: bytes)) →
      h.s.crypt.key = s.crypt.key → h.s.crypt.rxIv = c.rxIv → CmdResult K s pkt h

theorem handleSendCmd_result (hok : handleSendCmd K o s pkt = .ok h) : CmdResult K s pkt h := by
  unfold handleSendCmd at hok
  cases hdec : eadDecryptMessage K s.crypt pkt.len pkt.data with
  | error f => simp [hdec] at hok
  | ok r =>
    obtain ⟨c, n, plain⟩ := r
    have hkey := eadDecryptMessage_key hdec
    obtain ⟨hrx, haccepted⟩ := eadDecryptMessage_ok hdec
    simp only [hdec] at hok
    split at hok
    · obtain rfl := Except.ok.inj hok
      exact .refused c.rxIv hrx hkey rfl rfl rfl
    · rename_i hpos
      have hacc : Accepted K s.crypt c pkt.len n pkt.data plain := by
        rcases haccepted with rfl | hacc
        · exact absurd hpos (by decide)
        · exact hacc
      split at hok
      · obtain rfl := Except.ok.inj hok
        obtain ⟨hstreamKey, hstreamRx, hstream⟩ := stream_sealed K o.chunks c
        unfold runNormal
        cases o.finished with
        | true =>
          obtain ⟨hexec, hsealed⟩ := effects_ran
            ⟨pkt.body, ntohl (slice plain 20 4), commandText plain (n - 3).toInt.toNat⟩
            ((streamOutput K c o.chunks).2 ++
              [(eadEncryptMessage K (streamOutput K c o.chunks).1 [1] o.stale).2])
          refine .ran c n plain _ _ hacc (by omega) rfl hexec hsealed ?_
            (hstreamKey.trans hkey) hstreamRx
          intro m hm
          rw [← hkey]
          rcases List.mem_append.mp hm with hm | hm
          · exact ⟨(hstream m hm).1, Or.inr (hstream m hm).2⟩
          · obtain rfl := List.mem_singleton.mp hm
            rw [← hstreamKey]
            exact ⟨encrypt_wellSealed K _ _ _, Or.inl rfl⟩
        | false =>
          obtain ⟨hexec, hsealed⟩ := effects_ran
            ⟨pkt.body, ntohl (slice plain 20 4), commandText plain (n - 3).toInt.toNat⟩
            (streamOutput K c o.chunks).2
          refine .ran c n plain _ _ hacc (by omega) rfl hexec hsealed ?_
            (hstreamKey.trans hkey) hstreamRx
          intro m hm
          rw [← hkey]
          exact ⟨(hstream m hm).1, Or.inr (hstream m hm).2⟩
      · obtain rfl := Except.ok.inj hok
        obtain ⟨hexec, hsealed⟩ := effects_ran
          ⟨pkt.body, ntohl (slice plain 20 4), commandText plain (n - 3).toInt.toNat⟩
          [(eadEncryptMessage K c [1] o.stale).2]
        refine .ran c n plain _ _ hacc (by omega) rfl hexec hsealed ?_ hkey rfl
        intro m hm
        obtain rfl := List.mem_singleton.mp hm
        rw [← hkey]
        exact ⟨encrypt_wellSealed K _ _ _, Or.inl rfl⟩
      · obtain rfl := Except.ok.inj hok
        exact .refused c.rxIv hrx hkey rfl rfl rfl

theorem executedOf_append (xs ys : List Effect) :
    executedOf (xs ++ ys) = executedOf xs ++ executedOf ys := List.filterMap_append

theorem sealedOf_append (xs ys : List Effect) :
    sealedOf (xs ++ ys) = sealedOf xs ++ sealedOf ys := List.filterMap_append

def Silent (effects : List Effect) : Prop := executedOf effects = [] ∧ sealedOf effects = []

theorem Silent.append {xs ys : List Effect} (hx : Silent xs) (hy : Silent ys) :
    Silent (xs ++ ys) := by
  refine ⟨?_, ?_⟩
  · rw [executedOf_append, hx.1, hy.1]
    rfl
  · rw [sealedOf_append, hx.2, hy.2]
    rfl

theorem silent_sent (t : EadType) (reply : Option (List U8)) :
    Silent (reply.toList.map fun body => Effect.sent ⟨t.code + 1, cfg.nid, pkt.sid, body⟩) := by
  cases reply <;> exact ⟨rfl, rfl⟩

theorem setState_crypt {nstate : EadType} (hne : s.state ≠ .sendA)
    (h : setState o s nstate = .ok (s', effects)) : s'.crypt = s.crypt ∧ Silent effects := by
  unfold setState at h
  split at h
  · obtain ⟨rfl, rfl⟩ := Prod.mk.inj (Except.ok.inj h)
    exact ⟨rfl, rfl, rfl⟩
  · split at h
    · split at h
      · cases hserver : s.server with
        | error f => simp [hserver, Except.map] at h
        | ok r =>
          simp only [hserver, Except.map] at h
          obtain ⟨rfl, rfl⟩ := Prod.mk.inj (Except.ok.inj h)
          exact ⟨rfl, rfl, rfl⟩
      · obtain ⟨rfl, rfl⟩ := Prod.mk.inj (Except.ok.inj h)
        exact ⟨rfl, rfl, rfl⟩
    · unfold leaveState at h
      split at h
      · split at h
        · obtain ⟨rfl, rfl⟩ := Prod.mk.inj (Except.ok.inj h)
          exact ⟨rfl, rfl, rfl⟩
        · split at h <;>
          · obtain ⟨rfl, rfl⟩ := Prod.mk.inj (Except.ok.inj h)
            exact ⟨rfl, rfl, rfl⟩
      · cases hserver : s.server with
        | error f => simp [hserver, Except.map] at h
        | ok r =>
          simp only [hserver, Except.map] at h
          obtain ⟨rfl, rfl⟩ := Prod.mk.inj (Except.ok.inj h)
          exact ⟨rfl, rfl, rfl⟩
      · rename_i hstate
        exact absurd hstate hne
      · obtain ⟨rfl, rfl⟩ := Prod.mk.inj (Except.ok.inj h)
        exact ⟨rfl, rfl, rfl⟩

theorem setState_close (hstate : s.state = .sendCmd)
    (h : setState o s .setUsername = .ok (s', effects)) : s'.state = .setUsername := by
  rw [setState, hstate, if_neg (by decide), if_pos (by decide), if_pos (by decide)] at h
  cases hserver : s.server with
  | error f => simp [hserver, Except.map] at h
  | ok r =>
    simp only [hserver, Except.map] at h
    obtain ⟨rfl, _⟩ := Prod.mk.inj (Except.ok.inj h)
    rfl

theorem finish_ok {t : EadType} (hfinish : finish cfg o pkt t h = .ok (s', effects)) :
    ∃ sent after, Silent sent ∧ setState o h.s h.nstate = .ok (s', after) ∧
      effects = h.effects ++ sent ++ after := by
  unfold finish at hfinish
  cases hset : setState o h.s h.nstate with
  | error f => simp [hset, Except.map] at hfinish
  | ok r =>
    simp only [hset, Except.map] at hfinish
    obtain ⟨rfl, rfl⟩ := Prod.mk.inj (Except.ok.inj hfinish)
    exact ⟨_, r.2, silent_sent t h.reply, rfl, rfl⟩

/-- What a packet does while the server waits for commands: a command, or nothing to the key, the
vectors, the commands and the messages. -/
theorem parseMessage_sendCmd (hstate : s.state = .sendCmd)
    (hok : parseMessage cfg K o s pkt = .ok (s', effects)) :
    (s'.crypt = s.crypt ∧ Silent effects) ∨
      ∃ h : Handled, handleSendCmd K o s pkt = .ok h ∧ s' = h.s ∧
        executedOf effects = executedOf h.effects ∧ sealedOf effects = sealedOf h.effects := by
  unfold parseMessage at hok
  cases htype : eadType pkt.type with
  | none =>
    simp only [htype] at hok
    obtain ⟨rfl, rfl⟩ := Prod.mk.inj (Except.ok.inj hok)
    exact Or.inl ⟨rfl, rfl, rfl⟩
  | some t =>
    simp only [htype] at hok
    split at hok
    · rename_i hdispatch
      split at hok
      · obtain ⟨rfl, rfl⟩ := Prod.mk.inj (Except.ok.inj hok)
        exact Or.inl ⟨rfl, rfl, rfl⟩
      · rename_i need handled hhandler
        split at hok
        · obtain ⟨rfl, rfl⟩ := Prod.mk.inj (Except.ok.inj hok)
          exact Or.inl ⟨rfl, rfl, rfl⟩
        · obtain ⟨h, rfl, hfinish⟩ : ∃ h, handled = .ok h ∧
              finish cfg o pkt t h = .ok (s', effects) := by
            cases handled with
            | error f => simp [Except.bind] at hok
            | ok h => exact ⟨h, rfl, hok⟩
          obtain ⟨sent, after, hsent, hset, rfl⟩ := finish_ok hfinish
          rcases hdispatch.1 with hlow | heq
          · left
            cases t with
            | ping =>
              obtain ⟨_, hh⟩ := Prod.mk.inj (Option.some.inj hhandler)
              obtain rfl := Except.ok.inj hh
              obtain ⟨hcrypt, hafter⟩ := setState_crypt (by rw [hstate]; decide) hset
              exact ⟨hcrypt, (Silent.append ⟨rfl, rfl⟩ hsent).append hafter⟩
            | setUsername =>
              obtain ⟨_, hh⟩ := Prod.mk.inj (Option.some.inj hhandler)
              unfold handleSetUsername at hh
              cases hback : setState o s .setUsername with
              | error f => simp [hback, Except.map] at hh
              | ok r =>
                simp only [hback, Except.map] at hh
                obtain rfl := Except.ok.inj hh
                obtain ⟨hcrypt, hclosed⟩ := setState_crypt (by rw [hstate]; decide) hback
                have hidle := setState_close hstate hback
                obtain ⟨hcrypt', hafter⟩ := setState_crypt (by rw [hidle]; decide) hset
                have huser : Silent [Effect.userSet (userName pkt.data)] := ⟨rfl, rfl⟩
                exact ⟨hcrypt'.trans hcrypt, ((hclosed.append huser).append hsent).append hafter⟩
            | pong => cases hhandler
            | ackUsername => cases hhandler
            | _ => exact absurd hlow (by decide)
          · right
            obtain rfl : EadType.sendCmd = t := by rw [← hstate, heq]
            obtain ⟨_, hh⟩ := Prod.mk.inj (Option.some.inj hhandler)
            obtain ⟨hn, _, c, hs, _⟩ := handleSendCmd_ok hh
            rw [hn, hs] at hset
            have hself := setState_self o { s with crypt := c }
            obtain ⟨rfl, rfl⟩ := Prod.mk.inj (Except.ok.inj (hself.symm.trans hset))
            refine ⟨h, hh, hs.symm, ?_, ?_⟩
            · rw [List.append_nil, executedOf_append, hsent.1, List.append_nil]
            · rw [List.append_nil, sealedOf_append, hsent.2, List.append_nil]
    · obtain ⟨rfl, rfl⟩ := Prod.mk.inj (Except.ok.inj hok)
      exact Or.inl ⟨rfl, rfl, rfl⟩

end Step

section Link

variable {cfg : Config} {K : Cipher} {key : List U8} {link link' : Link} {e : LinkEvent}

/-- What holds of a session at every moment. -/
structure LinkInv (K : Cipher) (key : List U8) (link : Link) : Prop where
  serverKey : link.server.crypt.key = key
  clientKey : link.client.key = key
  sealed : ∀ x ∈ link.sealed, WellSealed K key x.m ∧
    (x.sender = .client ∨ x.m.data = [1] ∨ ∃ bytes, x.m.data = 0 :: bytes)
  executed : ∀ x ∈ link.executed, ∃ y ∈ link.sealed, y.m.wire = x.wire ∧ y.m.iv = x.iv ∧
    x.command = commandOf y.m.data ∧ 3 < y.m.data.length
  order : link.executed.Pairwise fun x y => x.iv < y.iv
  last : ∀ x ∈ link.executed, x.iv ≤ link.server.crypt.rxIv

theorem commandText_data (m : Sealed) (rest : List U8) :
    commandText (m.plain K ++ rest) (m.data.length - 3) = commandOf m.data := by
  unfold commandText commandOf
  rw [← List.drop_drop, plain_data, List.drop_append, List.take_append_of_le_length (by simp),
    List.take_of_length_le (by simp)]

theorem accepted_message (hinv : LinkInv K key link) {pkt : Packet} {c : Crypt} {n : U32}
    {plain : List U8} (hframe : wellFramed cfg pkt) (hlen : pkt.hlen < 2 ^ 31)
    (hgenuine : Genuine K link pkt)
    (hacc : Accepted K link.server.crypt c pkt.len n pkt.data plain) (hpos : 0 < (n - 3).toInt) :
    ∃ y ∈ link.sealed, y.m.wire = pkt.body ∧ y.m.iv = ntohl (slice plain 20 4) ∧
      commandText plain (n - 3).toInt.toNat = commandOf y.m.data ∧ 3 < y.m.data.length := by
  obtain ⟨hblocks, hinside, rfl, hpad, _, _, hhash, hresult⟩ := hacc
  have hlenpos : 0 < pkt.len.toInt := by
    by_contra hneg
    have hle := wrapped_len hframe hlen hneg hblocks.1 hpad
    rw [← hresult] at hle
    omega
  obtain ⟨y, hy, hwire⟩ := hgenuine hlenpos hhash
  have hwell := (hinv.sealed y hy).1
  have hwireLen : y.m.wire.length = pkt.len.toInt.toNat := by
    rw [hwire, Packet.body, List.length_take]
    omega
  -- the decrypted frame is the message as it was laid out, and what follows it
  have hplain : plainOf K link.server.crypt.key pkt.len pkt.data =
      y.m.plain K ++ pkt.data.drop pkt.len.toInt.toNat := by
    have hsplit : pkt.data = y.m.wire ++ pkt.data.drop pkt.len.toInt.toNat := by
      rw [hwire, Packet.body, List.take_append_drop]
    rw [plainOf, hinv.serverKey, ← hwireLen]
    conv_lhs => rw [hsplit]
    rw [hwell.decrypt, hwireLen]
  have hpadding : (BitVec.ofNat 8 y.m.padding.length).toNat = y.m.padding.length := by
    have hlt := padLength_lt y.m.data.length
    rw [BitVec.toNat_ofNat, Nat.mod_eq_of_lt]
    rw [hwell.padding]
    exact Nat.lt_trans hlt (by decide)
  rw [hplain, plain_pad, hpadding] at hresult
  have htotal := hwell.length_wire
  rw [hwireLen, length_plain] at htotal
  have hdata : 3 < y.m.data.length ∧ (n - 3).toInt.toNat = y.m.data.length - 3 := by
    have hthree : (3 : U32).toNat = 3 := rfl
    have hlt := pkt.len.isLt
    simp only [sizeofEncrypted] at hresult htotal
    subst hresult
    simp only [BitVec.toInt_eq_toNat_cond, BitVec.toNat_sub, BitVec.toNat_ofNat, hthree] at *
    split at hlenpos
    · split at hpos
      · split at htotal <;> omega
      · omega
    · omega
  refine ⟨y, hy, hwire, ?_, ?_, hdata.1⟩
  · rw [hplain, plain_iv, ntohl_htonl]
  · rw [hplain, hdata.2, commandText_data]

theorem linkStart_inv {skey : List U8} (h : LinkStart skey link) :
    LinkInv K (skey.take 32) link := by
  obtain ⟨_, ⟨c, hserver⟩, ⟨c', hclient⟩, hsealed, hexecuted⟩ := h
  refine ⟨by rw [hserver]; rfl, by rw [hclient]; rfl, ?_, ?_, ?_, ?_⟩
  · simp [hsealed]
  · simp [hexecuted]
  · simp [hexecuted]
  · simp [hexecuted]

theorem command_inv (hinv : LinkInv K key link) {data : List U8} {stale : Nat → U8}
    (hstep : linkStep cfg K link (.command data stale) = some link') : LinkInv K key link' := by
  obtain rfl := Option.some.inj hstep
  have hkey := hinv.clientKey
  refine ⟨hinv.serverKey, hkey, ?_, ?_, hinv.order, hinv.last⟩
  · intro x hx
    rcases List.mem_append.mp hx with hx | hx
    · exact hinv.sealed x hx
    · obtain rfl := List.mem_singleton.mp hx
      refine ⟨?_, Or.inl rfl⟩
      rw [← hkey]
      exact encrypt_wellSealed K link.client data stale
  · intro x hx
    obtain ⟨y, hy, hrest⟩ := hinv.executed x hx
    exact ⟨y, List.mem_append_left _ hy, hrest⟩

theorem deliver_inv (hinv : LinkInv K key link) {o : Oracle} {pkt : Packet}
    (hstep : linkStep cfg K link (.deliver o pkt) = some link') : LinkInv K key link' := by
  simp only [linkStep] at hstep
  split at hstep
  · rename_i hguard
    obtain ⟨hstate, hlen, hgenuine⟩ := hguard
    cases hpacket : handlePacket cfg K o link.server pkt with
    | error f => simp [hpacket] at hstep
    | ok r =>
      obtain ⟨s, effects⟩ := r
      simp only [hpacket] at hstep
      obtain rfl := Option.some.inj hstep
      have hquiet : s.crypt = link.server.crypt → Silent effects →
          LinkInv K key { link with
            server := s
            sealed := link.sealed ++ (sealedOf effects).map (⟨.server, ·⟩)
            executed := link.executed ++ executedOf effects } := by
        intro hcrypt hsilent
        rw [hsilent.1, hsilent.2, List.map_nil, List.append_nil, List.append_nil]
        refine ⟨by rw [hcrypt]; exact hinv.serverKey, hinv.clientKey, hinv.sealed, hinv.executed,
          hinv.order, ?_⟩
        rw [hcrypt]
        exact hinv.last
      unfold handlePacket at hpacket
      split at hpacket
      · rename_i hframe
        rcases parseMessage_sendCmd hstate hpacket with ⟨hcrypt, hsilent⟩ |
          ⟨h, hcmd, rfl, hexecuted, hsealed⟩
        · exact hquiet hcrypt hsilent
        · rw [hexecuted, hsealed]
          cases handleSendCmd_result hcmd with
          | refused rx hrx hkey hrxIv hnone hnone' =>
            rw [hnone, hnone', List.map_nil, List.append_nil, List.append_nil]
            refine ⟨hkey.trans hinv.serverKey, hinv.clientKey, hinv.sealed, hinv.executed,
              hinv.order, ?_⟩
            intro x hx
            rw [hrxIv]
            exact BitVec.le_trans (hinv.last x hx) hrx
          | ran c n plain x ms hacc hpos hx hone hms hwell hkey hrxIv =>
            obtain ⟨y, hy, hwire, hiv, htext, hlong⟩ :=
              accepted_message hinv hframe hlen hgenuine hacc hpos
            have hxiv : x.iv = c.rxIv := by rw [hx, hacc.iv]
            rw [hone, hms]
            refine ⟨hkey.trans hinv.serverKey, hinv.clientKey, ?_, ?_, ?_, ?_⟩
            · intro z hz
              rcases List.mem_append.mp hz with hz | hz
              · exact hinv.sealed z hz
              · obtain ⟨m, hm, rfl⟩ := List.mem_map.mp hz
                rw [← hinv.serverKey]
                exact ⟨(hwell m hm).1, Or.inr (hwell m hm).2⟩
            · intro z hz
              rcases List.mem_append.mp hz with hz | hz
              · obtain ⟨w, hw, hrest⟩ := hinv.executed z hz
                exact ⟨w, List.mem_append_left _ hw, hrest⟩
              · obtain rfl := List.mem_singleton.mp hz
                rw [hx]
                exact ⟨y, List.mem_append_left _ hy, hwire, hiv, htext, hlong⟩
            · -- the new vector is above every one taken before
              rw [List.pairwise_append]
              refine ⟨hinv.order, List.pairwise_singleton _ _, ?_⟩
              intro z hz w hw
              obtain rfl := List.mem_singleton.mp hw
              rw [hxiv]
              exact Nat.lt_of_le_of_lt (hinv.last z hz) hacc.fresh
            · intro z hz
              rw [hrxIv]
              rcases List.mem_append.mp hz with hz | hz
              · exact BitVec.le_trans (hinv.last z hz) (BitVec.le_of_lt hacc.fresh)
              · obtain rfl := List.mem_singleton.mp hz
                rw [hxiv]
                exact BitVec.le_refl _
      · obtain ⟨rfl, rfl⟩ := Prod.mk.inj (Except.ok.inj hpacket)
        exact hquiet rfl ⟨rfl, rfl⟩
  · cases hstep

theorem link_run {events : List LinkEvent} (hinit : LinkInv K key link)
    (hrun : Run (Graph (linkStep cfg K)) link events link') : LinkInv K key link' := by
  apply hrun.invariant (LinkInv K key) _ hinit
  intro s e s' hs hstep
  cases e with
  | command data stale => exact command_inv hs hstep
  | deliver o pkt => exact deliver_inv hs hstep

/-- Every executed command was encrypted in the session, by the client as a command or by the
server as output that is not its last, and every encrypted message is executed at most once. -/
theorem executed_was_encrypted {skey : List U8} {events : List LinkEvent}
    (hstart : LinkStart skey link) (hrun : Run (Graph (linkStep cfg K)) link events link') :
    (∀ x ∈ link'.executed, ∃ y ∈ link'.sealed, y.m.wire = x.wire ∧
      x.command = commandOf y.m.data ∧
      (y.sender = .client ∨ y.sender = .server ∧ ∃ output, y.m.data = 0 :: output)) ∧
    (link'.executed.map Executed.wire).Nodup := by
  have hinv := link_run (linkStart_inv hstart) hrun
  refine ⟨?_, ?_⟩
  · intro x hx
    obtain ⟨y, hy, hwire, _, hcommand, hlong⟩ := hinv.executed x hx
    refine ⟨y, hy, hwire, hcommand, ?_⟩
    cases hsender : y.sender with
    | client => exact Or.inl rfl
    | server =>
      rcases (hinv.sealed y hy).2 with hclient | hdone | houtput
      · rw [hsender] at hclient
        cases hclient
      · rw [hdone] at hlong
        exact absurd hlong (by decide)
      · exact Or.inr ⟨rfl, houtput⟩
  · rw [List.Nodup, List.pairwise_map]
    apply hinv.order.imp_of_mem
    intro x x' hx hx' hlt hwire
    -- equal bytes have equal vectors
    obtain ⟨y, hy, hyw, hyiv, _⟩ := hinv.executed x hx
    obtain ⟨y', hy', hyw', hyiv', _⟩ := hinv.executed x' hx'
    have hiv := (hinv.sealed y hy).1.iv_eq (hinv.sealed y' hy').1 (by rw [hyw, hwire, hyw'])
    rw [← hyiv, ← hyiv', hiv] at hlt
    exact absurd hlt (BitVec.lt_irrefl _)

end Link

def someKey : List U8 := List.replicate 36 0x31 ++ [0, 0, 0, 0]

def someLink : Link where
  server := { initialState ⟨0, []⟩ (eadSetKey noCrypt someKey) with state := .sendCmd }
  client := eadSetKey noCrypt someKey
  sealed := []
  executed := []

theorem someLink_start : LinkStart someKey someLink :=
  ⟨rfl, ⟨noCrypt, rfl⟩, ⟨noCrypt, rfl⟩, rfl, rfl⟩

/-- `send_command("ls")`. -/
def listCommand : List U8 := [0, 0, 10, 0x6c, 0x73, 0]

/-- Two packets of output; the second one starts with two zeros and `rm`. -/
def someOutput : List Chunk :=
  [⟨[0x61], fun _ => 0⟩, ⟨[0, 0, 0x72, 0x6d], fun _ => 0⟩]

def commandFrame : Packet :=
  packetOf 10 (eadEncryptMessage sumCipher someLink.client listCommand fun _ => 0).2.wire

def reflectedFrame : Packet :=
  packetOf 10 (((streamOutput sumCipher someLink.server.crypt someOutput).2.map
    Sealed.wire).getD 1 [])

def someEvents : List LinkEvent :=
  [.command listCommand fun _ => 0, .deliver { willing with chunks := someOutput } commandFrame,
    .deliver willing reflectedFrame]

/-- The second output packet, sent back as a command, is executed. -/
theorem output_is_executed :
    ¬ ∀ (cfg : Config) (K : Cipher) (skey : List U8) (link link' : Link)
      (events : List LinkEvent), LinkStart skey link →
      Run (Graph (linkStep cfg K)) link events link' →
      ∀ x ∈ link'.executed, ∃ y ∈ link'.sealed, y.sender = .client ∧
        x.command = commandOf y.m.data := by
  intro hclaim
  have hexec : (exec (linkStep someConfig sumCipher) someLink someEvents).map (fun link =>
      (link.executed.map Executed.command,
        (link.sealed.filter (·.sender = .client)).map (commandOf ·.m.data))) =
      some ([[0x6c, 0x73], [0x72, 0x6d]], [[0x6c, 0x73]]) := by
    decide +kernel
  obtain ⟨link, hlink, hpair⟩ := Option.map_eq_some_iff.mp hexec
  obtain ⟨hcommands, hclient⟩ := Prod.mk.inj hpair
  have hmem : [0x72, 0x6d] ∈ link.executed.map Executed.command := by
    rw [hcommands]
    decide
  obtain ⟨x, hx, hxc⟩ := List.mem_map.mp hmem
  obtain ⟨y, hy, hsender, hcommand⟩ :=
    hclaim someConfig sumCipher someKey someLink link _ someLink_start (exec_run hlink) x hx
  have hy' : commandOf y.m.data ∈ (link.sealed.filter (·.sender = .client)).map
      (commandOf ·.m.data) :=
    List.mem_map.mpr ⟨y, List.mem_filter.mpr ⟨hy, by simpa using hsender⟩, rfl⟩
  rw [hclient, ← hcommand, hxc] at hy'
  revert hy'
  decide

theorem executed_was_encrypted_twice :
    ∃ link, Run (Graph (linkStep someConfig sumCipher)) someLink someEvents link ∧
      link.executed.length = 2 ∧ (link.executed.map Executed.wire).Nodup := by
  have hexec : (exec (linkStep someConfig sumCipher) someLink someEvents).map
      (·.executed.length) = some 2 := by
    decide +kernel
  obtain ⟨link, hlink, htwo⟩ := Option.map_eq_some_iff.mp hexec
  have hrun := exec_run hlink
  exact ⟨link, hrun, htwo, (executed_was_encrypted someLink_start hrun).2⟩

end OpenwrtMtk.Ead
