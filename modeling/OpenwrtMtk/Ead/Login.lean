import Mathlib.Data.Nat.Digits.Lemmas
import OpenwrtMtk.Ead.Authenticity
import OpenwrtMtk.Lib.Memory

/-!
# The login of an ead client

`ead-client.c` and the server, with `t_client.c` and `t_server.c` of tinysrp. Whatever the server
did before, a client that knows the password logs in and has the session key of the server, as long
as no exponent is refused and the digests of the two proofs are not the same. SHA-1 is that of the
cipher; the MD5 `crypt` and the built-in parameters are parameters.
-/

namespace OpenwrtMtk.Ead

open Toolkit

set_option autoImplicit false

/-- `BN_bin2bn`: the most significant byte comes first. -/
def bigIntegerFromBytes (bytes : List U8) : Nat :=
  Nat.ofDigits 256 (bytes.reverse.map BitVec.toNat)

/-- `BN_bn2bin`: no zeros in front. -/
def bigIntegerToBytes (n : Nat) : List U8 := ((Nat.digits 256 n).map (BitVec.ofNat 8)).reverse

theorem fromBytes_toBytes (n : Nat) : bigIntegerFromBytes (bigIntegerToBytes n) = n := by
  have hdigits : (Nat.digits 256 n).map (BitVec.toNat ∘ BitVec.ofNat 8) = Nat.digits 256 n := by
    rw [List.map_congr_left (g := id), List.map_id]
    intro d hd
    have hlt : d < 256 := Nat.digits_lt_base (by decide) hd
    exact (BitVec.toNat_ofNat d 8).trans (Nat.mod_eq_of_lt hlt)
  rw [bigIntegerFromBytes, bigIntegerToBytes, List.reverse_reverse, List.map_map, hdigits,
    Nat.ofDigits_digits]

theorem fromBytes_lt (bytes : List U8) : bigIntegerFromBytes bytes < 256 ^ bytes.length := by
  have hlt := @Nat.ofDigits_lt_base_pow_length 256 (bytes.reverse.map BitVec.toNat) (by decide)
    (by
      intro d hd
      obtain ⟨b, _, rfl⟩ := List.mem_map.mp hd
      exact b.isLt)
  rwa [List.length_map, List.length_reverse] at hlt

theorem length_toBytes {n k : Nat} (h : n < 256 ^ k) : (bigIntegerToBytes n).length ≤ k := by
  rw [bigIntegerToBytes, List.length_reverse, List.length_map]
  exact (Nat.digits_length_le_iff (by decide) n).mpr h

/-- `struct t_confent`. -/
structure TConf where
  (modulus generator : List U8)
  deriving DecidableEq

/-- `struct t_server`. A hash context is what it has been given. -/
structure SrpServer where
  (n g v b B : List U8)
  (hash oldhash ckhash oldckhash : List U8)
  sessionKey : List U8

/-- `struct t_client`. -/
structure SrpClient where
  (username n g s a A p v : List U8)
  (hash ckhash : List U8)
  (sessionKey sessionResponse : List U8)

section Tinysrp

variable (K : Cipher)

def sessionHash (tce : TConf) (name salt : List U8) : List U8 :=
  xorBytes (K.sha tce.modulus) (K.sha tce.generator) ++ K.sha name ++ salt

/-- `x = H(s, H(u, ':', p))`. -/
def passwordHash (salt name password : List U8) : List U8 :=
  K.sha (salt ++ K.sha (name ++ 0x3a :: password))

def modExp (g e n : List U8) : Nat :=
  bigIntegerFromBytes g ^ bigIntegerFromBytes e % bigIntegerFromBytes n

/-- The interleaved hash of the odd and the even bytes, from the last one on. -/
def tSessionkey (sk : List U8) : List U8 :=
  let sk := sk.dropWhile (· = 0)
  let every (k : Nat) := (List.range (sk.length / 2)).map fun i => sk.getD (sk.length - 2 * i - k) 0
  (List.zipWith (fun x y => [x, y]) (K.sha (every 1)) (K.sha (every 2))).flatten

/-- `u`, the first word of the digest of `B`. -/
def scramble (B : List U8) : Nat := bigIntegerFromBytes ((K.sha B).take 4)

def tServeropenraw (name v salt : List U8) (tce : TConf) : SrpServer :=
  { n := tce.modulus, g := tce.generator, v := v, b := [], B := [], hash := [], oldhash := []
    ckhash := sessionHash K tce name salt, oldckhash := [], sessionKey := [] }

/-- `b` is what `t_random` has given. -/
def tServergenexp (ts : SrpServer) (b : List U8) : SrpServer :=
  let B := modExp ts.g b ts.n + bigIntegerFromBytes ts.v
  let B := if bigIntegerFromBytes ts.n < B then B - bigIntegerFromBytes ts.n else B
  { ts with b := b, B := bigIntegerToBytes B, oldckhash := ts.oldckhash ++ bigIntegerToBytes B }

def tServergetkey (ts : SrpServer) (A : List U8) : SrpServer × Option (List U8) :=
  let ts := { ts with
    ckhash := ts.ckhash ++ A ++ ts.B, oldhash := ts.oldhash ++ A, hash := ts.hash ++ A }
  let n := bigIntegerFromBytes ts.n
  let res := bigIntegerFromBytes ts.v ^ scramble K ts.B % n * bigIntegerFromBytes A % n
  if res ≤ 1 ∨ res + 1 = n then (ts, none)
  else
    let key := tSessionkey K (bigIntegerToBytes (res ^ bigIntegerFromBytes ts.b % n))
    ({ ts with
      sessionKey := key, oldhash := ts.oldhash ++ key, oldckhash := ts.oldckhash ++ key,
      ckhash := ts.ckhash ++ key }, some key)

/-- `t_serververify`, with the `session_response` if the proof is right. -/
def tSerververify (ts : SrpServer) (resp : List U8) : Option (List U8) :=
  if K.sha ts.oldckhash = resp then some (K.sha ts.oldhash)
  else if K.sha ts.ckhash = resp then some (K.sha (ts.hash ++ K.sha ts.ckhash ++ ts.sessionKey))
  else none

/-- `MIN_MOD_BYTES`. -/
def minModBytes : Nat := 64

def clientStart (tce : TConf) (username s : List U8) : SrpClient :=
  { username := username, n := tce.modulus, g := tce.generator, s := s
    a := [], A := [], p := [], v := []
    hash := sessionHash K tce username s, ckhash := [], sessionKey := [], sessionResponse := [] }

def tClientopen (preParams : List TConf) (username : List U8) (tce : TConf) (s : List U8) :
    Option SrpClient :=
  if tce.modulus.length < minModBytes ∨ tce ∉ preParams then none
  else some (clientStart K tce username s)

def tClientgenexp (tc : SrpClient) (a : List U8) : SrpClient :=
  let A := bigIntegerToBytes (modExp tc.g a tc.n)
  { tc with a := a, A := A, hash := tc.hash ++ A, ckhash := tc.ckhash ++ A }

def tClientpasswd (tc : SrpClient) (password : List U8) : SrpClient :=
  let dig := passwordHash K tc.s tc.username password
  { tc with
    p := bigIntegerToBytes (bigIntegerFromBytes dig)
    v := bigIntegerToBytes (modExp tc.g dig tc.n) }

def tClientgetkey (tc : SrpClient) (serverval : List U8) : SrpClient × Option (List U8) :=
  let u := scramble K serverval
  let B := bigIntegerFromBytes serverval
  let n := bigIntegerFromBytes tc.n
  if u = 0 then (tc, none)
  else if n ≤ B ∨ B = 0 then ({ tc with hash := tc.hash ++ serverval }, none)
  else
    let v := bigIntegerFromBytes tc.v
    let B := (if B < v then B + n else B) - v
    let S := B ^ (bigIntegerFromBytes tc.p * u + bigIntegerFromBytes tc.a) % n
    let key := tSessionkey K (bigIntegerToBytes S)
    let hash := tc.hash ++ serverval ++ key
    ({ tc with
      sessionKey := key, hash := hash, sessionResponse := K.sha hash,
      ckhash := tc.ckhash ++ K.sha hash ++ key }, some key)

end Tinysrp

/-- The files and tables that client and server work with: the lines of the password file, and the
parameters `pre_params`, of which the server takes the first one. -/
structure Site where
  md5Crypt : List U8 → List U8 → List U8
  tce : TConf
  otherParams : List TConf
  passwd : List (List U8)

/-- The loop of `prepare_password` on a line: the hashed password and the salt with its `$1$`. -/
def passwdEntry (username lbuf : List U8) : Option (List U8 × List U8) :=
  let str := lbuf.drop (username.length + 1)
  if username.isPrefixOf lbuf ∧ lbuf[username.length]? = some 0x3a ∧
      [0x24, 0x31, 0x24].isPrefixOf str then do
    let k ← (str.drop 3).idxOf? 0x24
    let j ← (str.drop (3 + k)).idxOf? 0x3a
    if 3 + k < maxSaltLen ∧ 3 + k + j < maxParamLen then
      some (str.take (3 + k + j), str.take (3 + k))
    else none
  else none

def preparePassword (site : Site) (username : List U8) : Option (List U8 × List U8) :=
  site.passwd.findSome? (passwdEntry username)

/-- The length of the salt in `tpe` is never set. -/
def tpeSalt : List U8 := []

def tpePassword (K : Cipher) (site : Site) (name : List U8) : List U8 :=
  ((preparePassword site name).map fun entry => bigIntegerToBytes
    (modExp site.tce.generator (passwordHash K tpeSalt name entry.1) site.tce.modulus)).getD []

/-- A message as the client reads it. -/
structure Msg where
  size : Nat
  magic : U32
  len : U32
  type : U32
  nid : U16
  sid : U16
  data : List U8

/-- `sizeof(struct ead_msg)`. -/
def sizeofMsg : Nat := 20

def Reply.msg (r : Reply) : Msg where
  size := sizeofMsg + r.body.length
  magic := eadMagic
  len := BitVec.ofNat 32 r.body.length
  type := BitVec.ofNat 32 r.type
  nid := r.nid
  sid := r.sid
  data := r.body

def msgsOf (effects : List Effect) : List Msg :=
  effects.filterMap fun
    | .sent r => some r.msg
    | _ => none

def replied (t : EadType) (effects : List Effect) : Bool :=
  (msgsOf effects).any (·.type = BitVec.ofNat 32 (t.code + 1))

/-- The server, and `*ts` as long as `ts` is set. -/
structure Device where
  s : State
  srp : Option SrpServer

section Serve

variable (K : Cipher) (site : Site) (dev : Device) (b : List U8)

/-- What the password file and the SRP library answer; the rest is as in `o`. -/
def answers (o : Oracle) (pkt : Packet) : Oracle :=
  let verified := dev.srp.bind fun ts => tSerververify K ts (pkt.data.take 20)
  { o with
    prepare := (preparePassword site (userName pkt.data)).map fun entry =>
      ⟨1, entry.2 ++ 0 :: (List.range (maxSaltLen - 1 - entry.2.length)).map o.stale⟩
    openraw := some tpeSalt
    genexp := (dev.srp.map fun ts => (tServergenexp ts b).B).getD []
    getkey := dev.srp.bind fun ts =>
      (tServergetkey K ts (slice pkt.data 1 (pkt.len - 1).toInt.toNat)).2
    verify := verified.isSome
    response := verified.getD [] }

/-- `set_state` calls the library after the reply to the request of the state that is left. -/
def Device.follow (s : State) (effects : List Effect) : Option SrpServer :=
  if replied .setUsername effects then
    some (tServeropenraw K s.username (tpePassword K site s.username) tpeSalt site.tce)
  else if replied .getPrime effects then dev.srp.map fun ts => tServergenexp ts b
  else if replied .sendA effects then dev.srp.map fun ts => (tServergetkey K ts s.A).1
  else dev.srp

def serve (cfg : Config) (o : Oracle) (pkt : Packet) : Except Fault (Device × List Effect) :=
  (handlePacket cfg K (answers K site dev b o pkt) dev.s pkt).map fun r =>
    (⟨r.1, dev.follow K site b r.1 r.2⟩, r.2)

end Serve

/-- The static variables of `ead-client.c`; `sid` is the one in the message buffer. -/
structure Client where
  nid : U16
  sid : U16
  username : List U8
  password : List U8
  authType : U16
  salt : List U8
  pwSalt : List U8
  B : List U8
  tc : Option SrpClient
  crypt : Crypt

section Client

variable (K : Cipher) (site : Site) (c : Client)

/-- `EAD_AUTH_MD5`. -/
def Client.preparePassword : List U8 :=
  if c.authType = 1 then site.md5Crypt c.password c.pwSalt else c.password

/-- `send_ping` to `send_auth`, up to `send_packet`: the body of the request. `a` is what `t_random`
gives, `stale` what the message buffer holds. -/
def Client.send (a : List U8) (stale : Nat → U8) : EadType → Option (Client × List U8)
  | .ping => some (c, [])
  | .setUsername =>
    some (c, (c.username ++ 0 :: (List.range 32).map stale).take 32)
  | .getPrime => some (c, [])
  | .sendA => c.tc.map fun tc =>
    let tc := tClientgenexp tc a
    ({ c with tc := some tc }, stale 0 :: tc.A)
  | .sendAuth => c.tc.bind fun tc =>
    let password := c.preparePassword site
    let r := tClientgetkey K (tClientpasswd K tc password) c.B
    r.2.map fun skey =>
      ({ c with password := password, tc := some r.1, crypt := eadSetKey c.crypt skey },
        r.1.sessionResponse)
  | _ => none

def Client.packet (t : EadType) (body : List U8) : Packet :=
  { packetOf (BitVec.ofNat 32 t.code) body with nid := c.nid, sid := c.sid }

/-- The tests of `send_packet`. -/
def passes (nid : U16) (t : EadType) (m : Msg) : Prop :=
  sizeofMsg + m.len.toNat ≤ m.size ∧ m.magic = eadMagic ∧ (nid = 0xffff ∨ m.nid = nid) ∧
    m.type = BitVec.ofNat 32 (t.code + 1)

instance (nid : U16) (t : EadType) (m : Msg) : Decidable (passes nid t m) :=
  inferInstanceAs (Decidable (_ ∧ _))

/-- `handle_pong` to `handle_done_auth`. -/
def Client.handle (m : Msg) : EadType → Client × Bool
  | .ping =>
    if (m.len - 2).toInt ≤ 0 then (c, false)
    else ({ c with authType := m.data.getD 0 0 ++ m.data.getD 1 0 }, true)
  | .setUsername => (c, true)
  | .getPrime =>
    let c := { c with
      salt := slice m.data 2 (m.data.getD 1 0).toNat
      pwSalt := if c.authType = 1 then
          (slice m.data (2 + maxSaltLen) (maxSaltLen - 1)).takeWhile (· ≠ 0)
        else c.pwSalt }
    let preParams := site.tce :: site.otherParams
    let tc := preParams[(m.data.getD 0 0).toNat]?.bind fun tcp =>
      tClientopen K preParams c.username tcp c.salt
    ({ c with tc := tc }, tc.isSome)
  | .sendA => ({ c with B := slice m.data 1 (m.len - 1).toInt.toNat }, true)
  | .sendAuth => (c, c.tc.any fun tc => K.sha tc.ckhash = m.data.take 20)
  | _ => (c, false)

/-- The loop of `send_packet`, up to the timeout. -/
def receive (t : EadType) : Client → List Msg → Option Client
  | _, [] => none
  | c, m :: ms =>
    if passes c.nid t m then
      let r := c.handle K site m t
      if r.2 then some { r.1 with sid := m.sid } else receive t r.1 ms
    else receive t c ms

end Client

/-- What happens while the client sends one request: frames that the server gets before it, messages
that the client gets before the answer, and what is random or outside. -/
structure Meanwhile where
  frames : List (List U8 × Oracle × Packet)
  messages : List Msg
  a : List U8
  b : List U8
  o : Oracle

section Login

variable (K : Cipher) (site : Site) (cfg : Config) (now : EadType → Meanwhile)

def hear (dev : Device) (frames : List (List U8 × Oracle × Packet)) : Option Device :=
  frames.foldlM (fun dev f => (serve K site dev f.1 cfg f.2.1 f.2.2).toOption.map Prod.fst) dev

def exchange (x : Client × Device) (t : EadType) : Option (Client × Device) := do
  let (c, body) ← x.1.send K site (now t).a (now t).o.stale t
  let dev ← hear K site cfg x.2 (now t).frames
  let (dev, effects) ← (serve K site dev (now t).b cfg (now t).o (c.packet t body)).toOption
  let c ← receive K site t c ((now t).messages ++ msgsOf effects)
  return (c, dev)

def loginRequests : List EadType := [.ping, .setUsername, .getPrime, .sendA, .sendAuth]

/-- `main` of the client up to the login. -/
def login (x : Client × Device) : Option (Client × Device) :=
  if x.1.nid = 0xffff ∨ x.1.password = [] then none
  else loginRequests.foldlM (exchange K site cfg now) x

end Login

theorem shared_secret (g a b x u n : Nat) :
    (g ^ b % n) ^ (x * u + a) % n = ((g ^ x % n) ^ u % n * (g ^ a % n) % n) ^ b % n := by
  have hright : ((g ^ x % n) ^ u % n * (g ^ a % n) % n) ^ b ≡
      ((g ^ x) ^ u * g ^ a) ^ b [MOD n] := by
    apply Nat.ModEq.pow
    apply (Nat.mod_modEq _ n).trans
    apply Nat.ModEq.mul
    · exact (Nat.mod_modEq _ n).trans ((Nat.mod_modEq _ n).pow u)
    · exact Nat.mod_modEq _ n
  calc (g ^ b % n) ^ (x * u + a) % n = (g ^ b) ^ (x * u + a) % n := (Nat.mod_modEq _ n).pow _
    _ = ((g ^ x) ^ u * g ^ a) ^ b % n := by
      rw [← pow_mul, ← pow_mul, ← pow_add, ← pow_mul, Nat.mul_comm b]
    _ = ((g ^ x % n) ^ u % n * (g ^ a % n) % n) ^ b % n := hright.symm

theorem blinding_removed {G v n B : Nat} (hG : G < n) (hv : v < n)
    (hB : B = if n < G + v then G + v - n else G + v) :
    (if B < v then B + n else B) - v = G := by
  by_cases hwrap : n < G + v
  · rw [if_pos hwrap] at hB
    rw [if_pos (by omega)]
    omega
  · rw [if_neg hwrap] at hB
    rw [if_neg (by omega)]
    omega

section Agreement

variable {K : Cipher} {tce : TConf} {name salt password a b : List U8} {tc : SrpClient}

def clientOf (K : Cipher) (tce : TConf) (name salt password a : List U8) : SrpClient :=
  tClientpasswd K (tClientgenexp (clientStart K tce name salt) a) password

def serverOf (K : Cipher) (tce : TConf) (name salt password b : List U8) : SrpServer :=
  tServergenexp (tServeropenraw K name (bigIntegerToBytes
    (modExp tce.generator (passwordHash K salt name password) tce.modulus)) salt tce) b

theorem clientgetkey_some {B skey : List U8} (h : (tClientgetkey K tc B).2 = some skey) :
    (bigIntegerFromBytes B < bigIntegerFromBytes tc.n ∧ bigIntegerFromBytes B ≠ 0) ∧
      skey = tSessionkey K (bigIntegerToBytes
        (((if bigIntegerFromBytes B < bigIntegerFromBytes tc.v then
            bigIntegerFromBytes B + bigIntegerFromBytes tc.n else bigIntegerFromBytes B) -
            bigIntegerFromBytes tc.v) ^
          (bigIntegerFromBytes tc.p * scramble K B + bigIntegerFromBytes tc.a) %
        bigIntegerFromBytes tc.n)) ∧
      (tClientgetkey K tc B).1 = { tc with
        sessionKey := skey, hash := tc.hash ++ B ++ skey
        sessionResponse := K.sha (tc.hash ++ B ++ skey)
        ckhash := tc.ckhash ++ K.sha (tc.hash ++ B ++ skey) ++ skey } := by
  unfold tClientgetkey at h ⊢
  dsimp only at h ⊢
  by_cases hu : scramble K B = 0
  · rw [if_pos hu] at h
    cases h
  · rw [if_neg hu] at h ⊢
    by_cases hB : bigIntegerFromBytes tc.n ≤ bigIntegerFromBytes B ∨ bigIntegerFromBytes B = 0
    · rw [if_pos hB] at h
      cases h
    · rw [if_neg hB] at h ⊢
      cases h
      exact ⟨⟨by omega, by omega⟩, rfl, rfl⟩

theorem servergetkey_some {ts : SrpServer} {A skey : List U8}
    (h : (tServergetkey K ts A).2 = some skey) :
    skey = tSessionkey K (bigIntegerToBytes
        ((bigIntegerFromBytes ts.v ^ scramble K ts.B % bigIntegerFromBytes ts.n *
            bigIntegerFromBytes A % bigIntegerFromBytes ts.n) ^ bigIntegerFromBytes ts.b %
          bigIntegerFromBytes ts.n)) ∧
      (tServergetkey K ts A).1 = { ts with
        sessionKey := skey, hash := ts.hash ++ A, oldhash := ts.oldhash ++ A ++ skey
        oldckhash := ts.oldckhash ++ skey, ckhash := ts.ckhash ++ A ++ ts.B ++ skey } := by
  unfold tServergetkey at h ⊢
  dsimp only at h ⊢
  split at h
  · cases h
  · rename_i hres
    rw [if_neg hres]
    cases h
    exact ⟨rfl, rfl⟩

theorem keys_agree {skey skey' : List U8}
    (hclient : (tClientgetkey K (clientOf K tce name salt password a)
      (serverOf K tce name salt password b).B).2 = some skey)
    (hserver : (tServergetkey K (serverOf K tce name salt password b)
      (clientOf K tce name salt password a).A).2 = some skey') : skey' = skey := by
  obtain ⟨hrange, hkey, _⟩ := clientgetkey_some hclient
  obtain ⟨hkey', _⟩ := servergetkey_some hserver
  rw [hkey, hkey']
  simp only [serverOf, clientOf, tServergenexp, tServeropenraw, clientStart, tClientpasswd,
    tClientgenexp, fromBytes_toBytes, modExp] at hrange ⊢
  have hn : 0 < bigIntegerFromBytes tce.modulus := by omega
  rw [blinding_removed (Nat.mod_lt _ hn) (Nat.mod_lt _ hn) rfl, shared_secret]

theorem hashes_agree :
    (serverOf K tce name salt password b).oldckhash = (serverOf K tce name salt password b).B ∧
      (serverOf K tce name salt password b).ckhash ++ (clientOf K tce name salt password a).A =
        (clientOf K tce name salt password a).hash ∧
      (serverOf K tce name salt password b).hash = [] ∧
      (clientOf K tce name salt password a).ckhash = (clientOf K tce name salt password a).A := by
  simp only [serverOf, tServergenexp, tServeropenraw, clientOf, tClientpasswd, tClientgenexp,
    clientStart, List.nil_append, and_self]

/-- The server takes the proof of the client. Its answer is what the client expects, unless the
proof is also right for the older protocol. -/
theorem proofs_agree {ts : SrpServer} {skey : List U8}
    (hclient : (tClientgetkey K tc ts.B).2 = some skey)
    (hserver : (tServergetkey K ts tc.A).2 = some skey) (hold : ts.oldckhash = ts.B)
    (hck : ts.ckhash ++ tc.A = tc.hash) (hhash : ts.hash = []) (hA : tc.ckhash = tc.A)
    (hapart : K.sha (ts.B ++ skey) ≠ (tClientgetkey K tc ts.B).1.sessionResponse) :
    tSerververify K (tServergetkey K ts tc.A).1 (tClientgetkey K tc ts.B).1.sessionResponse =
      some (K.sha (tClientgetkey K tc ts.B).1.ckhash) := by
  obtain ⟨_, _, htc⟩ := clientgetkey_some hclient
  obtain ⟨_, hts⟩ := servergetkey_some hserver
  rw [htc] at hapart ⊢
  rw [hts]
  dsimp only at hapart ⊢
  rw [tSerververify]
  dsimp only
  rw [hold, if_neg hapart, hck, if_pos rfl, hhash, hA, List.nil_append]

end Agreement

def Unheeded (cfg : Config) (st : EadType) (pkt : Packet) : Prop :=
  wellFramed cfg pkt → ∀ t, eadType pkt.type = some t → t = .ping ∨
    ¬((t.code < EadType.getPrime.code ∨ st = t) ∧ (t = .ping ∨ instanceOf pkt.sid = cfg.instanceId))

section Serving

variable {K : Cipher} {site : Site} {cfg : Config} {dev : Device} {c : Client} {b body : List U8}
  {o : Oracle} {pkt : Packet} {s s' : State} {effects : List Effect} {t : EadType}

theorem msgsOf_append (xs ys : List Effect) : msgsOf (xs ++ ys) = msgsOf xs ++ msgsOf ys :=
  List.filterMap_append

theorem follow_unheeded
    (h : msgsOf effects = [] ∨ ∃ r : Reply, r.type = 1 ∧ msgsOf effects = [r.msg]) :
    dev.follow K site b s effects = dev.srp := by
  have hreplied : ∀ t, t ≠ .ping → replied t effects = false := by
    intro t ht
    rcases h with h | ⟨r, hr, h⟩
    · rw [replied, h, List.any_nil]
    · rw [replied, h, List.any_cons, List.any_nil, Bool.or_false, Reply.msg, hr]
      cases t <;> first | rfl | exact absurd rfl ht
  rw [Device.follow, hreplied _ (by decide), hreplied _ (by decide), hreplied _ (by decide)]
  rfl

theorem serve_unheeded (h : Unheeded cfg dev.s.state pkt) :
    ∃ effects, serve K site dev b cfg o pkt = .ok (dev, effects) := by
  have hhandled : ∃ effects, handlePacket cfg K (answers K site dev b o pkt) dev.s pkt =
      .ok (dev.s, effects) ∧
      (msgsOf effects = [] ∨ ∃ r : Reply, r.type = 1 ∧ msgsOf effects = [r.msg]) := by
    unfold handlePacket
    by_cases hframed : wellFramed cfg pkt
    · rw [if_pos hframed, parseMessage]
      cases htype : eadType pkt.type with
      | none => exact ⟨[], rfl, .inl rfl⟩
      | some t =>
        dsimp only
        by_cases hdispatch : dispatches cfg dev.s pkt t
        · rcases h hframed t htype with rfl | hdrop
          · have hlen : ¬pkt.hlen < sizeofPacket + 0 := Nat.not_lt.mpr hframed.1
            simp only [hdispatch, if_true, handlerOf, if_neg hlen, handlePing, Except.bind, finish,
              setState_self, Except.map]
            exact ⟨_, rfl, .inr ⟨_, rfl, rfl⟩⟩
          · exact absurd hdispatch hdrop
        · exact ⟨[], if_neg hdispatch, .inl rfl⟩
    · exact ⟨[], if_neg hframed, .inl rfl⟩
  obtain ⟨effects, hok, hmsgs⟩ := hhandled
  refine ⟨effects, ?_⟩
  rw [serve, hok, Except.map, follow_unheeded hmsgs]

theorem hear_unheeded : ∀ frames : List (List U8 × Oracle × Packet),
    (∀ f ∈ frames, Unheeded cfg dev.s.state f.2.2) → hear K site cfg dev frames = some dev
  | [], _ => rfl
  | f :: frames, h => by
    obtain ⟨effects, hserve⟩ :=
      @serve_unheeded K site cfg dev f.1 f.2.1 f.2.2 (h f List.mem_cons_self)
    rw [hear, List.foldlM_cons, hserve]
    exact hear_unheeded frames fun f' hf' => h f' (List.mem_cons_of_mem f hf')

theorem handlePacket_request (hnid : c.nid = cfg.nid) (hsid : instanceOf c.sid = cfg.instanceId)
    (hst : t.code < EadType.getPrime.code ∨ s.state = t) {need : Nat}
    {handled : Except Fault Handled}
    (hhandler : handlerOf cfg K o s (c.packet t body) t = some (need, handled))
    (hneed : need ≤ body.length) : handlePacket cfg K o s (c.packet t body) =
      handled.bind (finish cfg o (c.packet t body) t) := by
  have htype : eadType (c.packet t body).type = some t := by cases t <;> rfl
  have hsum : (BitVec.ofNat 32 sizeofPacket + BitVec.ofNat 32 body.length).toNat ≤
      sizeofPacket + body.length := by
    rw [← BitVec.ofNat_add, BitVec.toNat_ofNat]
    exact Nat.mod_le _ _
  have hframed : wellFramed cfg (c.packet t body) :=
    ⟨Nat.le_add_right _ _, rfl, rfl, rfl, rfl, rfl, hsum, .inr hnid⟩
  have hdispatch : dispatches cfg s (c.packet t body) t := ⟨hst, .inr hsid⟩
  have hshort : ¬(c.packet t body).hlen < sizeofPacket + need :=
    Nat.not_lt.mpr (Nat.add_le_add_left hneed _)
  rw [handlePacket, if_pos hframed, parseMessage, htype]
  dsimp only
  rw [if_pos hdispatch, hhandler]
  exact if_neg hshort

theorem toInt_rest {j k : Nat} (h : k < 2 ^ 31) :
    (BitVec.ofNat 32 (j + k) - BitVec.ofNat 32 j).toInt = k := by
  have hk : (BitVec.ofNat 32 k).toNat = k := Nat.mod_eq_of_lt (by omega)
  rw [BitVec.ofNat_add, BitVec.add_comm, BitVec.add_sub_cancel,
    BitVec.toInt_eq_toNat_of_lt (by omega), hk]

theorem receive_behind {m : Msg} {c' : Client} (hpass : passes c.nid t m)
    (hhandle : c.handle K site m t = (c', true)) :
    ∀ ms : List Msg, (∀ m' ∈ ms, ¬passes c.nid t m') →
    receive K site t c (ms ++ [m]) = some { c' with sid := m.sid }
  | [], _ => by
    rw [List.nil_append, receive, if_pos hpass, hhandle]
    rfl
  | m' :: ms, h => by
    rw [List.cons_append, receive, if_neg (h m' List.mem_cons_self)]
    exact receive_behind hpass hhandle ms fun m'' hm => h m'' (List.mem_cons_of_mem m' hm)

theorem passes_reply {nid sid : U16} : passes nid t (Reply.msg ⟨t.code + 1, nid, sid, body⟩) := by
  refine ⟨?_, rfl, .inr rfl, rfl⟩
  simp only [Reply.msg, BitVec.toNat_ofNat]
  exact Nat.add_le_add_left (Nat.mod_le _ _) _

/-- What goes on meanwhile disturbs neither the server in the state `st` nor the client. -/
structure Calm (cfg : Config) (now : EadType → Meanwhile) (st t : EadType) : Prop where
  frames : ∀ f ∈ (now t).frames, Unheeded cfg st f.2.2
  messages : ∀ m ∈ (now t).messages, ¬passes cfg.nid t m

theorem handle_sid {m : Msg} : (c.handle K site m t).1.sid = c.sid := by
  cases t
  case ping =>
    rw [Client.handle]
    split <;> rfl
  all_goals rfl

theorem exchange_of {now : EadType → Meanwhile} {c' c'' : Client} {reply : List U8}
    (hquiet : Calm cfg now dev.s.state t) (hnid : c'.nid = cfg.nid)
    (hsend : c.send K site (now t).a (now t).o.stale t = some (c', body))
    (hok : handlePacket cfg K (answers K site dev (now t).b (now t).o (c'.packet t body)) dev.s
      (c'.packet t body) = .ok (s', effects))
    (hmsgs : msgsOf effects = [Reply.msg ⟨t.code + 1, cfg.nid, c'.sid, reply⟩])
    (hhandle : c'.handle K site (Reply.msg ⟨t.code + 1, cfg.nid, c'.sid, reply⟩) t = (c'', true)) :
    exchange K site cfg now (c, dev) t =
      some (c'', ⟨s', dev.follow K site (now t).b s' effects⟩) := by
  have hserve : serve K site dev (now t).b cfg (now t).o (c'.packet t body) =
      .ok (⟨s', dev.follow K site (now t).b s' effects⟩, effects) := by
    rw [serve, hok]
    rfl
  have hsid : c'.sid = c''.sid := by
    rw [← handle_sid, hhandle]
  have hreceive := receive_behind (hnid ▸ passes_reply) hhandle (now t).messages
    (hnid ▸ hquiet.messages)
  simp only [exchange, hsend, hear_unheeded _ hquiet.frames, hserve, hmsgs, Except.toOption,
    Option.bind_eq_bind, Option.bind_some, hreceive]
  simp only [Reply.msg, hsid]
  rfl

end Serving

/-- A client whose user stands in the password file with the hash of the client's password. -/
structure Registered (site : Site) (cfg : Config) (c : Client) (salt : List U8) : Prop where
  nid : c.nid = cfg.nid
  nid_ne : c.nid ≠ 0xffff
  sid : c.sid = 0
  instanceId : cfg.instanceId = 0
  devName : cfg.devName ≠ []
  password : c.password ≠ []
  username : c.username.length < 32 ∧ 0 ∉ c.username
  entry : preparePassword site c.username = some (site.md5Crypt c.password salt, salt)
  salt : 0 ∉ salt
  modulus : minModBytes ≤ site.tce.modulus.length ∧ site.tce.modulus.length ≤ maxParamLen

theorem Registered.instance_ok {site : Site} {cfg : Config} {c : Client} {salt : List U8}
    (h : Registered site cfg c salt) : instanceOf c.sid = cfg.instanceId := by
  rw [h.sid, h.instanceId]
  rfl

section Requests

variable {K : Cipher} {site : Site} {cfg : Config} {now : EadType → Meanwhile} {dev : Device}
  {c : Client} {salt : List U8} {ts : SrpServer}

theorem exchange_ping (hreg : Registered site cfg c salt)
    (hquiet : Calm cfg now dev.s.state .ping) :
    exchange K site cfg now (c, dev) .ping = some ({ c with authType := 1 }, dev) := by
  have hok : ∀ o, handlePacket cfg K o dev.s (c.packet .ping []) =
      .ok (dev.s, [.sent ⟨1, cfg.nid, c.sid, 0 :: eadAuthMd5 :: cfg.devName.take 1024⟩]) := by
    intro o
    rw [handlePacket_request hreg.nid hreg.instance_ok (.inl (by decide)) rfl (Nat.zero_le _)]
    simp only [handlePing, Except.bind, finish, setState_self, Except.map]
    rfl
  refine exchange_of hquiet hreg.nid rfl (hok _) rfl ?_
  have hname : 0 < (cfg.devName.take 1024).length := by
    rw [List.length_take]
    have := List.length_pos_of_ne_nil hreg.devName
    omega
  have hle : (cfg.devName.take 1024).length ≤ 1024 := List.length_take_le _ _
  have hlen : (BitVec.ofNat 32 (0 :: eadAuthMd5 :: cfg.devName.take 1024).length - 2).toInt =
      (cfg.devName.take 1024).length := by
    rw [List.length_cons, List.length_cons, Nat.add_assoc, Nat.add_comm]
    exact toInt_rest (by omega)
  have hpos :
      ¬(BitVec.ofNat 32 (0 :: eadAuthMd5 :: cfg.devName.take 1024).length - 2).toInt ≤ 0 := by
    rw [hlen]
    omega
  have hauth : (0 : U8) ++ eadAuthMd5 = (1 : U16) := by decide
  exact (if_neg hpos).trans (congrArg (fun a => (({ c with authType := a } : Client), true)) hauth)

theorem setState_back {σ : Session} {o : Oracle} (h : SessionInv σ) :
    ∃ s' effects, setState o σ.s .setUsername = .ok (s', effects) ∧ s'.state = .setUsername ∧
      msgsOf effects = [] := by
  obtain ⟨s', effects, hok, hstate, _⟩ := setState_setUsername h o
  refine ⟨s', effects, hok, hstate, ?_⟩
  unfold setState at hok
  cases h with
  | idle hidle _ =>
    rw [if_pos hidle] at hok
    cases hok
    rfl
  | login id hmem hlogin =>
    obtain ⟨t, hserver, _⟩ := hlogin.server_ok
    have hcode : EadType.getPrime.code ≤ σ.s.state.code := by
      revert hmem
      cases σ.s.state <;> decide
    rw [if_neg (fun heq => by rw [heq] at hcode; exact absurd hcode (by decide)),
      if_pos (Nat.lt_of_lt_of_le (by decide) hcode), if_pos ⟨by decide, hcode⟩, hserver] at hok
    cases hok
    rfl

/-- A session object of the client's user that the library knows as `ts`. -/
structure Opened (dev : Device) (name salt : List U8) (ts : SrpServer) (st : EadType) : Prop where
  state : dev.s.state = st
  server : ∃ id t, dev.s.server = .ok (id, t) ∧ t.salt = tpeSalt
  username : dev.s.username = name
  password : ∃ stale, dev.s.password = ⟨1, salt ++ 0 :: stale⟩ ∧
    (salt ++ 0 :: stale).length = maxSaltLen
  srp : dev.srp = some ts

theorem userName_text {name rest : List U8} (hname : name.length < 32 ∧ 0 ∉ name) :
    userName ((name ++ 0 :: rest).take 32) = name := by
  have hall : ∀ x ∈ name, decide (x ≠ 0) = true :=
    fun x hx => decide_eq_true fun h0 => hname.2 (h0 ▸ hx)
  obtain ⟨k, hk⟩ := Nat.exists_eq_add_of_lt hname.1
  rw [userName, List.take_take, Nat.min_eq_left (by decide), List.take_append,
    List.take_of_length_le (by omega), List.takeWhile_append_of_pos hall]
  cases 31 - name.length with
  | zero => rw [List.take_zero, List.takeWhile_nil, List.append_nil]
  | succ j => rw [List.take_succ_cons, List.takeWhile_cons_of_neg (by simp), List.append_nil]

theorem preparePassword_salt {username stored salt : List U8}
    (h : preparePassword site username = some (stored, salt)) : salt.length < maxSaltLen := by
  obtain ⟨line, _, hline⟩ := List.exists_of_findSome?_eq_some h
  unfold passwdEntry at hline
  dsimp only at hline
  split at hline
  · obtain ⟨k, _, hk⟩ := Option.bind_eq_some_iff.mp hline
    obtain ⟨j, _, hj⟩ := Option.bind_eq_some_iff.mp hk
    split at hj
    · rename_i hroom
      cases hj
      exact Nat.lt_of_le_of_lt (List.length_take_le _ _) hroom.1
    · cases hj
  · cases hline

theorem exchange_username (hreg : Registered site cfg c salt) {log : List Effect}
    (hinv : SessionInv ⟨dev.s, log⟩) (hquiet : Calm cfg now dev.s.state .setUsername) :
    ∃ dev', exchange K site cfg now (c, dev) .setUsername = some (c, dev') ∧
      Opened dev' c.username salt
        (tServeropenraw K c.username (tpePassword K site c.username) tpeSalt site.tce)
        .getPrime := by
  let body := (c.username ++ 0 :: (List.range 32).map (now .setUsername).o.stale).take 32
  have hbody : 32 ≤ body.length := by
    simp only [body, List.length_take, List.length_append, List.length_cons, List.length_map,
      List.length_range]
    omega
  have hname : userName body = c.username := userName_text hreg.username
  have hdata : userName (c.packet .setUsername body).data = c.username := hname
  let o := answers K site dev (now .setUsername).b (now .setUsername).o (c.packet .setUsername body)
  obtain ⟨s, effects, hback, hstate, hmsgs⟩ := @setState_back ⟨dev.s, log⟩ o hinv
  let stale := (List.range (maxSaltLen - 1 - salt.length)).map (now .setUsername).o.stale
  have hprepare : o.prepare = some ⟨1, salt ++ 0 :: stale⟩ := by
    simp only [o, answers, Client.packet, packetOf, hname, hreg.entry, Option.map_some, stale]
  let s' : State := { s with
    username := c.username, password := ⟨1, salt ++ 0 :: stale⟩, ts := some s.servers.length
    servers := s.servers ++ [some ⟨c.username, tpeSalt, []⟩], state := .getPrime }
  let log' := effects ++ [Effect.userSet c.username] ++ [.sent ⟨3, cfg.nid, c.sid, []⟩] ++
    [.opened s.servers.length c.username]
  have hok : handlePacket cfg K o dev.s (c.packet .setUsername body) = .ok (s', log') := by
    rw [handlePacket_request hreg.nid hreg.instance_ok (.inl (by decide)) rfl hbody,
      handleSetUsername, hback, hdata]
    simp only [Except.map, Except.bind]
    rw [finish_forward (k := .setUsername) (s := { s with username := c.username }) hstate
      (by decide), leaveState]
    dsimp only
    rw [hstate]
    dsimp only
    rw [hprepare]
    rfl
  have hmsgs' : msgsOf log' = [Reply.msg ⟨3, cfg.nid, c.sid, []⟩] := by
    simp only [log', msgsOf_append, hmsgs]
    rfl
  have hsrp : dev.follow K site (now .setUsername).b s' log' = some (tServeropenraw K c.username
      (tpePassword K site c.username) tpeSalt site.tce) := by
    rw [Device.follow, replied, hmsgs']
    rfl
  refine ⟨⟨s', _⟩, exchange_of hquiet hreg.nid rfl hok hmsgs' rfl, rfl,
    ⟨s.servers.length, ⟨c.username, tpeSalt, []⟩, ?_, rfl⟩, rfl, ⟨stale, rfl, ?_⟩, hsrp⟩
  · simp only [State.server, s', List.getElem?_concat_length]
  · have hshort := preparePassword_salt hreg.entry
    simp only [stale, List.length_append, List.length_cons, List.length_map, List.length_range]
    omega

theorem server_eq_ok {s : State} {id : Nat} {obj : TServer} (h : s.server = .ok (id, obj)) :
    s.ts = some id ∧ s.servers[id]? = some (some obj) := by
  unfold State.server at h
  split at h
  · cases h
  · rename_i id' hts
    split at h
    · rename_i hobj
      cases h
      exact ⟨hts, hobj⟩
    · cases h

theorem exchange_prime (hreg : Registered site cfg c salt) (hauth : c.authType = 1)
    (hopen : Opened dev c.username salt ts .getPrime)
    (hquiet : Calm cfg now .getPrime .getPrime) :
    ∃ dev', exchange K site cfg now (c, dev) .getPrime = some ({ c with
        salt := tpeSalt, pwSalt := salt
        tc := some (clientStart K site.tce c.username tpeSalt) }, dev') ∧
      Opened dev' c.username salt (tServergenexp ts (now .getPrime).b) .sendA ∧
      dev'.s.exponent = .ok (tServergenexp ts (now .getPrime).b).B := by
  obtain ⟨id, obj, hserver, hsalt⟩ := hopen.server
  obtain ⟨stale, hpassword, hlen⟩ := hopen.password
  let o := answers K site dev (now .getPrime).b (now .getPrime).o (c.packet .getPrime [])
  let gap := (List.range maxSaltLen).map (now .getPrime).o.stale
  let reply : List U8 := 0 :: 0 :: gap ++ (salt ++ 0 :: stale)
  let s' : State := { dev.s with
    B := some id, servers := dev.s.servers.set id (some { obj with B := o.genexp })
    state := .sendA }
  have hok : handlePacket cfg K o dev.s (c.packet .getPrime []) =
      .ok (s', [.sent ⟨5, cfg.nid, c.sid, reply⟩]) := by
    rw [handlePacket_request hreg.nid hreg.instance_ok (.inr hopen.state) rfl (Nat.zero_le _),
      handleGetPrime, hserver]
    simp only [Except.map, Except.bind]
    rw [hsalt, hpassword, finish_forward (k := .getPrime) hopen.state (by decide), leaveState,
      hopen.state]
    dsimp only
    rw [hserver]
    rfl
  have hsrp : dev.follow K site (now .getPrime).b s' [.sent ⟨5, cfg.nid, c.sid, reply⟩] =
      some (tServergenexp ts (now .getPrime).b) := by
    have hmiss : replied .setUsername [.sent ⟨5, cfg.nid, c.sid, reply⟩] = false := rfl
    have hhit : replied .getPrime [.sent ⟨5, cfg.nid, c.sid, reply⟩] = true := rfl
    rw [Device.follow, hmiss, hhit, hopen.srp]
    rfl
  have hgenexp : o.genexp = (tServergenexp ts (now .getPrime).b).B := by
    simp only [o, answers, hopen.srp]
    rfl
  obtain ⟨hts, hobj⟩ := server_eq_ok hserver
  have hat : s'.servers[id]? = some (some { obj with B := o.genexp }) :=
    List.getElem?_set_self (List.getElem?_eq_some_iff.mp hobj).1
  have hhandle : c.handle K site (Reply.msg ⟨5, cfg.nid, c.sid, reply⟩) .getPrime = ({ c with
      salt := tpeSalt, pwSalt := salt, tc := some (clientStart K site.tce c.username tpeSalt) },
      true) := by
    have hext : (slice reply (2 + maxSaltLen) (maxSaltLen - 1)).takeWhile (· ≠ 0) = salt := by
      have hdrop : reply.drop (2 + maxSaltLen) = salt ++ 0 :: stale := by
        have hgap : (0 :: 0 :: gap).length = 2 + maxSaltLen := by
          simp only [gap, List.length_cons, List.length_map, List.length_range, Nat.add_comm 2]
        rw [← hgap]
        exact List.drop_left
      rw [slice, hdrop]
      have htext := @userName_text salt stale ⟨preparePassword_salt hreg.entry, hreg.salt⟩
      have htake : (salt ++ 0 :: stale).take 32 = salt ++ 0 :: stale :=
        List.take_of_length_le (Nat.le_of_eq hlen)
      rwa [htake] at htext
    have htc : tClientopen K (site.tce :: site.otherParams) c.username site.tce tpeSalt =
        some (clientStart K site.tce c.username tpeSalt) := by
      rw [tClientopen, if_neg]
      rintro (hshort | hunknown)
      · exact absurd hreg.modulus.1 (Nat.not_le.mpr hshort)
      · exact hunknown List.mem_cons_self
    simp only [Client.handle, Reply.msg, hauth, if_true, hext]
    rw [show slice reply 2 (reply.getD 1 0).toNat = tpeSalt from rfl,
      show (site.tce :: site.otherParams)[(reply.getD 0 0).toNat]? = some site.tce from rfl,
      Option.bind_some, htc]
    rfl
  refine ⟨⟨s', _⟩, exchange_of (hopen.state ▸ hquiet) hreg.nid rfl hok rfl
    hhandle, ⟨rfl, ⟨id, { obj with B := o.genexp }, ?_, hsalt⟩, hopen.username,
    ⟨stale, hpassword, hlen⟩, hsrp⟩, ?_⟩
  · rw [State.server, show s'.ts = some id from hts]
    dsimp only
    rw [hat]
  · rw [State.exponent, show s'.B = some id from rfl]
    dsimp only
    rw [hat, ← hgenexp]

theorem field_number {x : U8} {bytes : List U8} (h : bytes.length ≤ maxParamLen) :
    (BitVec.ofNat 32 (x :: bytes).length - 1).toInt = bytes.length ∧
      slice (x :: bytes) 1 bytes.length = bytes := by
  refine ⟨?_, List.take_length⟩
  rw [List.length_cons, Nat.add_comm]
  exact toInt_rest (Nat.lt_of_le_of_lt h (by decide))

theorem leaveState_sendA {o : Oracle} {s : State} {id : Nat} {obj : TServer} {skey : List U8}
    (hstate : s.state = .sendA) (hserver : s.server = .ok (id, obj)) (hkey : o.getkey = some skey) :
    leaveState o s .sendAuth =
      .ok ({ s with crypt := eadSetKey s.crypt skey, state := .sendAuth }, [.keySet id skey]) := by
  rw [leaveState, hstate, hserver, hkey]
  rfl

theorem exchange_a (hreg : Registered site cfg c salt)
    (hopen : Opened dev c.username salt ts .sendA) (hB : dev.s.exponent = .ok ts.B)
    {tc : SrpClient} (htc : c.tc = some tc)
    (hlenA : (tClientgenexp tc (now .sendA).a).A.length ≤ maxParamLen)
    (hlenB : ts.B.length ≤ maxParamLen) {skey : List U8}
    (hkey : (tServergetkey K ts (tClientgenexp tc (now .sendA).a).A).2 = some skey)
    (hquiet : Calm cfg now .sendA .sendA) :
    ∃ dev', exchange K site cfg now (c, dev) .sendA = some ({ c with
        tc := some (tClientgenexp tc (now .sendA).a), B := ts.B }, dev') ∧
      Opened dev' c.username salt (tServergetkey K ts (tClientgenexp tc (now .sendA).a).A).1
        .sendAuth ∧
      dev'.s.crypt = eadSetKey dev.s.crypt skey := by
  generalize hA : (tClientgenexp tc (now .sendA).a).A = A at hlenA hkey ⊢
  obtain ⟨id, obj, hserver, hsalt⟩ := hopen.server
  let c' : Client := { c with tc := some (tClientgenexp tc (now .sendA).a) }
  let st := (now .sendA).o.stale 0
  let pkt := c'.packet .sendA (st :: A)
  let o := answers K site dev (now .sendA).b (now .sendA).o pkt
  obtain ⟨hlen, hslice⟩ := @field_number st A hlenA
  have hsend : c.send K site (now .sendA).a (now .sendA).o.stale .sendA = some (c', st :: A) := by
    rw [Client.send, htc, ← hA]
    rfl
  have hgetkey : o.getkey = some skey := by
    simp only [o, answers, hopen.srp, Option.bind_some, pkt, Client.packet, packetOf, hlen,
      Int.toNat_natCast, hslice, hkey]
  let s' : State := { dev.s with A := A, crypt := eadSetKey dev.s.crypt skey, state := .sendAuth }
  have hok : handlePacket cfg K o dev.s pkt =
      .ok (s', [.sent ⟨7, cfg.nid, c.sid, st :: ts.B⟩, .keySet id skey]) := by
    have hhandle : handleSendA o dev.s pkt =
        .ok ⟨some (st :: ts.B), .sendAuth, { dev.s with A := A }, []⟩ := by
      simp only [handleSendA, pkt, Client.packet, packetOf, hlen, Int.toNat_natCast, hslice, hB]
      rw [if_neg (by omega), if_neg (by omega), if_neg (by rw [List.length_cons]; omega)]
      rfl
    have hneed : 1 ≤ (st :: A).length := Nat.le_add_left _ _
    have hrequest := handlePacket_request (K := K) (c := c') (o := o) hreg.nid hreg.instance_ok
      (.inr hopen.state) rfl hneed
    rw [show pkt = c'.packet .sendA (st :: A) from rfl, hrequest]
    rw [show c'.packet .sendA (st :: A) = pkt from rfl, hhandle]
    simp only [Except.bind]
    rw [finish_forward (k := .sendA) (s := { dev.s with A := A }) hopen.state (by decide),
      leaveState_sendA (s := { dev.s with A := A }) hopen.state hserver hgetkey]
    rfl
  have hsrp : dev.follow K site (now .sendA).b s'
      [.sent ⟨7, cfg.nid, c.sid, st :: ts.B⟩, .keySet id skey] =
      some (tServergetkey K ts A).1 := by
    rw [Device.follow, hopen.srp]
    rfl
  obtain ⟨hlen', hslice'⟩ := @field_number st ts.B hlenB
  have hhandle : c'.handle K site (Reply.msg ⟨7, cfg.nid, c.sid, st :: ts.B⟩) .sendA =
      ({ c' with B := ts.B }, true) := by
    simp only [Client.handle, Reply.msg, hlen', Int.toNat_natCast, hslice']
  exact ⟨⟨s', _⟩, exchange_of (hopen.state ▸ hquiet) (show c'.nid = cfg.nid from hreg.nid) hsend hok
    rfl hhandle,
    ⟨rfl, ⟨id, obj, hserver, hsalt⟩, hopen.username, hopen.password, hsrp⟩, rfl⟩

theorem exchange_auth (hreg : Registered site cfg c salt)
    (hopen : Opened dev c.username salt ts .sendAuth) (hauth : c.authType = 1 ∧ c.pwSalt = salt)
    {tc tc' : SrpClient} (htc : c.tc = some tc) {skey : List U8}
    (hkey : tClientgetkey K (tClientpasswd K tc (site.md5Crypt c.password salt)) c.B =
      (tc', some skey))
    (hresponse : tc'.sessionResponse.length = 20)
    (hverify : tSerververify K ts tc'.sessionResponse = some (K.sha tc'.ckhash))
    (hquiet : Calm cfg now .sendAuth .sendAuth) :
    ∃ c' dev', exchange K site cfg now (c, dev) .sendAuth = some (c', dev') ∧
      c'.crypt = eadSetKey c.crypt skey ∧ dev'.s.state = .sendCmd ∧ dev'.s.crypt = dev.s.crypt ∧
      dev'.s.username = c.username := by
  obtain ⟨id, obj, hserver, hsalt⟩ := hopen.server
  let c' : Client := { c with
    password := site.md5Crypt c.password salt, tc := some tc', crypt := eadSetKey c.crypt skey }
  let pkt := c'.packet .sendAuth tc'.sessionResponse
  let o := answers K site dev (now .sendAuth).b (now .sendAuth).o pkt
  have hsend : c.send K site (now .sendAuth).a (now .sendAuth).o.stale .sendAuth =
      some (c', tc'.sessionResponse) := by
    have hpassword : c.preparePassword site = site.md5Crypt c.password salt := by
      rw [Client.preparePassword, if_pos hauth.1, hauth.2]
    rw [Client.send, htc, Option.bind_some, hpassword]
    dsimp only
    rw [hkey]
    rfl
  have hproof : pkt.data.take 20 = tc'.sessionResponse :=
    List.take_of_length_le (Nat.le_of_eq hresponse)
  have hverified : o.verify = true ∧ o.response = K.sha tc'.ckhash := by
    simp only [o, answers, hopen.srp, Option.bind_some, hproof, hverify]
    exact ⟨rfl, rfl⟩
  have hsha : (K.sha tc'.ckhash).take 20 = K.sha tc'.ckhash :=
    List.take_of_length_le (Nat.le_of_eq (K.length_sha _))
  let log := [Effect.verified id true, .sent ⟨9, cfg.nid, c.sid, K.sha tc'.ckhash⟩]
  have hok : handlePacket cfg K o dev.s pkt = .ok ({ dev.s with state := .sendCmd }, log) := by
    have hrequest := handlePacket_request (K := K) (c := c') (o := o) hreg.nid hreg.instance_ok
      (.inr hopen.state) rfl (Nat.le_of_eq hresponse.symm)
    rw [show pkt = c'.packet .sendAuth tc'.sessionResponse from rfl, hrequest, handleSendAuth,
      hserver]
    simp only [Except.map, Except.bind, hverified.1, if_true]
    rw [hverified.2, hsha, finish_forward (k := .sendAuth) hopen.state (by decide), leaveState,
      hopen.state]
    rfl
  refine ⟨c', ⟨_, dev.follow K site (now .sendAuth).b { dev.s with state := .sendCmd } log⟩,
    exchange_of (hopen.state ▸ hquiet) (show c'.nid = cfg.nid from hreg.nid) hsend hok
      rfl ?_, rfl, rfl, rfl, hopen.username⟩
  simp only [Client.handle, Reply.msg, hsha, c', Option.any_some, decide_true]

end Requests

/-- No exponent is refused, and the proof of the client is not right for the older protocol as
well. -/
structure Usable (K : Cipher) (tc : SrpClient) (ts : SrpServer) (skey : List U8) : Prop where
  client : (tClientgetkey K tc ts.B).2 = some skey
  server : (tServergetkey K ts tc.A).2 ≠ none
  apart : K.sha (ts.B ++ skey) ≠ (tClientgetkey K tc ts.B).1.sessionResponse

theorem login_agrees {K : Cipher} {site : Site} {cfg : Config} {now : EadType → Meanwhile}
    {dev : Device} {c : Client} {salt skey : List U8} {password : Password} {crypt : Crypt}
    {packets : List (Oracle × Packet)} {log : List Effect} (hreg : Registered site cfg c salt)
    (hrun : Run (Graph (sessionStep cfg K)) ⟨initialState password crypt, []⟩ packets ⟨dev.s, log⟩)
    (hquiet : ∀ t ∈ loginRequests, Calm cfg now
      (if t.code < EadType.getPrime.code then dev.s.state else t) t)
    (husable : Usable K (clientOf K site.tce c.username tpeSalt (site.md5Crypt c.password salt)
        (now .sendA).a)
      (serverOf K site.tce c.username tpeSalt (site.md5Crypt c.password salt) (now .getPrime).b)
      skey) :
    ∃ c' dev', login K site cfg now (c, dev) = some (c', dev') ∧
      LinkStart skey ⟨dev'.s, c'.crypt, [], []⟩ ∧ dev'.s.username = c.username := by
  have hinv := session_run (.idle rfl rfl) hrun
  have hts : tServergenexp
      (tServeropenraw K c.username (tpePassword K site c.username) tpeSalt site.tce)
      (now .getPrime).b =
      serverOf K site.tce c.username tpeSalt (site.md5Crypt c.password salt) (now .getPrime).b := by
    rw [tpePassword, hreg.entry]
    rfl
  have hping := @exchange_ping K site cfg now dev c salt hreg (hquiet .ping (by decide))
  let c₁ : Client := { c with authType := 1 }
  have hreg₁ : Registered site cfg c₁ salt := { hreg with }
  obtain ⟨dev₂, hname, hopen₂⟩ :=
    exchange_username (K := K) hreg₁ hinv (hquiet .setUsername (by decide))
  obtain ⟨dev₃, hprime, hopen₃, hB⟩ :=
    exchange_prime (K := K) hreg₁ rfl hopen₂ (hquiet .getPrime (by decide))
  rw [hts] at hopen₃ hB
  generalize hserverOf : serverOf K site.tce c.username tpeSalt (site.md5Crypt c.password salt)
    (now .getPrime).b = ts at husable hopen₃ hB
  let tc := clientOf K site.tce c.username tpeSalt (site.md5Crypt c.password salt) (now .sendA).a
  let c₃ : Client := { c₁ with
    salt := tpeSalt, pwSalt := salt, tc := some (clientStart K site.tce c.username tpeSalt) }
  have hreg₃ : Registered site cfg c₃ salt := { hreg₁ with }
  obtain ⟨skey', hserver⟩ := Option.ne_none_iff_exists'.mp husable.server
  obtain rfl : skey' = skey := by
    subst hserverOf
    exact keys_agree husable.client hserver
  obtain ⟨hrange, _, htc⟩ := clientgetkey_some husable.client
  have hmod : bigIntegerFromBytes site.tce.modulus < 256 ^ maxParamLen := Nat.lt_of_lt_of_le
    (fromBytes_lt _) (Nat.pow_le_pow_right (by decide) hreg.modulus.2)
  have hlenA : tc.A.length ≤ maxParamLen :=
    length_toBytes (Nat.lt_trans (Nat.mod_lt _ (Nat.lt_of_le_of_lt (Nat.zero_le _) hrange.1)) hmod)
  have hlenB : ts.B.length ≤ maxParamLen := by
    have hlt := Nat.lt_trans hrange.1 hmod
    obtain ⟨x, hx⟩ : ∃ x, ts.B = bigIntegerToBytes x := by
      rw [← hserverOf]
      exact ⟨_, rfl⟩
    rw [hx, fromBytes_toBytes] at hlt
    rw [hx]
    exact length_toBytes hlt
  obtain ⟨dev₄, ha, hopen₄, hcrypt⟩ :=
    exchange_a (c := c₃) hreg₃ hopen₃ hB rfl hlenA hlenB hserver (hquiet .sendA (by decide))
  let c₄ : Client := { c₃ with
    tc := some (tClientgenexp (clientStart K site.tce c.username tpeSalt) (now .sendA).a)
    B := ts.B }
  have hreg₄ : Registered site cfg c₄ salt := { hreg₃ with }
  have hresponse : (tClientgetkey K tc ts.B).1.sessionResponse.length = 20 := by
    rw [htc]
    exact K.length_sha _
  obtain ⟨hold, hfirst, hhash, hck⟩ := hserverOf ▸ @hashes_agree K site.tce c.username tpeSalt
    (site.md5Crypt c.password salt) (now .sendA).a (now .getPrime).b
  have hverify := proofs_agree husable.client hserver hold hfirst hhash hck husable.apart
  obtain ⟨tc', htc'⟩ : ∃ tc', (tClientgetkey K tc ts.B).1 = tc' := ⟨_, rfl⟩
  rw [htc'] at hverify hresponse
  have hkey : tClientgetkey K tc ts.B = (tc', some skey') := Prod.ext htc' husable.client
  obtain ⟨c₅, dev₅, hauth, hclient, hstate, hsame, husername⟩ :=
    exchange_auth (c := c₄) hreg₄ hopen₄ ⟨rfl, rfl⟩ rfl hkey hresponse hverify
      (hquiet .sendAuth (by decide))
  refine ⟨c₅, dev₅, ?_, ⟨hstate, ⟨_, hsame.trans hcrypt⟩, ⟨_, hclient⟩, rfl, rfl⟩, husername⟩
  rw [login, if_neg (not_or.mpr ⟨hreg.nid_ne, hreg.password⟩), loginRequests]
  simp only [List.foldlM_cons, List.foldlM_nil, Option.bind_eq_bind]
  rw [hping, Option.bind_some, hname, Option.bind_some, hprime, Option.bind_some, ha,
    Option.bind_some, hauth]
  rfl

/-- `u:$1$ab$x:` is a line of the password file. -/
def someSite : Site where
  md5Crypt := fun _ salt => salt ++ [0x24, 0x78]
  tce := ⟨List.replicate 64 0xff, [2]⟩
  otherParams := []
  passwd := [[0x75, 0x3a, 0x24, 0x31, 0x24, 0x61, 0x62, 0x24, 0x78, 0x3a]]

def someSha (bytes : List U8) : List U8 :=
  [0, 0, 0, if bytes.length = 20 then 0 else 1] ++ List.replicate 15 0 ++ [bytes.foldl (· + ·) 0]

def someCipher : Cipher :=
  { sumCipher with sha := someSha, length_sha := fun _ => rfl }

def someClient : Client :=
  ⟨0x1234, 0, [0x75], [0x70], 0, [], [], [], none, noCrypt⟩

def someDevice : Device := ⟨initialState ⟨0, []⟩ noCrypt, none⟩

def namedConfig : Config := ⟨0x1234, 0, [0x61]⟩

def someSalt : List U8 := [0x24, 0x31, 0x24, 0x61, 0x62]

def someTimes (_ : EadType) : Meanwhile := ⟨[], [], [5], [4], willing⟩

theorem login_agrees_once : ∃ skey c' dev',
    login someCipher someSite namedConfig someTimes (someClient, someDevice) = some (c', dev') ∧
      LinkStart skey ⟨dev'.s, c'.crypt, [], []⟩ ∧ dev'.s.username = [0x75] := by
  have hreg : Registered someSite namedConfig someClient someSalt := by
    constructor <;> decide +kernel
  let tc := clientOf someCipher someSite.tce [0x75] tpeSalt (someSite.md5Crypt [0x70] someSalt) [5]
  let ts := serverOf someCipher someSite.tce [0x75] tpeSalt (someSite.md5Crypt [0x70] someSalt) [4]
  have husable : Usable someCipher tc ts ((tClientgetkey someCipher tc ts.B).2.getD []) := by
    constructor <;> decide +kernel
  have hquiet : ∀ t ∈ loginRequests, Calm namedConfig someTimes
      (if t.code < EadType.getPrime.code then someDevice.s.state else t) t :=
    fun _ _ => ⟨by simp [someTimes], by simp [someTimes]⟩
  exact ⟨_, @login_agrees someCipher someSite namedConfig someTimes someDevice someClient someSalt _
    ⟨0, []⟩ noCrypt [] [] hreg .nil hquiet husable⟩

end OpenwrtMtk.Ead
