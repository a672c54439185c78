import OpenwrtMtk.Lib.Bytes

/-!
# The encrypted messages of ead

`ead-crypt.c`: both sides of a session hold one key and start at one initialization vector. A
message is hashed, then encrypted block by block; the receiver takes it when its vector lies in a
window above the last one it took and the hash is right. The block cipher and the hash are
parameters.
-/

namespace OpenwrtMtk.Ead

open Toolkit

set_option autoImplicit false

/-- `rijndaelEncrypt`, `rijndaelDecrypt` and the SHA-1 of a padded message. -/
structure Cipher where
  encrypt : List U8 → List U8 → List U8
  decrypt : List U8 → List U8 → List U8
  sha : List U8 → List U8
  length_encrypt : ∀ key block, block.length = 16 → (encrypt key block).length = 16
  decrypt_encrypt : ∀ key block, block.length = 16 → decrypt key (encrypt key block) = block
  length_sha : ∀ bytes, (sha bytes).length = 20

/-- A read or copy past a buffer, and a use of a session object that is not there. -/
inductive Fault where
  | overread | overrun | nullTs | closedTs | nullB
  deriving DecidableEq

def eadEncPad : Nat := 64

/-- `EAD_MAX_IV_INCR`. -/
def eadMaxIvIncr : U32 := 128

/-- `sizeof(struct ead_msg_encrypted)`: hash, vector and pad length. -/
def sizeofEncrypted : Nat := 25

/-- `htonl`, as the bytes in memory. -/
def htonl (w : U32) : List U8 :=
  [w.extractLsb' 24 8, w.extractLsb' 16 8, w.extractLsb' 8 8, w.extractLsb' 0 8]

def ntohl : List U8 → U32
  | [a, b, c, d] => a ++ b ++ c ++ d
  | _ => 0

@[simp] theorem length_htonl (w : U32) : (htonl w).length = 4 := rfl

@[simp] theorem ntohl_htonl (w : U32) : ntohl (htonl w) = w := by
  unfold ntohl htonl
  dsimp only
  rw [BitVec.extractLsb'_append_extractLsb'_eq_extractLsb' (by decide),
    BitVec.extractLsb'_append_extractLsb'_eq_extractLsb' (by decide),
    BitVec.extractLsb'_append_extractLsb'_eq_extractLsb' (by decide)]
  exact BitVec.extractLsb'_eq_self

/-- The static variables of `ead-crypt.c`. -/
structure Crypt where
  key : List U8
  rxIv : U32
  txIv : U32
  ivofsVec : U32
  ivofsIdx : Nat
  deriving DecidableEq

/-- The key, then the start of the vectors (its highest byte cleared), then the increments, which a
little-endian machine reads lowest byte first. -/
def eadSetKey (c : Crypt) (skey : List U8) : Crypt :=
  let iv := ntohl (slice skey 32 4) &&& 0x00ffffff
  { key := skey.take 32, rxIv := iv, txIv := iv, ivofsVec := ntohl (slice skey 36 4).reverse
    ivofsIdx := c.ivofsIdx }

/-- `ead_check_rx_iv`: the new `ead_rx_iv`. -/
def eadCheckRxIv (rxIv iv : U32) : Option U32 :=
  if iv ≤ rxIv then none
  else if rxIv + eadMaxIvIncr < iv then none
  else some iv

def eadGetTxIv (c : Crypt) : Crypt :=
  let ofs := 1 + ((c.ivofsVec >>> (2 * c.ivofsIdx)) &&& 3)
  { c with txIv := c.txIv + ofs, ivofsIdx := (c.ivofsIdx + 1) % 16 }

/-- The block function over the first `n` blocks of a buffer. -/
def mapBlocks (f : List U8 → List U8) : Nat → List U8 → List U8
  | 0, bytes => bytes
  | n + 1, bytes => f (bytes.take 16) ++ mapBlocks f n (bytes.drop 16)

def layOut (hash : List U8) (iv : U32) (data padding : List U8) : List U8 :=
  hash ++ htonl iv ++ [BitVec.ofNat 8 padding.length] ++ data ++ padding

def zeroHash : List U8 := List.replicate 20 0

def padLength (n : Nat) : Nat := (eadEncPad - (n + sizeofEncrypted) % eadEncPad) % eadEncPad

/-- An encrypted message: what it says, and the bytes that go out. -/
structure Sealed where
  iv : U32
  data : List U8
  padding : List U8
  wire : List U8
  deriving DecidableEq

/-- `ead_encrypt_message`; `stale` is what the buffer holds behind the data. -/
def eadEncryptMessage (K : Cipher) (c : Crypt) (data : List U8) (stale : Nat → U8) :
    Crypt × Sealed :=
  let padding := (List.range (padLength data.length)).map stale
  let c := eadGetTxIv c
  let plain := layOut (K.sha (layOut zeroHash c.txIv data padding)) c.txIv data padding
  (c, ⟨c.txIv, data, padding, mapBlocks (K.encrypt c.key) (plain.length / 16) plain⟩)

/-- The decrypted buffer: the message is `len` bytes long, the rest of the frame follows it. -/
def plainOf (K : Cipher) (key : List U8) (len : U32) (data : List U8) : List U8 :=
  mapBlocks (K.decrypt key) (len.toInt.toNat / 16) data

/-- The test of the hash over the first `n` bytes. -/
def hashMatches (K : Cipher) (n : Nat) (plain : List U8) : Bool :=
  K.sha ((zeroHash ++ plain.drop 20).take n) = plain.take 20

/-- `ead_decrypt_message`: the result as the code's int, still a 32 bit word, and the buffer. -/
def eadDecryptMessage (K : Cipher) (c : Crypt) (len : U32) (data : List U8) :
    Except Fault (Crypt × U32 × List U8) :=
  if len = 0 ∨ 0 < len.toInt.tmod eadEncPad then .ok (c, 0, data)
  else if data.length < len.toInt.toNat ∨ data.length < sizeofEncrypted then .error .overread
  else
    let plain := plainOf K c.key len data
    let pad := (plain.getD 24 0).toNat
    if eadEncPad ≤ pad then .ok (c, 0, plain)
    else
      match eadCheckRxIv c.rxIv (ntohl (slice plain 20 4)) with
      | none => .ok (c, 0, plain)
      | some iv =>
        if hashMatches K len.toInt.toNat plain then
          .ok ({ c with rxIv := iv }, len - BitVec.ofNat 32 (pad + sizeofEncrypted), plain)
        else .ok ({ c with rxIv := iv }, 0, plain)

section Lemmas

variable {K : Cipher} {c c' : Crypt} {key data plain : List U8} {len : U32}

theorem checkRxIv_some {rxIv iv iv' : U32} (h : eadCheckRxIv rxIv iv = some iv') :
    iv' = iv ∧ rxIv < iv := by
  unfold eadCheckRxIv at h
  split at h
  · cases h
  · split at h
    · cases h
    · rename_i hlow _
      exact ⟨(Option.some.inj h).symm, BitVec.not_le.mp hlow⟩

theorem length_mapBlocks {f : List U8 → List U8} (hf : ∀ b, b.length = 16 → (f b).length = 16) :
    ∀ (n : Nat) {bytes : List U8}, n * 16 ≤ bytes.length →
      (mapBlocks f n bytes).length = bytes.length := by
  intro n
  induction n with
  | zero => intro bytes _; rfl
  | succ n ih =>
    intro bytes hn
    have hblock : (bytes.take 16).length = 16 := by
      rw [List.length_take]
      omega
    rw [mapBlocks, List.length_append, hf _ hblock, ih (by rw [List.length_drop]; omega),
      List.length_drop]
    omega

theorem mapBlocks_decrypt_encrypt (K : Cipher) (key : List U8) :
    ∀ (n : Nat) {bytes : List U8} (rest : List U8), bytes.length = n * 16 →
      mapBlocks (K.decrypt key) n (mapBlocks (K.encrypt key) n bytes ++ rest) = bytes ++ rest := by
  intro n
  induction n with
  | zero => intro bytes rest _; rfl
  | succ n ih =>
    intro bytes rest hn
    have hblock : (bytes.take 16).length = 16 := by
      rw [List.length_take]
      omega
    have henc := K.length_encrypt key _ hblock
    rw [mapBlocks, mapBlocks, List.append_assoc, List.take_left' henc, List.drop_left' henc,
      K.decrypt_encrypt key _ hblock, ih rest (by rw [List.length_drop]; omega),
      ← List.append_assoc, List.take_append_drop]

theorem padLength_lt (n : Nat) : padLength n < eadEncPad := Nat.mod_lt _ (by decide)

theorem length_layOut (hash : List U8) (iv : U32) (padding : List U8) (hhash : hash.length = 20) :
    (layOut hash iv data padding).length = data.length + sizeofEncrypted + padding.length := by
  simp only [layOut, List.length_append, List.length_singleton, length_htonl, hhash, sizeofEncrypted]
  omega

theorem length_layOut_padded (hash : List U8) (iv : U32) (padding : List U8)
    (hhash : hash.length = 20) (hpad : padding.length = padLength data.length) :
    (layOut hash iv data padding).length % 64 = 0 := by
  rw [length_layOut hash iv padding hhash, hpad, padLength, eadEncPad]
  omega

end Lemmas

end OpenwrtMtk.Ead
