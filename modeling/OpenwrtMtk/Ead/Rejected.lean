import OpenwrtMtk.Ead.Authenticity

/-!
# The messages that ead rejects

The tests of `ead_decrypt_message` run in the order padding, vector, hash, and the test of the vector
moves the window. A message that fails before the hash leaves the receiver as it was; one that only
the hash gives away has moved the window, and what lies below it is lost.
-/

namespace OpenwrtMtk.Ead

open Toolkit

set_option autoImplicit false

section Tests

variable (K : Cipher) (c : Crypt) (len : U32) (data : List U8)

/-- The length is one of whole blocks, and the message is there: it is decrypted. -/
def Decrypts : Prop :=
  ¬(len = 0 ∨ 0 < len.toInt.tmod eadEncPad) ∧
    ¬(data.length < len.toInt.toNat ∨ data.length < sizeofEncrypted)

/-- `enc->pad >= EAD_ENC_PAD`. -/
def WrongPadding : Prop := eadEncPad ≤ ((plainOf K c.key len data).getD 24 0).toNat

def WrongIv : Prop := eadCheckRxIv c.rxIv (ntohl (slice (plainOf K c.key len data) 20 4)) = none

def WrongHash : Prop := hashMatches K len.toInt.toNat (plainOf K c.key len data) = false

/-- `ead_decrypt_message` decrypts the message and does not take it. -/
def Rejects : Prop :=
  Decrypts len data ∧ (WrongPadding K c len data ∨ WrongIv K c len data ∨ WrongHash K c len data)

/-- `ead_decrypt_message` takes the message. -/
def Takes : Prop :=
  Decrypts len data ∧
    ¬(WrongPadding K c len data ∨ WrongIv K c len data ∨ WrongHash K c len data)

instance decidableRejects : Decidable (Rejects K c len data) := by
  unfold Rejects Decrypts WrongPadding WrongIv WrongHash
  infer_instance

instance decidableTakes : Decidable (Takes K c len data) := by
  unfold Takes Decrypts WrongPadding WrongIv WrongHash
  infer_instance

end Tests

def taken (K : Cipher) : Crypt → List (U32 × List U8) → List Bool
  | _, [] => []
  | c, m :: ms =>
    match eadDecryptMessage K c m.1 m.2 with
    | .error _ => []
    | .ok (c', _) => decide (Takes K c m.1 m.2) :: taken K c' ms

/-- The window is where it was, and whatever comes is taken as if nothing had happened. -/
structure Undisturbed (K : Cipher) (c c' : Crypt) : Prop where
  rxIv : c'.rxIv = c.rxIv
  taken : ∀ ms, taken K c' ms = taken K c ms

section Outcome

variable {K : Cipher} {c : Crypt} {len : U32} {data : List U8}

theorem decrypt_early (hdec : Decrypts len data)
    (h : WrongPadding K c len data ∨ WrongIv K c len data) :
    eadDecryptMessage K c len data = .ok (c, 0, plainOf K c.key len data) := by
  unfold eadDecryptMessage
  rw [if_neg hdec.1, if_neg hdec.2]
  dsimp only
  split
  · rfl
  · rename_i hpad
    have hiv : WrongIv K c len data := h.resolve_left hpad
    rw [WrongIv] at hiv
    rw [hiv]

theorem decrypt_late (hdec : Decrypts len data) (hpad : ¬WrongPadding K c len data)
    (hiv : ¬WrongIv K c len data) :
    ∃ iv, c.rxIv < iv ∧ eadDecryptMessage K c len data =
      if hashMatches K len.toInt.toNat (plainOf K c.key len data) then
        .ok ({ c with rxIv := iv },
          len - BitVec.ofNat 32 (((plainOf K c.key len data).getD 24 0).toNat + sizeofEncrypted),
          plainOf K c.key len data)
      else .ok ({ c with rxIv := iv }, 0, plainOf K c.key len data) := by
  obtain ⟨iv, hsome⟩ := Option.ne_none_iff_exists'.mp hiv
  obtain ⟨-, hfresh⟩ := checkRxIv_some hsome
  have hsame := (checkRxIv_some hsome).1
  refine ⟨iv, hsame ▸ hfresh, ?_⟩
  unfold eadDecryptMessage
  rw [if_neg hdec.1, if_neg hdec.2]
  dsimp only
  rw [WrongPadding] at hpad
  rw [if_neg hpad, hsome]

/-- A rejected message leaves the session undisturbed just if it does not come to the test of the
hash; a message that is taken raises the vector. -/
theorem rejected_undisturbed_iff (K : Cipher) (c : Crypt) (len : U32) (data : List U8) :
    (Rejects K c len data → ∃ c' plain, eadDecryptMessage K c len data = .ok (c', 0, plain) ∧
      (Undisturbed K c c' ↔ WrongPadding K c len data ∨ WrongIv K c len data)) ∧
    (Takes K c len data → ∃ c' n plain, eadDecryptMessage K c len data = .ok (c', n, plain) ∧
      c.rxIv < c'.rxIv) := by
  constructor
  · rintro ⟨hdec, hwrong⟩
    by_cases hearly : WrongPadding K c len data ∨ WrongIv K c len data
    · exact ⟨c, _, decrypt_early hdec hearly, iff_of_true ⟨rfl, fun _ => rfl⟩ hearly⟩
    · obtain ⟨hpad, hiv⟩ := not_or.mp hearly
      have hhash : WrongHash K c len data := (hwrong.resolve_left hpad).resolve_left hiv
      obtain ⟨iv, hfresh, heq⟩ := decrypt_late hdec hpad hiv
      rw [WrongHash] at hhash
      rw [hhash, if_neg Bool.false_ne_true] at heq
      refine ⟨_, _, heq, iff_of_false ?_ hearly⟩
      intro h
      have hmoved : iv = c.rxIv := h.rxIv
      rw [hmoved] at hfresh
      exact BitVec.lt_irrefl _ hfresh
  · rintro ⟨hdec, hright⟩
    obtain ⟨hpad, hlate⟩ := not_or.mp hright
    obtain ⟨hiv, hhash⟩ := not_or.mp hlate
    obtain ⟨iv, hfresh, heq⟩ := decrypt_late hdec hpad hiv
    rw [WrongHash, Bool.not_eq_false] at hhash
    rw [hhash, if_pos rfl] at heq
    exact ⟨_, _, _, heq, hfresh⟩

end Outcome

/-- A receiver at the vector 5, under the key 0 of `sumCipher`. -/
def listening : Crypt := ⟨[], 5, 5, 0, 0⟩

def nextMessage : List U8 := (eadEncryptMessage sumCipher listening [1, 2, 3] fun _ => 0).2.wire

def forgedBlock : List U8 := List.replicate 20 0xff ++ [0, 0, 0, 64] ++ List.replicate 40 0

/-- The forged block is rejected, and after it the message of the other side is rejected too. -/
theorem forged_block_disturbs :
    Rejects sumCipher listening 64 forgedBlock ∧
    eadDecryptMessage sumCipher listening 64 forgedBlock =
      .ok ({ listening with rxIv := 64 }, 0, forgedBlock) ∧
    Takes sumCipher listening 64 nextMessage ∧
    ¬Takes sumCipher { listening with rxIv := 64 } 64 nextMessage := by
  decide +kernel

end OpenwrtMtk.Ead
