import Mathlib.Data.Set.Finite.List
import OpenwrtMtk.Ead.FrameAccess
import OpenwrtMtk.Ead.Rejected
import OpenwrtMtk.Ead.Session

/-!
# Which frames ead handles inside their bounds

The sum of the sizes in `handle_packet` wraps for lengths just below zero, and `handle_send_a` takes
a byte off the length before it looks at its sign. A command is decrypted inside of the frame, and
its terminating zero goes behind its last byte that is no padding.
-/

namespace OpenwrtMtk.Ead

open Toolkit

set_option autoImplicit false

section Words

variable {len : U32}

theorem toInt_cases (w : U32) : (w.toInt = w.toNat ∧ w.toNat < 2 ^ 31) ∨
    (w.toInt = w.toNat - 2 ^ 32 ∧ 2 ^ 31 ≤ w.toNat) := by
  rw [BitVec.toInt_eq_toNat_cond]
  split
  · exact Or.inl ⟨rfl, by omega⟩
  · exact Or.inr ⟨rfl, by omega⟩

theorem toNat_sub_small (w : U32) {n : Nat} (hn : n < 2 ^ 32) :
    (w - BitVec.ofNat 32 n).toNat = (2 ^ 32 - n + w.toNat) % 2 ^ 32 := by
  rw [BitVec.toNat_sub, BitVec.toNat_ofNat, Nat.mod_eq_of_lt hn]

theorem length_of_framed {cfg : Config} {frame : List U8} (hframed : wellFramed cfg (frameFields frame))
    (hmru : frame.length ≤ pcapMru) :
    (0 ≤ (frameFields frame).len.toInt →
      sizeofPacket + (frameFields frame).len.toInt.toNat ≤ frame.length) ∧
    -62 ≤ (frameFields frame).len.toInt := by
  obtain ⟨-, -, -, -, -, -, hsum, -⟩ := hframed
  have hlen := (frameFields frame).len.isLt
  have hhlen : (frameFields frame).hlen = frame.length := rfl
  rw [BitVec.toNat_add, BitVec.toNat_ofNat, hhlen] at hsum
  rw [sizeofPacket] at hsum ⊢
  rw [pcapMru] at hmru
  rcases toInt_cases (frameFields frame).len with ⟨heq, hsmall⟩ | ⟨heq, hlarge⟩
  · rw [heq]
    omega
  · rw [heq]
    omega

end Words

section SendA

variable {frame : List U8} {len : U32}

theorem sendAIn_ends_iff (hframe : 0 ≤ len.toInt → sizeofPacket + len.toInt.toNat ≤ frame.length) :
    Ends (sendAIn frame len) ↔ ¬(len - 1).toInt < 0 := by
  have hsub : (len - 1).toNat = (2 ^ 32 - 1 + len.toNat) % 2 ^ 32 := toNat_sub_small len (by decide)
  have hlen := len.isLt
  unfold sendAIn
  by_cases hlong : ((maxParamLen + 1 : Nat) : Int) < (len - 1).toInt
  · rw [if_pos hlong]
    refine iff_of_true (ends_pure ()) ?_
    omega
  · rw [if_neg hlong]
    rw [maxParamLen] at hlong
    constructor
    · intro h hneg
      obtain ⟨hload, h⟩ := ends_load.mp h
      obtain ⟨stored, hstore, -⟩ := ends_bind.mp h
      unfold store storeIn at hstore
      split at hstore
      · rename_i hfits
        rw [length_slice hload, List.length_replicate, sizeofAbuf, maxParamLen] at hfits
        rcases toInt_cases (len - 1) with ⟨heq, hsmall⟩ | ⟨heq, hlarge⟩
        · omega
        · omega
      · cases hstore
    · intro hpos
      rw [sizeofPacket] at hframe
      have hload : sizeofPacket + 1 + (len - 1).toNat ≤ frame.length := by
        rw [sizeofPacket]
        rcases toInt_cases (len - 1) with ⟨heq, hsmall⟩ | ⟨heq, hlarge⟩
        · rcases toInt_cases len with ⟨heq', hsmall'⟩ | ⟨heq', hlarge'⟩
          · omega
          · omega
        · omega
      have hstore : 0 + (slice frame (sizeofPacket + 1) (len - 1).toNat).length ≤
          (List.replicate sizeofAbuf (0 : U8)).length := by
        rw [length_slice hload, List.length_replicate, sizeofAbuf, maxParamLen]
        rcases toInt_cases (len - 1) with ⟨heq, hsmall⟩ | ⟨heq, hlarge⟩
        · omega
        · omega
      rw [bind_ok (load_ok hload), bind_ok (store_ok hstore)]
      exact ends_pure ()

end SendA

section Decrypt

variable {f : List U8 → List U8} {frame : List U8}

theorem decryptBlocks_eq (hf : ∀ b : List U8, b.length = 16 → (f b).length = 16) (n : Nat) {off : Nat}
    (h : off + 16 * n ≤ frame.length) :
    decryptBlocks f n off frame = .ok (frame.take off ++ mapBlocks f n (frame.drop off)) := by
  induction n generalizing off frame with
  | zero =>
    rw [mapBlocks, List.take_append_drop]
    rfl
  | succ n ih =>
    have hload : off + 16 ≤ frame.length := by omega
    have hblock : (f (slice frame off 16)).length = 16 := hf _ (length_slice hload)
    have hstore : off + (f (slice frame off 16)).length ≤ frame.length := by omega
    have hlength := length_overwrite hstore
    have hfront : (frame.take off ++ f (slice frame off 16)).length = off + 16 := by
      rw [List.length_append, List.length_take, hblock]
      omega
    have hsplit : overwrite frame off (f (slice frame off 16)) =
        (frame.take off ++ f (slice frame off 16)) ++ frame.drop (off + 16) := by
      rw [overwrite, hblock]
    rw [decryptBlocks, bind_ok (load_ok hload), bind_ok (store_ok hstore), ih (by omega), hsplit,
      List.take_left' hfront, List.drop_left' hfront, mapBlocks, List.drop_drop, slice,
      List.append_assoc]

theorem hashBlocks_eq (n : Nat) {off : Nat} (h : off + 64 * n ≤ frame.length) :
    hashBlocks frame n off = .ok (slice frame off (64 * n)) := by
  induction n generalizing off with
  | zero =>
    rw [Nat.mul_zero, slice, List.take_zero]
    rfl
  | succ n ih =>
    rw [hashBlocks, bind_ok (load_ok (by omega)), bind_ok (ih (by omega)),
      show 64 * (n + 1) = 64 + 64 * n by omega, slice_add]
    rfl

theorem length_decrypt (K : Cipher) (key : List U8) {block : List U8} (h : block.length = 16) :
    (K.decrypt key block).length = 16 := by
  have hbytes : Finite U8 := Finite.of_injective BitVec.toFin fun _ _ => BitVec.eq_of_toFin_eq
  let blocks : Set (List U8) := {b | b.length = 16}
  have hmaps : Set.MapsTo (K.encrypt key) blocks blocks := fun b hb => K.length_encrypt key b hb
  have hinj : Set.InjOn (K.encrypt key) blocks := by
    intro a ha b hb heq
    have hdec := congrArg (K.decrypt key) heq
    rw [K.decrypt_encrypt key a ha, K.decrypt_encrypt key b hb] at hdec
    exact hdec
  have hbij := ((List.finite_length_eq U8 16).injOn_iff_bijOn_of_mapsTo hmaps).mp hinj
  obtain ⟨b, hb, hencrypted⟩ := hbij.surjOn h
  rw [← hencrypted, K.decrypt_encrypt key b hb]
  exact hb

variable {K : Cipher} {c : Crypt} {len : U32}

def padOf (K : Cipher) (c : Crypt) (len : U32) (data : List U8) : Nat :=
  ((plainOf K c.key len data).getD 24 0).toNat

theorem decryptIn_eq (hneed : sizeofPacket + (3 + sizeofEncrypted) ≤ frame.length)
    (hlen : sizeofPacket + len.toInt.toNat ≤ frame.length) :
    ∃ frame', frame'.length = frame.length ∧ decryptIn K c frame len =
      .ok (if Takes K c len (frame.drop sizeofPacket) then
          len - BitVec.ofNat 32 (padOf K c len (frame.drop sizeofPacket) + sizeofEncrypted)
        else 0, frame') := by
  have hdata : (frame.drop sizeofPacket).length = frame.length - sizeofPacket := List.length_drop
  have hthere : ¬((frame.drop sizeofPacket).length < len.toInt.toNat ∨
      (frame.drop sizeofPacket).length < sizeofEncrypted) := by
    omega
  unfold decryptIn
  by_cases hwhole : len = 0 ∨ 0 < len.toInt.tmod eadEncPad
  · refine ⟨frame, rfl, ?_⟩
    rw [if_pos hwhole, if_neg fun h => h.1.1 hwhole]
    rfl
  · rw [if_neg hwhole]
    have hdec : Decrypts len (frame.drop sizeofPacket) := ⟨hwhole, hthere⟩
    have hblocks : sizeofPacket + 16 * (len.toInt.toNat / 16) ≤ frame.length := by omega
    have hsize : ∀ b : List U8, b.length = 16 → (K.decrypt c.key b).length = 16 :=
      fun b hb => length_decrypt K c.key hb
    let plain := plainOf K c.key len (frame.drop sizeofPacket)
    have hplain : plain.length = frame.length - sizeofPacket := by
      have hmul : len.toInt.toNat / 16 * 16 ≤ (frame.drop sizeofPacket).length := by omega
      rw [← hdata]
      exact length_mapBlocks hsize _ hmul
    have hfront : (frame.take sizeofPacket).length = sizeofPacket := by
      rw [List.length_take]
      omega
    let mid := frame.take sizeofPacket ++ plain
    have hmid : mid.length = frame.length := by
      rw [List.length_append, hfront, hplain]
      omega
    have hdecrypted : decryptBlocks (K.decrypt c.key) (len.toInt.toNat / 16) sizeofPacket frame =
        .ok mid := decryptBlocks_eq hsize _ hblocks
    have hread (off n : Nat) : slice mid (sizeofPacket + off) n = slice plain off n := by
      rw [slice, slice, ← List.drop_drop, List.drop_left' hfront]
    rw [sizeofEncrypted] at hneed
    have hpad : loadByte mid (sizeofPacket + 24) = .ok (plain.getD 24 0) := by
      have hin : sizeofPacket + 24 < mid.length := by omega
      rw [loadByte_ok hin]
      congr 1
      rw [List.getD_eq_getElem?_getD, List.getD_eq_getElem?_getD,
        List.getElem?_append_right (by omega), hfront, Nat.add_sub_cancel_left]
    rw [bind_ok hdecrypted, bind_ok hpad]
    by_cases hwrong : eadEncPad ≤ (plain.getD 24 0).toNat
    · refine ⟨mid, hmid, ?_⟩
      rw [if_pos hwrong, if_neg fun h => h.2 (Or.inl hwrong)]
      rfl
    · have hiv : load mid (sizeofPacket + 20) 4 = .ok (slice plain 20 4) := by
        rw [load_ok (by omega), hread]
      rw [if_neg hwrong, bind_ok hiv]
      cases hcheck : eadCheckRxIv c.rxIv (ntohl (slice plain 20 4)) with
      | none =>
        refine ⟨mid, hmid, ?_⟩
        rw [if_neg fun h => h.2 (Or.inr (Or.inl hcheck))]
        rfl
      | some iv =>
        have hold : load mid sizeofPacket 20 = .ok (plain.take 20) := by
          rw [load_ok (by omega), ← Nat.add_zero sizeofPacket, hread]
          rfl
        have hzero : sizeofPacket + zeroHash.length ≤ mid.length := by
          rw [zeroHash, List.length_replicate]
          omega
        let cleared := overwrite mid sizeofPacket zeroHash
        have hcleared : cleared.length = frame.length := (length_overwrite hzero).trans hmid
        have hhash : hashBlocks cleared (len.toInt.toNat / 64) sizeofPacket =
            .ok ((zeroHash ++ plain.drop 20).take (64 * (len.toInt.toNat / 64))) := by
          rw [hashBlocks_eq _ (by omega)]
          congr 1
          rw [slice]
          congr 1
          have hclear : cleared = frame.take sizeofPacket ++ (zeroHash ++ plain.drop 20) := by
            have hbehind : mid.drop (sizeofPacket + zeroHash.length) = plain.drop 20 := by
              rw [← List.drop_drop, List.drop_left' hfront]
              rfl
            change mid.take sizeofPacket ++ zeroHash ++ mid.drop (sizeofPacket + zeroHash.length) = _
            rw [hbehind, List.take_left' hfront, List.append_assoc]
          rw [hclear, List.drop_left' hfront]
        have hmultiple : 64 * (len.toInt.toNat / 64) = len.toInt.toNat := by
          have hmod := (not_or.mp hwhole).2
          rw [eadEncPad] at hmod
          by_cases hpos : 0 ≤ len.toInt
          · rw [Int.tmod_eq_emod_of_nonneg hpos] at hmod
            omega
          · omega
        refine ⟨cleared, hcleared, ?_⟩
        dsimp only
        rw [bind_ok hold, bind_ok (store_ok hzero), bind_ok hhash, hmultiple]
        have htakes : Takes K c len (frame.drop sizeofPacket) ↔
            K.sha ((zeroHash ++ plain.drop 20).take len.toInt.toNat) = plain.take 20 := by
          have hsome : ¬WrongIv K c len (frame.drop sizeofPacket) := by
            intro h
            rw [WrongIv] at h
            exact Option.some_ne_none iv (hcheck.symm.trans h)
          constructor
          · rintro ⟨-, hright⟩
            by_contra hne
            exact hright (Or.inr (Or.inr (decide_eq_false hne)))
          · intro heq
            refine ⟨hdec, ?_⟩
            rintro (h | h | h)
            · exact hwrong h
            · exact hsome h
            · exact absurd heq (of_decide_eq_false h)
        by_cases hsame : K.sha ((zeroHash ++ plain.drop 20).take len.toInt.toNat) = plain.take 20
        · rw [if_pos hsame, if_pos (htakes.mpr hsame)]
          rfl
        · rw [if_neg hsame, if_neg (mt htakes.mp hsame)]
          rfl

end Decrypt

section Frames

/-- A frame at the beginning of the buffer that it was captured in. -/
structure Captured where
  frame : List U8
  size : Nat
  fits : frame.length ≤ size
  snapped : frame.length ≤ pcapMru

variable {cfg : Config} {K : Cipher} {s : State} {cap : Captured}

/-- A message for `handle_send_a` whose length is negative without the byte of its header. -/
def NegativeLength (cfg : Config) (s : State) (frame : List U8) : Prop :=
  Dispatched cfg s (frameFields frame) .sendA ∧ ((frameFields frame).len - 1).toInt < 0

/-- A command is taken that has no padding and ends where the packet buffer does. -/
def ZeroBehind (cfg : Config) (K : Cipher) (s : State) (cap : Captured) : Prop :=
  Dispatched cfg s (frameFields cap.frame) .sendCmd ∧
    Takes K s.crypt (frameFields cap.frame).len (cap.frame.drop sizeofPacket) ∧
    padOf K s.crypt (frameFields cap.frame).len (cap.frame.drop sizeofPacket) = 0 ∧
    (sizeofPacket : Int) + (frameFields cap.frame).len.toInt = cap.size

theorem Takes.sizes {c : Crypt} {len : U32} {data : List U8} (h : Takes K c len data) :
    (0 ≤ len.toInt → len.toInt % 64 = 0) ∧ padOf K c len data < 64 := by
  obtain ⟨⟨hwhole, -⟩, hright⟩ := h
  refine ⟨?_, Nat.lt_of_not_le (not_or.mp hright).1⟩
  intro hpos
  have hmod := (not_or.mp hwhole).2
  rw [eadEncPad, Int.tmod_eq_emod_of_nonneg hpos] at hmod
  omega

theorem datalen_eq {c : Crypt} {len : U32} {data : List U8} (h : Takes K c len data)
    (hlow : -62 ≤ len.toInt) :
    (len - BitVec.ofNat 32 (padOf K c len data + sizeofEncrypted) - 3).toInt =
      len.toInt - (padOf K c len data + 28 : Nat) := by
  obtain ⟨-, hpad⟩ := h.sizes
  have hlen := len.isLt
  have hfirst := toNat_sub_small len (n := padOf K c len data + sizeofEncrypted) (by
    rw [sizeofEncrypted]
    omega)
  have hsecond := toNat_sub_small
    (len - BitVec.ofNat 32 (padOf K c len data + sizeofEncrypted)) (n := 3) (by decide)
  rw [sizeofEncrypted] at hfirst
  change (len - BitVec.ofNat 32 (padOf K c len data + sizeofEncrypted) - 3).toNat = _ at hsecond
  rw [sizeofEncrypted] at hsecond ⊢
  rcases toInt_cases len with ⟨heq, hsmall⟩ | ⟨heq, hlarge⟩
  · rcases toInt_cases (len - BitVec.ofNat 32 (padOf K c len data + 25) - 3) with
      ⟨heq', hsmall'⟩ | ⟨heq', hlarge'⟩
    · omega
    · omega
  · rcases toInt_cases (len - BitVec.ofNat 32 (padOf K c len data + 25) - 3) with
      ⟨heq', hsmall'⟩ | ⟨heq', hlarge'⟩
    · omega
    · omega

theorem sendCmdIn_ends_iff {c : Crypt} {frame : List U8} {len : U32} {size : Nat}
    (hneed : sizeofPacket + (3 + sizeofEncrypted) ≤ frame.length) (hlow : -62 ≤ len.toInt)
    (hlen : sizeofPacket + len.toInt.toNat ≤ frame.length) (hsize : frame.length ≤ size) :
    Ends (sendCmdIn K c frame len size) ↔ ¬(Takes K c len (frame.drop sizeofPacket) ∧
      padOf K c len (frame.drop sizeofPacket) = 0 ∧ (sizeofPacket : Int) + len.toInt = size) := by
  obtain ⟨frame', hlength, hdecrypt⟩ := decryptIn_eq (K := K) (c := c) hneed hlen
  unfold sendCmdIn
  rw [bind_ok hdecrypt]
  dsimp only
  by_cases htakes : Takes K c len (frame.drop sizeofPacket)
  · have hdatalen := datalen_eq htakes hlow
    obtain ⟨hwhole, hpad⟩ := htakes.sizes
    rw [if_pos htakes, hdatalen]
    by_cases hempty : len.toInt - (padOf K c len (frame.drop sizeofPacket) + 28 : Nat) ≤ 0
    · rw [if_pos hempty]
      refine iff_of_true (ends_pure ()) ?_
      rintro ⟨-, hzero, hend⟩
      rw [sizeofPacket, sizeofEncrypted] at hneed
      rw [sizeofPacket] at hend
      omega
    · rw [if_neg hempty]
      let n := (len.toInt - (padOf K c len (frame.drop sizeofPacket) + 28 : Nat)).toNat
      let off := sizeofPacket + sizeofEncrypted + 3
      have hoff : off = 90 := rfl
      have hnum : sizeofPacket = 62 := rfl
      have hin : off + n ≤ frame'.length := by omega
      have htype : sizeofPacket + sizeofEncrypted < frame'.length := by omega
      have htimeout : sizeofPacket + sizeofEncrypted + 1 + 2 ≤ frame'.length := by omega
      rw [bind_ok (loadByte_ok htype), bind_ok (load_ok htimeout), bind_ok (load_ok hin)]
      change Ends (storeIn frame' 0 size (off + n) [0] >>= fun _ => return ()) ↔ _
      rw [storeIn]
      by_cases hstore : off + n + 1 ≤ size
      · rw [if_pos ⟨Nat.zero_le _, hstore⟩]
        refine iff_of_true (ends_pure ()) ?_
        rintro ⟨-, hzero, hend⟩
        omega
      · rw [if_neg fun h => hstore h.2]
        refine iff_of_false (fun h => Ends.error h) (not_not_intro ⟨htakes, ?_, ?_⟩)
        · omega
        · omega
  · rw [if_neg htakes]
    refine iff_of_true (ends_pure ()) ?_
    rintro ⟨h, -⟩
    exact htakes h

theorem negative_leaves (cap : Captured) (h : NegativeLength cfg s cap.frame) :
    ¬Ends (handlePacketIn cfg K s cap.frame cap.size) := by
  intro hends
  obtain ⟨hdispatched, hneg⟩ := h
  have hlen := length_of_framed hdispatched.1 cap.snapped
  exact (sendAIn_ends_iff hlen.1).mp (handlePacketIn_ends.mp hends .sendA hdispatched) hneg

/-- A frame is handled inside of it, of `abuf` and of the packet buffer, if and only if its length is
not negative behind the header of `handle_send_a` and the zero of a command is not written behind
the buffer. In a buffer of `PCAP_MRU` bytes that zero always has a place. -/
theorem handlePacket_inBounds_iff (cfg : Config) (K : Cipher) (s : State) (cap : Captured) :
    (Ends (handlePacketIn cfg K s cap.frame cap.size) ↔
      ¬NegativeLength cfg s cap.frame ∧ ¬ZeroBehind cfg K s cap) ∧
    (pcapMru ≤ cap.size → ¬ZeroBehind cfg K s cap) := by
  have hsent (hframed : wellFramed cfg (frameFields cap.frame)) :
      sizeofPacket + (frameFields cap.frame).len.toInt.toNat ≤ cap.frame.length := by
    have hfits := (length_of_framed hframed cap.snapped).1
    have hheader : sizeofPacket ≤ cap.frame.length := hframed.1
    by_cases hpos : 0 ≤ (frameFields cap.frame).len.toInt
    · exact hfits hpos
    · omega
  have hcmd (hdispatched : Dispatched cfg s (frameFields cap.frame) .sendCmd) :
      Ends (sendCmdIn K s.crypt cap.frame (frameFields cap.frame).len cap.size) ↔
        ¬ZeroBehind cfg K s cap := by
    obtain ⟨need, hneed, hle⟩ := hdispatched.2.2.2
    cases hneed
    rw [sendCmdIn_ends_iff hle (length_of_framed hdispatched.1 cap.snapped).2
      (hsent hdispatched.1) cap.fits]
    constructor
    · exact fun h hzero => h hzero.2
    · exact fun h hzero => h ⟨hdispatched, hzero⟩
  refine ⟨?_, ?_⟩
  · constructor
    · intro h
      refine ⟨fun hneg => negative_leaves cap hneg h, ?_⟩
      intro hzero
      exact (hcmd hzero.1).mp (handlePacketIn_ends.mp h .sendCmd hzero.1) hzero
    · rintro ⟨hneg, hzero⟩
      rw [handlePacketIn_ends]
      intro t hdispatched
      obtain ⟨need, hneed, hle⟩ := hdispatched.2.2.2
      have hlen := length_of_framed hdispatched.1 cap.snapped
      cases t with
      | setUsername =>
        cases hneed
        exact (ends_load (f := fun _ => return ())).mpr ⟨hle, ends_pure ()⟩
      | sendA => exact (sendAIn_ends_iff hlen.1).mpr fun h => hneg ⟨hdispatched, h⟩
      | sendAuth =>
        cases hneed
        exact (ends_load (f := fun _ => return ())).mpr ⟨hle, ends_pure ()⟩
      | sendCmd => exact (hcmd hdispatched).mpr hzero
      | ping => exact ends_pure ()
      | getPrime => exact ends_pure ()
      | pong => exact ends_pure ()
      | ackUsername => exact ends_pure ()
      | prime => exact ends_pure ()
      | sendB => exact ends_pure ()
      | doneAuth => exact ends_pure ()
      | resultCmd => exact ends_pure ()
  · rintro hmru ⟨hdispatched, htakes, -, hend⟩
    have hfits := hsent hdispatched.1
    have hsnapped := cap.snapped
    have hwhole := htakes.sizes.1
    rw [sizeofPacket] at hfits hend
    rw [pcapMru] at hmru hsnapped
    omega

end Frames

/-- A frame for `handle_send_a` with one byte behind the header, and the length 0. -/
def emptyA : List U8 :=
  broadcast ++ List.replicate 6 0 ++ [0x08, 0x00] ++ List.replicate 9 0 ++ [17] ++
    List.replicate 12 0 ++ [0xda, 0xda] ++ List.replicate 4 0 ++ htonl eadMagic ++ htonl 0 ++
    htonl 6 ++ [0xff, 0xff, 0, 0] ++ List.replicate 4 0 ++ [0]

/-- After a user name and the request for the prime, `emptyA` makes `memcpy` copy 2³² - 1 bytes. -/
theorem emptyA_leaves_frame : ¬∀ (cfg : Config) (K : Cipher) (password : Password) (crypt : Crypt)
    (packets : List (Oracle × Packet)) (σ : Session) (cap : Captured),
    Run (Graph (sessionStep cfg K)) ⟨initialState password crypt, []⟩ packets σ →
      cap.size = pcapMru → Ends (handlePacketIn cfg K σ.s cap.frame cap.size) := by
  intro h
  have hexec : (exec (sessionStep someConfig sumCipher) ⟨initialState ⟨0, []⟩ noCrypt, []⟩
      (loginPackets.take 2)).map (fun σ => decide (dispatches someConfig σ.s (frameFields emptyA)
        .sendA)) = some true := by
    decide +kernel
  obtain ⟨σ, hσ, hdispatch⟩ := Option.map_eq_some_iff.mp hexec
  have hframed : wellFramed someConfig (frameFields emptyA) ∧
      eadType (frameFields emptyA).type = some .sendA ∧
      sizeofPacket + 1 ≤ (frameFields emptyA).hlen ∧
      ((frameFields emptyA).len - 1).toInt < 0 := by
    decide +kernel
  obtain ⟨hwell, htype, hle, hneg⟩ := hframed
  have hlength : emptyA.length ≤ pcapMru := by decide
  have hnegative : NegativeLength someConfig σ.s emptyA :=
    ⟨⟨hwell, htype, of_decide_eq_true hdispatch, 1, rfl, hle⟩, hneg⟩
  have hends : Ends (handlePacketIn someConfig sumCipher σ.s emptyA pcapMru) :=
    h someConfig sumCipher ⟨0, []⟩ noCrypt (loginPackets.take 2) σ
      ⟨emptyA, pcapMru, hlength, hlength⟩ (exec_run hσ) rfl
  exact negative_leaves ⟨emptyA, pcapMru, hlength, hlength⟩ hnegative hends

end OpenwrtMtk.Ead
