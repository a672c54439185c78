import OpenwrtMtk.FirmwareUtils.Seama

/-!
# Packed files and their verification

Packer and verifier take the digest of the same pieces. A packed file whose image is not empty is
accepted, whatever follows it; one whose image is empty has a checksum that the verifier takes for
meta data, and is refused.
-/

namespace OpenwrtMtk.FirmwareUtils

open Toolkit

set_option autoImplicit false

section Digests

variable {data tail : List U8} {size turns r : Nat} {ctx : Md5Ctx}

def digestOf (data : List U8) : List U8 :=
  md5Final ((pieces maxSeamaMetaSize data).foldl md5Update md5Init)

theorem digestLoop_sized (hsize : size ≠ 0) (hturns : data.length < turns) :
    digestLoop size turns ⟨data ++ tail, false⟩ data.length r ctx =
      (r + data.length, (pieces maxSeamaMetaSize data).foldl md5Update ctx, ⟨tail, false⟩) := by
  induction data using pieces_induction (by decide : 0 < maxSeamaMetaSize)
    generalizing turns r ctx with
  | nil =>
    cases turns with
    | zero => omega
    | succ turns => simp [digestLoop]
  | cons data hdata ih =>
    cases turns with
    | zero => omega
    | succ turns =>
      have hpos := List.length_pos_iff.mpr hdata
      have hcount : (data.take maxSeamaMetaSize).length =
          if data.length < maxSeamaMetaSize then data.length else maxSeamaMetaSize := by
        rw [List.length_take]
        split
        · omega
        · omega
      have hsplit : data ++ tail =
          data.take maxSeamaMetaSize ++ (data.drop maxSeamaMetaSize ++ tail) := by
        rw [← List.append_assoc, List.take_append_drop]
      have hread : 0 < (data.take maxSeamaMetaSize).length := by
        rw [hcount]
        split
        · exact hpos
        · decide
      have hsum : (data.take maxSeamaMetaSize).length + (data.drop maxSeamaMetaSize).length =
          data.length := by
        rw [← List.length_append, List.take_append_drop]
      have hleft : data.length - (data.take maxSeamaMetaSize).length =
          (data.drop maxSeamaMetaSize).length := by omega
      have hdrop : (data.drop maxSeamaMetaSize).length < turns := by omega
      rw [digestLoop, hsplit, if_neg (by simpa using by omega), ← hcount,
        File.fread_append rfl]
      dsimp only
      rw [if_pos hread, if_neg hsize, hleft, ih hdrop, pieces_cons (by decide) hdata,
        List.foldl_cons, Nat.add_assoc, hsum]

theorem digestLoop_all (hturns : data.length + 1 < turns) :
    digestLoop 0 turns ⟨data, false⟩ maxSeamaMetaSize r ctx =
      (r + data.length, (pieces maxSeamaMetaSize data).foldl md5Update ctx, ⟨[], true⟩) := by
  induction turns generalizing data r ctx with
  | zero => omega
  | succ turns ih =>
    rw [digestLoop, if_neg (by simp [maxSeamaMetaSize]), if_neg (Nat.lt_irrefl _)]
    by_cases hshort : data.length < maxSeamaMetaSize
    · rw [File.fread_short hshort]
      dsimp only
      cases turns with
      | zero => omega
      | succ turns =>
        rw [digestLoop, if_pos (by rfl)]
        by_cases hdata : data = []
        · subst hdata
          rw [if_neg (by decide), pieces_nil]
          rfl
        · rw [if_pos (List.length_pos_iff.mpr hdata), pieces_short hdata (Nat.le_of_lt hshort)]
          rfl
    · have hlong : maxSeamaMetaSize ≤ data.length := Nat.le_of_not_lt hshort
      have hlen : (data.take maxSeamaMetaSize).length = maxSeamaMetaSize := by
        rw [List.length_take, Nat.min_eq_left hlong]
      have hpos : 0 < maxSeamaMetaSize := by decide
      have hdata : data ≠ [] := by
        intro hnil
        rw [hnil] at hlong
        exact absurd hlong (by decide)
      rw [File.fread_take hlong]
      dsimp only
      rw [if_pos rfl, if_pos (by rw [hlen]; exact hpos),
        ih (by rw [List.length_drop]; omega), pieces_cons hpos hdata, List.foldl_cons, hlen,
        List.length_drop, Nat.add_assoc, Nat.add_sub_cancel' hlong]

theorem copyLoop_eq (hturns : data.length + 1 < turns) : copyLoop turns ⟨data, false⟩ = data := by
  induction turns generalizing data with
  | zero => omega
  | succ turns ih =>
    rw [copyLoop, if_neg Bool.false_ne_true]
    by_cases hshort : data.length < 8 * 1024
    · rw [File.fread_short hshort]
      cases turns with
      | zero => omega
      | succ turns => exact List.append_nil data
    · rw [File.fread_take (Nat.le_of_not_lt hshort)]
      dsimp only
      rw [ih (by rw [List.length_drop]; omega), List.take_append_drop]

theorem calculateDigest_sized (hdata : data ≠ []) :
    calculateDigest ⟨data ++ tail, false⟩ data.length =
      (data.length, digestOf data, ⟨tail, false⟩) := by
  have hsize : data.length ≠ 0 := fun h => hdata (List.length_eq_zero_iff.mp h)
  rw [calculateDigest, if_neg hsize,
    digestLoop_sized hsize (by dsimp only; rw [List.length_append]; omega), Nat.zero_add]
  rfl

theorem calculateDigest_all (data : List U8) :
    calculateDigest (.opened data) 0 = (data.length, digestOf data, ⟨[], true⟩) := by
  rw [calculateDigest, if_pos rfl, File.opened,
    digestLoop_all (by dsimp only; omega), Nat.zero_add]
  rfl

theorem copyFile_eq (data : List U8) : copyFile (.opened data) = data :=
  copyLoop_eq (by dsimp only [File.opened]; omega)

theorem packFile_eq (metas : List CString) (data : List U8) :
    packFile metas data = writeSeamaHeader metas data.length ++ digestOf data ++
      writeMetaData metas ++ data := by
  rw [packFile, calculateDigest_all, copyFile_eq]

theorem length_digestOf (data : List U8) : (digestOf data).length = 16 := length_md5Final _

end Digests

section Headers

variable {metas : List CString} {size : Nat}

def encodedLen (metas : List CString) : Nat := (metas.flatMap fun s => s.1 ++ [0]).length

theorem length_writeMetaData (metas : List CString) :
    (writeMetaData metas).length = (encodedLen metas + 3) / 4 * 4 := by
  rw [writeMetaData, List.length_append, List.length_replicate]
  unfold encodedLen
  omega

theorem foldl_metaSize (metas : List CString) (n : U16) :
    metas.foldl (fun n s => n + BitVec.ofNat 16 (s.1.length + 1)) n =
      n + BitVec.ofNat 16 (encodedLen metas) := by
  induction metas generalizing n with
  | nil => rw [List.foldl_nil]; exact (BitVec.add_zero n).symm
  | cons s metas ih =>
    have hlen : encodedLen (s :: metas) = s.1.length + 1 + encodedLen metas := by
      rw [encodedLen, List.flatMap_cons, List.length_append, List.length_append,
        List.length_singleton, encodedLen]
    rw [List.foldl_cons, ih, hlen, BitVec.ofNat_add (s.1.length + 1) (encodedLen metas),
      BitVec.add_assoc]

theorem metaSize_eq (h : encodedLen metas + 3 < 2 ^ 16) :
    (metaSize metas).toNat = (writeMetaData metas).length := by
  have hsum : (BitVec.ofNat 16 (encodedLen metas)).toNat = encodedLen metas := by
    rw [BitVec.toNat_ofNat]
    exact Nat.mod_eq_of_lt (by omega)
  have hzero : 0 + BitVec.ofNat 16 (encodedLen metas) = BitVec.ofNat 16 (encodedLen metas) :=
    BitVec.zero_add _
  rw [metaSize, foldl_metaSize, hzero, length_writeMetaData, hsum, BitVec.toNat_ofNat]
  exact Nat.mod_eq_of_lt (by omega)

theorem length_writeSeamaHeader (metas : List CString) (size : Nat) :
    (writeSeamaHeader metas size).length = 12 := rfl

theorem hasMagic_header (metas : List CString) (size : Nat) :
    hasMagic (writeSeamaHeader metas size) = true := decide_eq_true rfl

theorem headerMetaSize_header (h : encodedLen metas + 3 < 2 ^ 16) :
    headerMetaSize (writeSeamaHeader metas size) = (writeMetaData metas).length := by
  rw [← metaSize_eq h]
  exact congrArg BitVec.toNat (append_bytes16 (metaSize metas))

theorem headerSize_header (h : size < 2 ^ 32) :
    headerSize (writeSeamaHeader metas size) = size := by
  have hword : headerSize (writeSeamaHeader metas size) = (BitVec.ofNat 32 size).toNat :=
    congrArg BitVec.toNat (append_bytes32 (BitVec.ofNat 32 size))
  rw [hword, BitVec.toNat_ofNat]
  exact Nat.mod_eq_of_lt h

end Headers

section Verify

variable {metas : List CString} {data tail rest : List U8} {turns : Nat} {ret e : Bool}

theorem verifyLoop_seal (hmetas : encodedLen metas + 3 < 2 ^ 16) :
    verifyLoop (turns + 1) ⟨writeSeamaHeader metas 0 ++ (writeMetaData metas ++ tail), false⟩ ret =
      if maxSeamaMetaSize < (writeMetaData metas).length then ret
      else verifyLoop turns ⟨tail, false⟩ ret := by
  rw [verifyLoop, if_neg Bool.false_ne_true, File.fread_append (length_writeSeamaHeader _ _)]
  dsimp only
  rw [if_neg (by simp [length_writeSeamaHeader]), hasMagic_header,
    headerSize_header (by decide), headerMetaSize_header hmetas]
  rw [if_neg (by decide), if_neg (Nat.lt_irrefl 0), if_neg (by omega)]
  split
  · rfl
  · rw [File.fread_append rfl]
    dsimp only
    rw [if_neg (by simp), if_pos rfl]

theorem verifyLoop_image (hmetas : encodedLen metas ≤ maxSeamaMetaSize) (hdata : data ≠ [])
    (hlen : data.length < 2 ^ 32) :
    verifyLoop (turns + 1) ⟨packFile metas data ++ tail, false⟩ ret =
      verifyLoop turns ⟨tail, false⟩ true := by
  have hpos := List.length_pos_iff.mpr hdata
  have hbuf : ¬ maxSeamaMetaSize < (writeMetaData metas).length := by
    rw [length_writeMetaData]
    unfold maxSeamaMetaSize at hmetas ⊢
    omega
  have hfield : encodedLen metas + 3 < 2 ^ 16 := by
    unfold maxSeamaMetaSize at hmetas
    omega
  have hsplit : packFile metas data ++ tail = writeSeamaHeader metas data.length ++
      (digestOf data ++ (writeMetaData metas ++ (data ++ tail))) := by
    rw [packFile_eq, List.append_assoc, List.append_assoc, List.append_assoc]
  rw [hsplit, verifyLoop, if_neg Bool.false_ne_true,
    File.fread_append (length_writeSeamaHeader _ _)]
  dsimp only
  rw [if_neg (by simp [length_writeSeamaHeader]), hasMagic_header, headerSize_header hlen,
    headerMetaSize_header hfield, if_neg (by decide), if_pos hpos,
    File.fread_append (length_digestOf data)]
  dsimp only
  rw [if_neg (fun h => h.2 (length_digestOf data)), if_neg hbuf, File.fread_append rfl]
  dsimp only
  rw [if_neg (by simp), if_neg (by omega), calculateDigest_sized hdata]
  dsimp only
  rw [if_neg (by simp)]

theorem verifyLoop_short (h : rest.length < 28) : verifyLoop turns ⟨rest, e⟩ false = false := by
  induction turns generalizing rest e with
  | zero => rfl
  | succ turns ih =>
    rw [verifyLoop]
    split
    · rfl
    rw [File.fread]
    dsimp only
    split
    · rfl
    split
    · rfl
    by_cases hsize : 0 < headerSize (rest.take 12)
    · have hshort : ((rest.drop 12).take 16).length ≠ 16 := by
        rw [List.length_take, List.length_drop]
        omega
      rw [if_pos hsize, File.fread]
      dsimp only
      rw [if_pos ⟨hsize, hshort⟩]
    · rw [if_neg hsize]
      dsimp only
      rw [if_neg (fun h => hsize h.1)]
      split
      · rfl
      rw [File.fread]
      dsimp only
      split
      · rfl
      rw [if_pos (by omega)]
      apply ih
      rw [List.length_drop, List.length_drop]
      omega

theorem verifySeama_empty (hmetas : encodedLen metas ≤ maxSeamaMetaSize) :
    verifySeama (packFile metas []) = false := by
  have hbuf : ¬ maxSeamaMetaSize < (writeMetaData metas).length := by
    rw [length_writeMetaData]
    unfold maxSeamaMetaSize at hmetas ⊢
    omega
  have hfield : encodedLen metas + 3 < 2 ^ 16 := by
    unfold maxSeamaMetaSize at hmetas
    omega
  rw [verifySeama, packFile_eq, List.append_nil, List.append_assoc, verifyLoop, File.opened,
    if_neg Bool.false_ne_true, File.fread_append (length_writeSeamaHeader _ _)]
  dsimp only
  rw [if_neg (by simp [length_writeSeamaHeader]), hasMagic_header, headerSize_header (by decide),
    headerMetaSize_header hfield, List.length_nil, if_neg (by decide),
    if_neg (fun h => Nat.lt_irrefl 0 h.1),
    if_neg hbuf, if_neg (Nat.lt_irrefl 0), File.fread]
  dsimp only
  split
  · rfl
  rw [if_pos rfl]
  apply verifyLoop_short
  rw [List.length_drop, List.length_append, length_digestOf]
  omega

end Verify

end OpenwrtMtk.FirmwareUtils
