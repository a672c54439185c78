import OpenwrtMtk.FirmwareUtils.SeamaVerify

/-!
# Extracting an image

The search goes from image to image. Behind the last one it reads nothing and takes what the
images have left in `shdr` and `buf` for one more.
-/

namespace OpenwrtMtk.FirmwareUtils

open Toolkit

set_option autoImplicit false

section Strings

variable {metas strings wanted : List CString} {want : CString} {buf rest : List U8}
  {turns size : Nat}

def encode (strings : List CString) : List U8 := strings.flatMap fun s => s.1 ++ [0]

theorem encode_cons (s : CString) (strings : List CString) :
    encode (s :: strings) = s.1 ++ 0 :: encode strings := by
  rw [encode, List.flatMap_cons, List.append_assoc]
  rfl

theorem length_le_encode (strings : List CString) : strings.length ≤ (encode strings).length := by
  induction strings with
  | nil => exact Nat.le_refl 0
  | cons s strings ih =>
    rw [encode_cons, List.length_append, List.length_cons, List.length_cons]
    omega

def emptyString : CString := ⟨[], List.not_mem_nil⟩

theorem writeMetaData_eq (metas : List CString) :
    ∃ n, writeMetaData metas = encode (metas ++ List.replicate n emptyString) := by
  have hpad : ∀ n, encode (List.replicate n emptyString) = List.replicate n 0 := by
    intro n
    induction n with
    | zero => rfl
    | succ n ih =>
      rw [List.replicate_succ, encode_cons, ih]
      rfl
  refine ⟨((encode metas).length + 3) / 4 * 4 - (encode metas).length, ?_⟩
  rw [encode, List.flatMap_append, ← encode, ← encode, hpad]
  rfl

theorem matchString_encode (front : List U8) (hturns : strings.length ≤ turns) :
    matchString (front ++ (encode strings ++ rest)) (front.length + (encode strings).length) want.1
      turns front.length = some (decide (want ∈ strings)) := by
  induction strings generalizing front turns with
  | nil =>
    cases turns with
    | zero => rfl
    | succ turns =>
      have hend : front.length + (encode []).length ≤ front.length := Nat.le_refl _
      rw [matchString, if_pos hend]
      rfl
  | cons s strings ih =>
    cases turns with
    | zero => cases hturns
    | succ turns =>
      have hmore : ¬ front.length + (encode (s :: strings)).length ≤ front.length := by
        rw [encode_cons, List.length_append, List.length_cons]
        omega
      have hfirst : cstr ((front ++ (encode (s :: strings) ++ rest)).drop front.length) =
          some s.1 := by
        rw [List.drop_left, encode_cons, List.append_assoc, List.cons_append]
        exact cstr_append _ s.2
      rw [matchString, if_neg hmore, hfirst]
      dsimp only [bind, Option.bind]
      by_cases hwant : s = want
      · subst hwant
        rw [if_pos rfl]
        simp
      · have hmem : (want ∈ s :: strings) ↔ want ∈ strings := by
          rw [List.mem_cons]
          exact ⟨fun h => h.resolve_left fun heq => hwant heq.symm, Or.inr⟩
        have hnext := ih (front ++ (s.1 ++ [0])) (Nat.le_of_succ_le_succ hturns)
        have hbytes : front ++ (s.1 ++ [0]) ++ (encode strings ++ rest) =
            front ++ (encode (s :: strings) ++ rest) := by
          rw [encode_cons]
          simp
        have hsize : (front ++ (s.1 ++ [0])).length + (encode strings).length =
            front.length + (encode (s :: strings)).length := by
          rw [encode_cons]
          simp only [List.length_append, List.length_cons, List.length_nil]
          omega
        have hpos : (front ++ (s.1 ++ [0])).length = front.length + s.1.length + 1 := by
          simp only [List.length_append, List.length_cons, List.length_nil]
          omega
        rw [hbytes, hsize, hpos] at hnext
        rw [if_neg (fun heq => hwant (Subtype.ext heq)), hnext, decide_eq_decide.mpr hmem]

def includes (wanted metas : List CString) : Bool := wanted.all fun want => want ∈ metas

theorem matchMeta_encode (hwanted : emptyString ∉ wanted) :
    matchMeta (writeMetaData metas ++ rest) (writeMetaData metas).length wanted =
      some (includes wanted metas) := by
  obtain ⟨n, hmeta⟩ := writeMetaData_eq metas
  rw [hmeta]
  induction wanted with
  | nil => rfl
  | cons want wanted ih =>
    have hne : want ≠ emptyString := fun h => hwanted (h ▸ List.mem_cons_self)
    have hmem : want ∈ metas ++ List.replicate n emptyString ↔ want ∈ metas := by
      rw [List.mem_append]
      exact ⟨fun h => h.resolve_right fun hpad => hne (List.eq_of_mem_replicate hpad), Or.inl⟩
    have hstring := @matchString_encode (metas ++ List.replicate n emptyString) want rest
      (encode (metas ++ List.replicate n emptyString)).length [] (length_le_encode _)
    rw [List.nil_append, List.length_nil, Nat.zero_add, decide_eq_decide.mpr hmem] at hstring
    rw [matchMeta, hstring]
    dsimp only [bind, Option.bind]
    by_cases hin : want ∈ metas
    · rw [if_pos (decide_eq_true hin), ih (fun h => hwanted (List.mem_cons_of_mem _ h)), includes,
        includes, List.all_cons, decide_eq_true hin, Bool.true_and]
    · rw [if_neg (by simpa using hin), includes, List.all_cons, decide_eq_false hin,
        Bool.false_and]

end Strings

def leftIn (buf data : List U8) : List U8 :=
  (pieces maxSeamaMetaSize data).foldl (fun buf piece => overwrite buf 0 piece) buf

section Pieces

variable {data tail buf : List U8} {turns size : Nat}

theorem readPieces_eq (hturns : data.length ≤ turns) :
    readPieces turns ⟨data ++ tail, false⟩ buf data.length =
      (⟨tail, false⟩, leftIn buf data, data) := by
  unfold leftIn
  induction data using pieces_induction (by decide : 0 < maxSeamaMetaSize)
    generalizing turns buf with
  | nil =>
    rw [pieces_nil]
    cases turns with
    | zero => rfl
    | succ turns => rfl
  | cons data hdata ih =>
    have hpos := List.length_pos_iff.mpr hdata
    cases turns with
    | zero => omega
    | succ turns =>
      have hcount : (data.take maxSeamaMetaSize).length =
          if data.length < maxSeamaMetaSize then data.length else maxSeamaMetaSize := by
        rw [List.length_take]
        split
        · omega
        · omega
      have hsplit : data ++ tail =
          data.take maxSeamaMetaSize ++ (data.drop maxSeamaMetaSize ++ tail) := by
        rw [← List.append_assoc, List.take_append_drop]
      have hread : (data.take maxSeamaMetaSize).length ≠ 0 := by
        rw [hcount]
        split
        · omega
        · decide
      have hsum : (data.take maxSeamaMetaSize).length + (data.drop maxSeamaMetaSize).length =
          data.length := by
        rw [← List.length_append, List.take_append_drop]
      have hleft : data.length - (data.take maxSeamaMetaSize).length =
          (data.drop maxSeamaMetaSize).length := by omega
      have hdrop : (data.drop maxSeamaMetaSize).length ≤ turns := by omega
      rw [readPieces, hsplit, if_neg (by omega), ← hcount, File.fread_append rfl]
      dsimp only
      rw [if_neg hread, hleft, ih hdrop, pieces_cons (by decide) hdata, List.foldl_cons]
      dsimp only
      rw [List.take_append_drop]

theorem readPieces_end (turns size : Nat) (buf : List U8) :
    readPieces turns ⟨[], true⟩ buf size = (⟨[], true⟩, buf, []) := by
  cases turns with
  | zero => rfl
  | succ turns =>
    rw [readPieces]
    split
    · rfl
    · rw [File.fread_end]
      dsimp only
      rw [if_pos List.length_nil]

theorem overwrite_front (buf bytes : List U8) :
    overwrite buf 0 bytes = bytes ++ buf.drop bytes.length := by
  rw [overwrite, List.take_zero, List.nil_append, Nat.zero_add]

theorem overwrite_all {shdr bytes : List U8} (h : shdr.length = bytes.length) :
    overwrite shdr 0 bytes = bytes := by
  rw [overwrite_front, List.drop_of_length_le (Nat.le_of_eq h), List.append_nil]

end Pieces

/-- An image with the meta strings it is packed with. -/
structure Image where
  metas : List CString
  data : List U8

namespace Image

def packed (image : Image) : List U8 := packFile image.metas image.data

def header (image : Image) : List U8 := writeSeamaHeader image.metas image.data.length

/-- What is in `buf` behind an image that is not wanted. -/
def leaves (buf : List U8) (image : Image) : List U8 :=
  leftIn (overwrite (overwrite buf 0 (digestOf image.data)) 0 (writeMetaData image.metas))
    image.data

/-- The meta strings fit, and the size field holds the length. -/
structure Fits (image : Image) : Prop where
  some : 1 ≤ encodedLen image.metas
  most : encodedLen image.metas ≤ maxSeamaMetaSize
  short : image.data.length < 2 ^ 32

end Image

section Search

variable {image : Image} {images : List Image} {wanted metas : List CString}
  {tail shdr buf : List U8} {turns : Nat}

theorem searchFile_seal (hshdr : shdr.length = 12) (hmetas : encodedLen metas + 3 < 2 ^ 16) :
    searchFile wanted (turns + 1)
      ⟨writeSeamaHeader metas 0 ++ (writeMetaData metas ++ tail), false⟩ shdr buf =
        searchFile wanted turns ⟨tail, false⟩ (writeSeamaHeader metas 0)
          (leftIn buf (writeMetaData metas)) := by
  rw [searchFile, if_neg Bool.false_ne_true, File.fread_append (length_writeSeamaHeader _ _)]
  dsimp only
  rw [overwrite_all (hshdr.trans (length_writeSeamaHeader _ _).symm), hasMagic_header,
    if_neg (by decide), headerSize_header (by decide), if_pos rfl, headerMetaSize_header hmetas,
    readPieces_eq (Nat.le_refl _)]

theorem searchFile_image (hshdr : shdr.length = 12) (hfits : image.Fits) (hdata : image.data ≠ [])
    (hwanted : emptyString ∉ wanted) :
    searchFile wanted (turns + 1) ⟨image.packed ++ tail, false⟩ shdr buf =
      if includes wanted image.metas then some (.found image.data)
      else searchFile wanted turns ⟨tail, false⟩ image.header (image.leaves buf) := by
  have hpos := List.length_pos_iff.mpr hdata
  have hsome := hfits.some
  have hmost := hfits.most
  have hlen := length_writeMetaData image.metas
  have hfield : encodedLen image.metas + 3 < 2 ^ 16 := by
    unfold maxSeamaMetaSize at hmost
    omega
  have hroom : ¬ maxSeamaMetaSize < (writeMetaData image.metas).length := by
    unfold maxSeamaMetaSize at hmost ⊢
    omega
  have hsplit : image.packed ++ tail = image.header ++
      (digestOf image.data ++ (writeMetaData image.metas ++ (image.data ++ tail))) := by
    rw [Image.packed, packFile_eq, List.append_assoc, List.append_assoc, List.append_assoc]
    rfl
  have hbuf := overwrite_front (overwrite buf 0 (digestOf image.data))
    (writeMetaData image.metas)
  rw [hsplit, searchFile, if_neg Bool.false_ne_true, Image.header,
    File.fread_append (length_writeSeamaHeader _ _)]
  dsimp only
  rw [overwrite_all (hshdr.trans (length_writeSeamaHeader _ _).symm), hasMagic_header,
    if_neg (by decide), headerSize_header hfits.short, if_neg (by omega),
    headerMetaSize_header hfield, File.fread_append (length_digestOf _)]
  dsimp only
  rw [if_neg (by omega), File.fread_append rfl]
  dsimp only
  rw [if_neg hroom, readPieces_eq (Nat.le_refl _), hbuf, matchMeta_encode hwanted, ← hbuf]
  cases includes wanted image.metas with
  | true => rfl
  | false => rfl

theorem searchFile_end (hfits : image.Fits) (hdata : image.data ≠ []) :
    searchFile wanted (turns + 2) ⟨[], false⟩ image.header buf =
      (matchMeta buf (writeMetaData image.metas).length wanted).map fun found =>
        if found then .found [] else .missed image.header buf := by
  have hpos := List.length_pos_iff.mpr hdata
  have hsome := hfits.some
  have hmost := hfits.most
  have hlen := length_writeMetaData image.metas
  have hfield : encodedLen image.metas + 3 < 2 ^ 16 := by
    unfold maxSeamaMetaSize at hmost
    omega
  have hnil : ∀ xs : List U8, overwrite xs 0 [] = xs := fun xs => overwrite_front xs []
  rw [searchFile, if_neg Bool.false_ne_true, File.fread_short (by decide)]
  dsimp only
  rw [hnil, Image.header, hasMagic_header, if_neg (by decide), headerSize_header hfits.short,
    if_neg (by omega), headerMetaSize_header hfield, File.fread_end]
  dsimp only
  rw [hnil, if_neg (by omega), File.fread_end]
  dsimp only
  rw [hnil, if_neg (by decide), readPieces_end]
  cases matchMeta buf (writeMetaData image.metas).length wanted with
  | none => rfl
  | some found =>
    cases found with
    | true => rfl
    | false => rfl

theorem searchFile_found (hwanted : emptyString ∉ wanted) (hshdr : shdr.length = 12)
    (hfits : ∀ image ∈ images, image.Fits) (hdata : ∀ image ∈ images, image.data ≠ [])
    (hturns : images.length ≤ turns)
    (hfind : images.find? (fun image => includes wanted image.metas) = some image) :
    searchFile wanted turns ⟨images.flatMap Image.packed, false⟩ shdr buf =
      some (.found image.data) := by
  induction images generalizing turns shdr buf with
  | nil => cases hfind
  | cons first images ih =>
    cases turns with
    | zero => cases hturns
    | succ turns =>
      rw [List.flatMap_cons, searchFile_image hshdr (hfits first List.mem_cons_self)
        (hdata first List.mem_cons_self) hwanted]
      rw [List.find?_cons] at hfind
      cases hin : includes wanted first.metas with
      | true =>
        rw [hin] at hfind
        cases hfind
        rfl
      | false =>
        rw [hin] at hfind
        rw [if_neg Bool.false_ne_true]
        exact ih (length_writeSeamaHeader _ _)
          (fun image h => hfits image (List.mem_cons_of_mem _ h))
          (fun image h => hdata image (List.mem_cons_of_mem _ h))
          (Nat.le_of_succ_le_succ hturns) hfind

theorem searchFile_missed (hwanted : emptyString ∉ wanted) (hshdr : shdr.length = 12)
    (hfits : ∀ image ∈ images, image.Fits) (hdata : ∀ image ∈ images, image.data ≠ [])
    (hnone : ∀ image ∈ images, includes wanted image.metas = false) :
    searchFile wanted (images.length + turns) ⟨images.flatMap Image.packed, false⟩ shdr buf =
      searchFile wanted turns ⟨[], false⟩ ((images.getLast?.map Image.header).getD shdr)
        (images.foldl Image.leaves buf) := by
  induction images generalizing shdr buf with
  | nil => rw [List.length_nil, Nat.zero_add]; rfl
  | cons first images ih =>
    have hlast : ((images.getLast?.map Image.header).getD first.header) =
        (((first :: images).getLast?.map Image.header).getD shdr) := by
      rw [List.getLast?_cons]
      cases images.getLast? <;> rfl
    rw [List.flatMap_cons, List.length_cons, Nat.add_right_comm,
      searchFile_image hshdr (hfits first List.mem_cons_self) (hdata first List.mem_cons_self)
        hwanted,
      hnone first List.mem_cons_self, if_neg Bool.false_ne_true, ← hlast]
    exact ih (length_writeSeamaHeader _ _)
      (fun image h => hfits image (List.mem_cons_of_mem _ h))
      (fun image h => hdata image (List.mem_cons_of_mem _ h))
      (fun image h => hnone image (List.mem_cons_of_mem _ h))

end Search

def Agrees (sealMetas : List CString) (images : List Image) (wanted : List CString)
    (shdr : Vector U8 12) (buf : Vector U8 maxSeamaMetaSize) : Prop :=
  (∀ image ∈ images, verifySeama image.packed = true) ∧
    ∃ file, sealFiles sealMetas (images.map Image.packed) = some file ∧
      verifySeama file = true ∧
      extractFile wanted [file] shdr buf =
        some ((images.find? fun image => includes wanted image.metas).map Image.data)

/-- What the images leave in `buf`. -/
def leftover (sealMetas : List CString) (images : List Image) (buf : List U8) : List U8 :=
  images.foldl Image.leaves (leftIn buf (writeMetaData sealMetas))

structure Usable (sealMetas : List CString) (images : List Image) (wanted : List CString)
    (buf : List U8) : Prop where
  metas : encodedLen sealMetas ≤ maxSeamaMetaSize
  some : images ≠ []
  data : ∀ image ∈ images, image.data ≠ []
  /-- What is left in `buf` is not taken for the meta strings of one more image. -/
  stale : (∀ image ∈ images, includes wanted image.metas = false) → ∀ last ∈ images.getLast?,
    matchMeta (leftover sealMetas images buf) (writeMetaData last.metas).length wanted =
      .some false

section Sealed

variable {sealMetas wanted : List CString} {images : List Image} {image last : Image}
  {shdr : Vector U8 12} {buf : Vector U8 maxSeamaMetaSize} {turns : Nat} {ret : Bool}

def sealedFile (sealMetas : List CString) (images : List Image) : List U8 :=
  writeSeamaHeader sealMetas 0 ++ (writeMetaData sealMetas ++ images.flatMap Image.packed)

theorem sealFiles_eq (h : ∀ image ∈ images, verifySeama image.packed = true) :
    sealFiles sealMetas (images.map Image.packed) = some (sealedFile sealMetas images) := by
  have hall : (images.map Image.packed).all verifySeama = true := by
    rw [List.all_map]
    exact List.all_eq_true.mpr h
  have hcopy : (images.map Image.packed).flatMap (fun file => copyFile (.opened file)) =
      images.flatMap Image.packed := by
    rw [List.flatMap_map]
    simp only [copyFile_eq]
  rw [sealFiles, if_pos hall, hcopy, List.append_assoc, sealedFile]

theorem verifyLoop_nil (turns : Nat) (ret : Bool) : verifyLoop turns ⟨[], false⟩ ret = ret := by
  cases turns with
  | zero => rfl
  | succ turns => rfl

theorem verifyLoop_images (hfits : ∀ image ∈ images, image.Fits)
    (hdata : ∀ image ∈ images, image.data ≠ []) (hturns : images.length ≤ turns) :
    verifyLoop turns ⟨images.flatMap Image.packed, false⟩ ret = (ret || !images.isEmpty) := by
  induction images generalizing turns ret with
  | nil => rw [List.flatMap_nil, verifyLoop_nil]; simp
  | cons first images ih =>
    cases turns with
    | zero => cases hturns
    | succ turns =>
      have hfirst := hfits first List.mem_cons_self
      rw [List.flatMap_cons, Image.packed, verifyLoop_image hfirst.most
        (hdata first List.mem_cons_self) hfirst.short,
        ih (fun image h => hfits image (List.mem_cons_of_mem _ h))
          (fun image h => hdata image (List.mem_cons_of_mem _ h)) (Nat.le_of_succ_le_succ hturns)]
      simp

theorem verifySeama_packed (hfits : image.Fits) :
    verifySeama image.packed = true ↔ image.data ≠ [] := by
  constructor
  · intro h hnil
    rw [Image.packed, hnil, verifySeama_empty hfits.most] at h
    cases h
  · intro hdata
    have hone : verifyLoop (image.packed.length + 1) ⟨image.packed ++ [], false⟩ false =
        verifyLoop image.packed.length ⟨[], false⟩ true :=
      verifyLoop_image hfits.most hdata hfits.short
    rw [List.append_nil, verifyLoop_nil] at hone
    exact hone

theorem length_le_packed (images : List Image) :
    images.length ≤ (images.flatMap Image.packed).length := by
  induction images with
  | nil => exact Nat.le_refl 0
  | cons image images ih =>
    have hheader := length_writeSeamaHeader image.metas image.data.length
    rw [List.flatMap_cons, List.length_append, List.length_cons, Image.packed, packFile_eq]
    simp only [List.length_append]
    omega

theorem length_sealedFile (sealMetas : List CString) (images : List Image) :
    images.length + 12 ≤ (sealedFile sealMetas images).length := by
  have himages := length_le_packed images
  have hheader := length_writeSeamaHeader sealMetas 0
  rw [sealedFile, List.length_append, List.length_append]
  omega

theorem verifySeama_sealed (hseal : encodedLen sealMetas + 3 < 2 ^ 16)
    (hfits : ∀ image ∈ images, image.Fits) (hdata : ∀ image ∈ images, image.data ≠ []) :
    verifySeama (sealedFile sealMetas images) = true ↔
      encodedLen sealMetas ≤ maxSeamaMetaSize ∧ images ≠ [] := by
  have hlen := length_writeMetaData sealMetas
  have hfile := length_sealedFile sealMetas images
  rw [verifySeama, File.opened, sealedFile, verifyLoop_seal hseal, ← sealedFile,
    verifyLoop_images hfits hdata (by omega)]
  unfold maxSeamaMetaSize
  split
  · simp only [Bool.false_eq_true, false_iff]
    omega
  · simp only [Bool.false_or, Bool.not_eq_true', List.isEmpty_eq_false_iff]
    exact ⟨fun h => ⟨by omega, h⟩, And.right⟩

theorem extractFile_sealed (hwanted : wanted ≠ [])
    (hseal : encodedLen sealMetas + 3 < 2 ^ 16)
    (hverify : verifySeama (sealedFile sealMetas images) = true) :
    extractFile wanted [sealedFile sealMetas images] shdr buf =
      (searchFile wanted ((sealedFile sealMetas images).length + 1)
        ⟨images.flatMap Image.packed, false⟩ (writeSeamaHeader sealMetas 0)
          (leftIn buf.toList (writeMetaData sealMetas))).map fun search =>
        match search with
        | .found output => some output
        | .missed _ _ => none := by
  have hshdr : shdr.toList.length = 12 := Vector.length_toList
  have hsearch : searchFile wanted ((sealedFile sealMetas images).length + 2)
      (.opened (sealedFile sealMetas images)) shdr.toList buf.toList =
        searchFile wanted ((sealedFile sealMetas images).length + 1)
          ⟨images.flatMap Image.packed, false⟩ (writeSeamaHeader sealMetas 0)
            (leftIn buf.toList (writeMetaData sealMetas)) := searchFile_seal hshdr hseal
  rw [extractFile, if_neg hwanted, searchFiles, hverify, if_neg (by decide), hsearch]
  cases searchFile wanted ((sealedFile sealMetas images).length + 1)
      ⟨images.flatMap Image.packed, false⟩ (writeSeamaHeader sealMetas 0)
        (leftIn buf.toList (writeMetaData sealMetas)) with
  | none => rfl
  | some search =>
    cases search with
    | found output => rfl
    | missed shdr buf => rfl

theorem extractFile_missed (hwanted : wanted ≠ []) (hempty : emptyString ∉ wanted)
    (hseal : encodedLen sealMetas + 3 < 2 ^ 16)
    (hfits : ∀ image ∈ images, image.Fits) (hdata : ∀ image ∈ images, image.data ≠ [])
    (hverify : verifySeama (sealedFile sealMetas images) = true)
    (hnone : ∀ image ∈ images, includes wanted image.metas = false)
    (hlast : images.getLast? = some last) :
    extractFile wanted [sealedFile sealMetas images] shdr buf =
      (matchMeta (leftover sealMetas images buf.toList) (writeMetaData last.metas).length
        wanted).map fun found => if found then some [] else none := by
  have hmem := List.mem_of_getLast? hlast
  have hfile := length_sealedFile sealMetas images
  obtain ⟨turns, hturns⟩ := Nat.exists_eq_add_of_le (by omega :
    images.length + 2 ≤ (sealedFile sealMetas images).length + 1)
  have hsplit : (sealedFile sealMetas images).length + 1 = images.length + (turns + 2) := by omega
  rw [extractFile_sealed hwanted hseal hverify, hsplit,
    searchFile_missed hempty (length_writeSeamaHeader _ _) hfits hdata hnone, hlast]
  change Option.map _ (searchFile wanted (turns + 2) ⟨[], false⟩ last.header _) = _
  rw [searchFile_end (hfits last hmem) (hdata last hmem), ← leftover, Option.map_map]
  congr 1
  funext found
  cases found with
  | false => rfl
  | true => rfl

theorem agrees_iff (hseal : encodedLen sealMetas + 3 < 2 ^ 16)
    (hfits : ∀ image ∈ images, image.Fits) (hwanted : wanted ≠ []) (hempty : emptyString ∉ wanted) :
    Agrees sealMetas images wanted shdr buf ↔ Usable sealMetas images wanted buf.toList := by
  constructor
  · rintro ⟨hpacked, file, hfile, hverify, hextract⟩
    have hdata : ∀ image ∈ images, image.data ≠ [] := fun image h =>
      (verifySeama_packed (hfits image h)).mp (hpacked image h)
    rw [sealFiles_eq hpacked] at hfile
    cases hfile
    obtain ⟨hmetas, hsome⟩ := (verifySeama_sealed hseal hfits hdata).mp hverify
    refine ⟨hmetas, hsome, hdata, fun hnone last hlast => ?_⟩
    have hfind : (images.find? fun image => includes wanted image.metas) = none := by
      rw [List.find?_eq_none]
      intro image h
      rw [hnone image h]
      exact Bool.false_ne_true
    rw [extractFile_missed hwanted hempty hseal hfits hdata hverify hnone hlast, hfind] at hextract
    obtain ⟨found, hmatch, hout⟩ := Option.map_eq_some_iff.mp hextract
    cases found with
    | false => exact hmatch
    | true => cases hout
  · rintro ⟨hmetas, hsome, hdata, hstale⟩
    have hpacked : ∀ image ∈ images, verifySeama image.packed = true := fun image h =>
      (verifySeama_packed (hfits image h)).mpr (hdata image h)
    have hverify := (verifySeama_sealed hseal hfits hdata).mpr ⟨hmetas, hsome⟩
    refine ⟨hpacked, _, sealFiles_eq hpacked, hverify, ?_⟩
    cases hfind : images.find? fun image => includes wanted image.metas with
    | some image =>
      have hturns : images.length ≤ (sealedFile sealMetas images).length + 1 :=
        Nat.le_trans (Nat.le_add_right _ 13) (Nat.succ_le_succ (length_sealedFile _ _))
      rw [extractFile_sealed hwanted hseal hverify,
        searchFile_found hempty (length_writeSeamaHeader _ _) hfits hdata hturns hfind]
      rfl
    | none =>
      have hnone : ∀ image ∈ images, includes wanted image.metas = false := fun image h =>
        Bool.eq_false_iff.mpr (List.find?_eq_none.mp hfind image h)
      have hlast := List.getLast?_eq_some_getLast hsome
      rw [extractFile_missed hwanted hempty hseal hfits hdata hverify hnone hlast,
        hstale hnone _ hlast]
      rfl

end Sealed

/-- The image `a` with a byte of data. -/
def imageA : Image := ⟨[⟨[0x61], by decide⟩], [1]⟩

theorem imageA_agrees : Agrees [] [imageA] imageA.metas (Vector.replicate 12 0)
    (Vector.replicate maxSeamaMetaSize 0) := by
  have hfits : ∀ image ∈ [imageA], image.Fits := by
    intro image h
    rw [List.mem_singleton.mp h]
    exact ⟨by decide, by decide, by decide⟩
  have hall : includes imageA.metas imageA.metas = true := by decide
  apply (agrees_iff (by decide) hfits (by decide) (by decide)).mpr
  refine ⟨by decide, by decide, by decide, fun hnone => ?_⟩
  rw [hnone imageA List.mem_cons_self] at hall
  cases hall

/-- The data of the last image are taken for its meta strings. -/
theorem last_data_found : ¬ Agrees [] [⟨[⟨[0x61], by decide⟩], [0x62, 0, 0, 0]⟩]
    [⟨[0x62], by decide⟩] (Vector.replicate 12 0) (Vector.replicate maxSeamaMetaSize 0) := by
  rintro ⟨-, file, hfile, -, hextract⟩
  have hend : (sealFiles [] [Image.packed ⟨[⟨[0x61], by decide⟩], [0x62, 0, 0, 0]⟩]).map
      (fun file => extractFile [⟨[0x62], by decide⟩] [file] (Vector.replicate 12 0)
        (Vector.replicate maxSeamaMetaSize 0)) = some (some (some [])) := by decide +kernel
  rw [List.map_singleton] at hfile
  rw [hfile, Option.map_some, hextract] at hend
  exact absurd hend (by decide)

end OpenwrtMtk.FirmwareUtils
