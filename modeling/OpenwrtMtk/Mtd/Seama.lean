import OpenwrtMtk.Lib.Checked

/-!
# SEAMA headers on flash

`seama_fix_md5` of `mtd` with a `size_t` of 32 bits. The buffer is the list of its bytes, MD5 a parameter,
and messages are left out.
-/

namespace OpenwrtMtk.Mtd

open Toolkit

set_option autoImplicit false

def seamaMagic : U32 := 0x5EA3A417

/-- `sizeof(struct seama_hdr)`. -/
def sizeofHdr : Nat := 12

/-- `sizeof(digest)`. -/
def sizeofDigest : Nat := 16

abbrev Digest := Vector U8 16

def ntohs : List U8 → U16
  | [a, b] => a ++ b
  | _ => 0

def ntohl : List U8 → U32
  | [a, b, c, d] => a ++ b ++ c ++ d
  | _ => 0

@[simp] theorem ntohl_be32 (w : U32) : ntohl (be32 w) = w := append_bytes32 w

def seamaFixMd5 (md5 : List U8 → Digest) (buf : List U8) (len : U32) : Checked (Int × List U8) :=
  if len.toNat < sizeofHdr then return (-1, buf)
  else do
    let magic ← load buf 0 4
    if ntohl magic ≠ seamaMagic then return (-1, buf)
    else
      let isize := ntohl (← load buf 8 4)
      let msize := (ntohs (← load buf 6 2)).setWidth 32
      -- the image contains no checksum
      if isize = 0 then return (-1, buf)
      else
        let len := len - (12 + 16 + msize)
        let isize := if len < isize then len else isize
        let data ← load buf (sizeofHdr + sizeofDigest + msize.toNat) isize.toNat
        let digest := md5 data
        let old ← load buf sizeofHdr sizeofDigest
        if digest.toList = old then return (-1, buf)
        else
          let buf ← store buf 8 (be32 isize)
          let buf ← store buf sizeofHdr digest.toList
          return (0, buf)

section Fields

variable (buf : List U8)

def hdrMagic : U32 := ntohl (slice buf 0 4)

def hdrMetasize : Nat := (ntohs (slice buf 6 2)).toNat

def hdrSize : U32 := ntohl (slice buf 8 4)

def hdrDigest : List U8 := slice buf sizeofHdr sizeofDigest

def dataStart : Nat := sizeofHdr + sizeofDigest + hdrMetasize buf

end Fields

/-- What a call that returns 0 leaves: the size and the digest are new, and they are those of bytes that
are there. -/
structure Fixed (md5 : List U8 → Digest) (buf buf' : List U8) : Prop where
  length : buf'.length = buf.length
  rest : ∀ i, i < 8 ∨ 28 ≤ i → buf'[i]? = buf[i]?
  size : dataStart buf' + (hdrSize buf').toNat ≤ buf'.length
  digest : hdrDigest buf' = (md5 (slice buf' (dataStart buf') (hdrSize buf').toNat)).toList

def FixRight (md5 : List U8 → Digest) (buf : List U8) (len : U32) : Prop :=
  ∃ res buf', seamaFixMd5 md5 buf len = .ok (res, buf') ∧
    (res = 0 ∧ Fixed md5 buf buf' ∧ seamaFixMd5 md5 buf' len = .ok (-1, buf') ∨
      res = -1 ∧ buf' = buf)

def HeaderFits (buf : List U8) : Prop :=
  sizeofHdr ≤ buf.length → hdrMagic buf = seamaMagic → hdrSize buf ≠ 0 → dataStart buf ≤ buf.length

section Runs

variable {md5 : List U8 → Digest} {buf : List U8} {len : U32}

def newSize (buf : List U8) (len : U32) : U32 :=
  let left := len - (12 + 16 + (ntohs (slice buf 6 2)).setWidth 32)
  if left < hdrSize buf then left else hdrSize buf

/-- Where a checksum is checked. -/
structure Headed (buf : List U8) : Prop where
  length : sizeofHdr ≤ buf.length
  magic : hdrMagic buf = seamaMagic
  size : hdrSize buf ≠ 0

theorem fix_unheaded (hlen : buf.length = len.toNat) (h : ¬Headed buf) :
    seamaFixMd5 md5 buf len = .ok (-1, buf) := by
  unfold seamaFixMd5
  split
  · rfl
  · rename_i hshort
    have hle : sizeofHdr ≤ buf.length := by omega
    have hle' : 12 ≤ buf.length := hle
    rw [bind_ok (load_ok (by omega))]
    split
    · rfl
    · rename_i hmagic
      rw [bind_ok (load_ok (by omega)), bind_ok (load_ok (by omega))]
      dsimp only
      split
      · rfl
      · rename_i hsize
        exact absurd ⟨hle, not_not.mp hmagic, hsize⟩ h

theorem fix_headed (hlen : buf.length = len.toNat) (h : Headed buf) : seamaFixMd5 md5 buf len = do
    let data ← load buf (dataStart buf) (newSize buf len).toNat
    let old ← load buf sizeofHdr sizeofDigest
    if (md5 data).toList = old then return (-1, buf)
    else
      let buf ← store buf 8 (be32 (newSize buf len))
      let buf ← store buf sizeofHdr (md5 data).toList
      return (0, buf) := by
  have hle : 12 ≤ buf.length := h.length
  have hlong : ¬len.toNat < sizeofHdr := by
    rw [← hlen]
    exact Nat.not_lt_of_le hle
  have hmagic : ntohl (slice buf 0 4) = seamaMagic := h.magic
  have hsize : ntohl (slice buf 8 4) ≠ 0 := h.size
  have hmeta : ((ntohs (slice buf 6 2)).setWidth 32).toNat = hdrMetasize buf := by
    rw [BitVec.toNat_setWidth]
    exact Nat.mod_eq_of_lt (Nat.lt_trans (ntohs _).isLt (by decide))
  unfold seamaFixMd5
  rw [if_neg hlong, bind_ok (load_ok (by omega)), if_neg (not_not.mpr hmagic),
    bind_ok (load_ok (by omega)), bind_ok (load_ok (by omega))]
  dsimp only
  rw [if_neg hsize, hmeta]
  rfl

theorem metasize_lt (buf : List U8) : hdrMetasize buf < 65536 := (ntohs _).isLt

theorem left_toNat (hlen : buf.length = len.toNat) :
    (len - (12 + 16 + (ntohs (slice buf 6 2)).setWidth 32)).toNat =
      (2 ^ 32 - dataStart buf + buf.length) % 2 ^ 32 := by
  have hlt := metasize_lt buf
  have hsum : (12 + 16 + (ntohs (slice buf 6 2)).setWidth 32 : U32).toNat = dataStart buf := by
    rw [BitVec.toNat_add, BitVec.toNat_setWidth]
    change (28 + hdrMetasize buf % 2 ^ 32) % 2 ^ 32 = 12 + 16 + hdrMetasize buf
    omega
  rw [BitVec.toNat_sub, hsum, hlen]

theorem newSize_of_fits (hlen : buf.length = len.toNat) (h : dataStart buf ≤ buf.length) :
    (newSize buf len).toNat = min (hdrSize buf).toNat (buf.length - dataStart buf) := by
  have hlt := len.isLt
  have hleft := left_toNat hlen
  have heq : (2 ^ 32 - dataStart buf + buf.length) % 2 ^ 32 = buf.length - dataStart buf := by omega
  rw [heq] at hleft
  rw [newSize]
  split
  · rename_i hless
    rw [BitVec.lt_def, hleft] at hless
    rw [hleft]
    omega
  · rename_i hless
    rw [BitVec.lt_def, hleft] at hless
    omega

theorem fix_outside (hlen : buf.length = len.toNat) (hh : Headed buf)
    (h : buf.length < dataStart buf) : seamaFixMd5 md5 buf len = .error .outside := by
  have hload : load buf (dataStart buf) (newSize buf len).toNat = .error .outside := by
    apply if_neg
    rintro ⟨-, hin⟩
    omega
  rw [fix_headed hlen hh, hload]
  rfl

section Fits

variable (md5 : List U8 → Digest) (buf : List U8) (len : U32)

def summed : List U8 := slice buf (dataStart buf) (newSize buf len).toNat

def fixedBuf : List U8 :=
  overwrite (overwrite buf 8 (be32 (newSize buf len))) sizeofHdr (md5 (summed buf len)).toList

end Fits

theorem fix_fits (hlen : buf.length = len.toNat) (hh : Headed buf) (h : dataStart buf ≤ buf.length) :
    seamaFixMd5 md5 buf len = .ok (if (md5 (summed buf len)).toList = hdrDigest buf then (-1, buf)
      else (0, fixedBuf md5 buf len)) := by
  have hsize := newSize_of_fits hlen h
  have hstart : 28 ≤ dataStart buf := Nat.le_add_right 28 _
  have hhdr : sizeofHdr = 12 := rfl
  have hdigest : sizeofDigest = 16 := rfl
  have hwide : (overwrite buf 8 (be32 (newSize buf len))).length = buf.length :=
    length_overwrite (by rw [length_be32]; omega)
  rw [fix_headed hlen hh, bind_ok (load_ok (by omega)), bind_ok (load_ok (by omega))]
  change (if (md5 (summed buf len)).toList = hdrDigest buf then _ else _) = _
  split
  · rfl
  · rw [bind_ok (store_ok (by rw [length_be32]; omega)),
      bind_ok (store_ok (by rw [hwide, Vector.length_toList]; omega))]
    rfl

theorem length_fixed_size (h : 28 ≤ buf.length) :
    (overwrite buf 8 (be32 (newSize buf len))).length = buf.length :=
  length_overwrite (by rw [length_be32]; omega)

section FixedBuf

variable (h : 28 ≤ buf.length)
include h

theorem length_fixedBuf : (fixedBuf md5 buf len).length = buf.length := by
  have hwide := @length_fixed_size buf len h
  rw [fixedBuf, length_overwrite (by rw [hwide, Vector.length_toList]; exact h), hwide]

theorem fixedBuf_rest {i : Nat} (hi : i < 8 ∨ 28 ≤ i) : (fixedBuf md5 buf len)[i]? = buf[i]? := by
  have hwide := @length_fixed_size buf len h
  have hhdr : sizeofHdr = 12 := rfl
  rw [fixedBuf, getElem?_overwrite_out (by rw [hwide, Vector.length_toList]; exact h)
    (by rw [Vector.length_toList]; omega), getElem?_overwrite_out (by rw [length_be32]; omega)
    (by rw [length_be32]; omega)]

theorem slice_fixedBuf {i n : Nat} (hi : i + n ≤ 8 ∨ 28 ≤ i) :
    slice (fixedBuf md5 buf len) i n = slice buf i n := by
  apply slice_eq_of_getElem?
  intro k hk
  exact fixedBuf_rest h (by omega)

theorem hdrSize_fixedBuf : hdrSize (fixedBuf md5 buf len) = newSize buf len := by
  have hwide := @length_fixed_size buf len h
  have hself : slice (overwrite buf 8 (be32 (newSize buf len))) 8 4 = be32 (newSize buf len) :=
    slice_overwrite_self (by rw [length_be32]; omega)
  have hhdr : sizeofHdr = 12 := rfl
  rw [hdrSize, fixedBuf, slice_overwrite_disjoint (by rw [hwide, Vector.length_toList]; exact h)
    (Or.inl (by omega)), hself, ntohl_be32]

theorem hdrDigest_fixedBuf : hdrDigest (fixedBuf md5 buf len) = (md5 (summed buf len)).toList := by
  have hwide := @length_fixed_size buf len h
  have hself := @slice_overwrite_self _ (overwrite buf 8 (be32 (newSize buf len)))
    (md5 (summed buf len)).toList sizeofHdr (by rw [hwide, Vector.length_toList]; exact h)
  rw [Vector.length_toList] at hself
  exact hself

theorem hdrMetasize_fixedBuf : hdrMetasize (fixedBuf md5 buf len) = hdrMetasize buf := by
  rw [hdrMetasize, hdrMetasize, slice_fixedBuf h (Or.inl (by decide))]

theorem dataStart_fixedBuf : dataStart (fixedBuf md5 buf len) = dataStart buf := by
  rw [dataStart, dataStart, hdrMetasize_fixedBuf h]

theorem hdrMagic_fixedBuf : hdrMagic (fixedBuf md5 buf len) = hdrMagic buf := by
  rw [hdrMagic, hdrMagic, slice_fixedBuf h (Or.inl (by decide))]

end FixedBuf

section Twice

variable (hlen : buf.length = len.toNat) (h : dataStart buf ≤ buf.length)
include hlen h

theorem fixed_fixedBuf : Fixed md5 buf (fixedBuf md5 buf len) := by
  have hlong : 28 ≤ buf.length := Nat.le_trans (Nat.le_add_right 28 _) h
  have hsize := newSize_of_fits hlen h
  have hstart : 28 ≤ dataStart buf := Nat.le_add_right 28 _
  refine ⟨length_fixedBuf hlong, fun i hi => fixedBuf_rest hlong hi, ?_, ?_⟩
  · rw [dataStart_fixedBuf hlong, hdrSize_fixedBuf hlong, length_fixedBuf hlong, hsize]
    omega
  · rw [hdrDigest_fixedBuf hlong, dataStart_fixedBuf hlong, hdrSize_fixedBuf hlong,
      slice_fixedBuf hlong (Or.inr hstart)]
    rfl

theorem fix_again (hh : Headed buf) : seamaFixMd5 md5 (fixedBuf md5 buf len) len = .ok (-1, fixedBuf md5 buf len) := by
  have hlong : 28 ≤ buf.length := Nat.le_trans (Nat.le_add_right 28 _) h
  have hlen' : (fixedBuf md5 buf len).length = len.toNat := (length_fixedBuf hlong).trans hlen
  have hstart : 28 ≤ dataStart buf := Nat.le_add_right 28 _
  by_cases hzero : newSize buf len = 0
  · apply fix_unheaded hlen'
    intro hh'
    exact hh'.size ((hdrSize_fixedBuf hlong).trans hzero)
  · have hh' : Headed (fixedBuf md5 buf len) := by
      refine ⟨?_, (hdrMagic_fixedBuf hlong).trans hh.magic, ?_⟩
      · rw [length_fixedBuf hlong]
        exact hh.length
      · rw [hdrSize_fixedBuf hlong]
        exact hzero
    have h' : dataStart (fixedBuf md5 buf len) ≤ (fixedBuf md5 buf len).length := by
      rw [dataStart_fixedBuf hlong, length_fixedBuf hlong]
      exact h
    have hsize : (newSize (fixedBuf md5 buf len) len).toNat = (newSize buf len).toNat := by
      rw [newSize_of_fits hlen' h', hdrSize_fixedBuf hlong, length_fixedBuf hlong,
        dataStart_fixedBuf hlong, newSize_of_fits hlen h]
      omega
    have hsummed : summed (fixedBuf md5 buf len) len = summed buf len := by
      rw [summed, hsize, dataStart_fixedBuf hlong, slice_fixedBuf hlong (Or.inr hstart)]
      rfl
    rw [fix_fits hlen' hh' h', hsummed, if_pos (hdrDigest_fixedBuf hlong).symm]

end Twice

/-- The function is right where the meta data of a header with a size end within the buffer. -/
theorem seamaFixMd5_right_iff (hlen : buf.length = len.toNat) :
    FixRight md5 buf len ↔ HeaderFits buf := by
  by_cases hh : Headed buf
  · have hfits : HeaderFits buf ↔ dataStart buf ≤ buf.length := by
      constructor
      · intro h
        exact h hh.length hh.magic hh.size
      · intro h _ _ _
        exact h
    rw [hfits]
    constructor
    · rintro ⟨res, buf', hrun, -⟩
      apply Nat.le_of_not_lt
      intro h
      rw [fix_outside hlen hh h] at hrun
      cases hrun
    · intro h
      by_cases hsame : (md5 (summed buf len)).toList = hdrDigest buf
      · refine ⟨-1, buf, ?_, Or.inr ⟨rfl, rfl⟩⟩
        rw [fix_fits hlen hh h, if_pos hsame]
      · refine ⟨0, fixedBuf md5 buf len, ?_, Or.inl ⟨rfl, fixed_fixedBuf hlen h, fix_again hlen h hh⟩⟩
        rw [fix_fits hlen hh h, if_neg hsame]
  · refine iff_of_true ⟨-1, buf, fix_unheaded hlen hh, Or.inr ⟨rfl, rfl⟩⟩ ?_
    intro hlength hmagic hsize
    exact absurd ⟨hlength, hmagic, hsize⟩ hh

def shortHeader : List U8 := be32 seamaMagic ++ [0, 0, 0, 0] ++ be32 4

theorem seamaFixMd5_right_image :
    FixRight (fun _ => Vector.replicate 16 0xff) (shortHeader ++ List.replicate 20 0) 32 :=
  (seamaFixMd5_right_iff rfl).mpr fun _ _ _ => by decide

/-- The header alone. -/
theorem short_header_overread : ¬ ∀ (md5 : List U8 → Digest) (buf : List U8) (len : U32),
    buf.length = len.toNat → FixRight md5 buf len := by
  intro hclaim
  obtain ⟨res, buf', hrun, -⟩ := hclaim (fun _ => Vector.replicate 16 0) shortHeader 12 rfl
  rw [fix_outside rfl ⟨by decide, by decide, by decide⟩ (by decide)] at hrun
  cases hrun

end Runs

end OpenwrtMtk.Mtd
