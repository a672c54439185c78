import Mathlib.Data.Nat.Basic
import OpenwrtMtk.Luci.LmoSearch
import OpenwrtMtk.Luci.Po2lmo

/-!
# Looking a text up in an archive

An archive is the texts, then the entries sorted by the hash of the msgid, then the length of the
texts. What `lmo_translate` finds in one.
-/

namespace OpenwrtMtk.Luci

open Toolkit
open OpenwrtMtk.Ead (htonl ntohl length_htonl ntohl_htonl)

set_option autoImplicit false

@[simp] theorem length_print (e : LmoEntry) : e.print.length = 16 := rfl

def archiveBytes (out : List U8) (index : List LmoEntry) : List U8 :=
  out ++ index.flatMap LmoEntry.print ++ htonl (BitVec.ofNat 32 out.length)

/-- The archive that `lmo_open` returns for these bytes. -/
def archiveOf (out : List U8) (index : List LmoEntry) : LmoArchive :=
  ⟨archiveBytes out index, out.length, index.length⟩

def keyAt (index : List LmoEntry) (m : Nat) : Nat := (index[m]?.map (·.keyId.toNat)).getD 0

variable {out : List U8} {index : List LmoEntry} {e : LmoEntry} {m : Nat}

theorem length_archiveBytes (out : List U8) (index : List LmoEntry) :
    (archiveBytes out index).length = out.length + 16 * index.length + 4 := by
  rw [archiveBytes, List.length_append, List.length_append, length_htonl,
    length_flatMap_const length_print]

theorem lmoOpen_archiveBytes (h : (archiveBytes out index).length < 2 ^ 31) :
    lmoOpen (archiveBytes out index) = some (some (archiveOf out index)) := by
  have hlen := length_archiveBytes out index
  have hsize : (archiveBytes out index).length % 2 ^ 32 = (archiveBytes out index).length :=
    Nat.mod_eq_of_lt (by omega)
  have hlast : slice (archiveBytes out index) ((archiveBytes out index).length - 4) 4 =
      htonl (BitVec.ofNat 32 out.length) := by
    rw [slice, archiveBytes, List.drop_left', List.take_of_length_le]
    · exact le_refl 4
    · rw [← archiveBytes, hlen, List.length_append, length_flatMap_const length_print]
      omega
  have hoffset : (BitVec.ofNat 32 out.length).toNat = out.length := by
    rw [BitVec.toNat_ofNat, Nat.mod_eq_of_lt (by omega)]
  unfold lmoOpen
  dsimp only
  rw [hsize, hlast, ntohl_htonl, hoffset, if_neg (by omega), if_neg (by omega),
    if_neg (by omega), List.take_of_length_le (by omega), archiveOf]
  congr 3
  omega

theorem lmoLoadCatalog_archiveBytes (h : (archiveBytes out index).length < 2 ^ 31) :
    lmoLoadCatalog [archiveBytes out index] = some [archiveOf out index] := by
  unfold lmoLoadCatalog
  rw [List.foldlM_cons, lmoOpen_archiveBytes h]
  simp only [Option.map_some, Option.bind_eq_bind, Option.bind_some, List.foldlM_nil,
    Option.pure_def]

theorem word_entry (out : List U8) (he : index[m]? = some e) {i : Nat} (hi : i + 4 ≤ 16) :
    (archiveOf out index).word (out.length + 16 * m + i) = some (ntohl (slice e.print i 4)) := by
  obtain ⟨hm, -⟩ := List.getElem?_eq_some_iff.mp he
  unfold LmoArchive.word archiveOf
  dsimp only
  rw [length_archiveBytes, if_pos (by omega), archiveBytes,
    slice_record length_print out (htonl (BitVec.ofNat 32 out.length)) he hi]

theorem keyId_entry (he : index[m]? = some e) : (archiveOf out index).keyId m = some e.keyId := by
  have h := word_entry out he (i := 0) (by omega)
  rw [show slice e.print 0 4 = htonl e.keyId from rfl, ntohl_htonl] at h
  exact h

theorem text_entry (he : index[m]? = some e) (hin : e.offset.toNat + e.length.toNat ≤ out.length) :
    (archiveOf out index).text m = some (slice out e.offset.toNat e.length.toNat) := by
  have hoffset := word_entry out he (i := 8) (by omega)
  have hlength := word_entry out he (i := 12) (by omega)
  rw [show slice e.print 8 4 = htonl e.offset from rfl, ntohl_htonl] at hoffset
  rw [show slice e.print 12 4 = htonl e.length from rfl, ntohl_htonl] at hlength
  have hfits : e.offset.toNat + e.length.toNat ≤ (archiveOf out index).mmap.length := by
    rw [archiveOf, length_archiveBytes]
    omega
  have hslice : slice (archiveOf out index).mmap e.offset.toNat e.length.toNat =
      slice out e.offset.toNat e.length.toNat := by
    rw [archiveOf, archiveBytes, List.append_assoc]
    exact slice_append_left _ hin
  unfold LmoArchive.text
  rw [show (archiveOf out index).index = out.length from rfl, hoffset, hlength]
  simp only [Option.bind_eq_bind, Option.bind_some]
  rw [if_pos hfits, hslice]

theorem archiveOf_complete (out : List U8) (index : List LmoEntry) :
    (archiveOf out index).Complete := by
  rw [LmoArchive.Complete, archiveOf, length_archiveBytes]

theorem archiveOf_key (out : List U8) (hm : m < index.length) :
    (archiveOf out index).key m = keyAt index m := by
  have he := List.getElem?_eq_getElem hm
  rw [LmoArchive.key, keyId_entry he, keyAt, he]
  rfl

theorem sortedKeys (hs : index.Pairwise fun x y => cmpIndex x y ≤ 0) :
    SortedKeys (keyAt index) index.length := by
  intro i j hij hj
  have hi : i < index.length := by omega
  rw [keyAt, keyAt, List.getElem?_eq_getElem hi, List.getElem?_eq_getElem hj]
  rcases Nat.lt_or_eq_of_le hij with hlt | rfl
  · have hle := List.pairwise_iff_getElem.mp hs i j hi hj hlt
    unfold cmpIndex at hle
    by_cases hxy : index[i].keyId < index[j].keyId
    · exact Nat.le_of_lt hxy
    · by_cases hyx : index[j].keyId < index[i].keyId
      · rw [if_neg hxy, if_pos hyx] at hle
        exact absurd hle (by decide)
      · exact Nat.le_of_not_lt hyx
  · exact Nat.le_refl _

theorem archiveOf_sorted (out : List U8) (hs : index.Pairwise fun x y => cmpIndex x y ≤ 0) :
    SortedKeys (archiveOf out index).key index.length := by
  intro i j hij hj
  rw [archiveOf_key out (Nat.lt_of_le_of_lt hij hj), archiveOf_key out hj]
  exact sortedKeys hs i j hij hj

theorem lmoFindEntry_archive (hs : index.Pairwise fun x y => cmpIndex x y ≤ 0) (hne : index ≠ [])
    (hsize : (archiveBytes out index).length < 2 ^ 31) (hash : U32) :
    (∃ m e, index[m]? = some e ∧ e.keyId = hash ∧
      (archiveOf out index).lmoFindEntry hash = some (some m)) ∨
    ((∀ e ∈ index, e.keyId ≠ hash) ∧ (archiveOf out index).lmoFindEntry hash = some none) := by
  have hpos : 0 < index.length := List.length_pos_of_ne_nil hne
  have hlen := length_archiveBytes out index
  have hr : (index.length + 2 ^ 32 - 1) % 2 ^ 32 = index.length - 1 := by omega
  have hcount : (archiveOf out index).length = index.length := rfl
  obtain ⟨found, hfrom, -, hiff⟩ := LmoArchive.findFrom_probes hash (index.length + 1) 0
    (index.length - 1) (archiveOf_complete out index) (by omega) (by omega)
  have hfind : (archiveOf out index).lmoFindEntry hash = some found := by
    rw [LmoArchive.lmoFindEntry, hcount, hr]
    exact hfrom
  cases found with
  | some m =>
    obtain ⟨hprobe, hkey⟩ := (hiff m).mp rfl
    have hm : m < index.length := by
      have hrange := hprobe.range
      omega
    have he := List.getElem?_eq_getElem hm
    rw [archiveOf_key out hm, keyAt, he] at hkey
    exact .inl ⟨m, index[m], he, BitVec.eq_of_toNat_eq hkey, hfind⟩
  | none =>
    refine .inr ⟨?_, hfind⟩
    intro e he heq
    obtain ⟨i, hi⟩ := List.mem_iff_getElem?.mp he
    have hin := (List.getElem?_eq_some_iff.mp hi).1
    have hkey : (archiveOf out index).key i = hash.toNat := by
      rw [archiveOf_key out hin, keyAt, hi, ← heq]
      rfl
    obtain ⟨m, hprobe, hm⟩ := Probes.exists_of_sorted (archiveOf_sorted out hs)
      (Between.start (n := index.length) (r := index.length - 1) (by omega)) (by omega) hin hkey
    cases (hiff m).mpr ⟨hprobe, hm⟩

theorem lmoTranslate_archive (hs : index.Pairwise fun x y => cmpIndex x y ≤ 0)
    (hne : index ≠ []) (hsize : (archiveBytes out index).length < 2 ^ 31)
    (hin : ∀ e ∈ index, e.offset.toNat + e.length.toNat ≤ out.length) (key : List U8) :
    (∃ e ∈ index, e.keyId = lmoCanonHash key ∧
      lmoTranslate (some [archiveOf out index]) key =
        some (.found (slice out e.offset.toNat e.length.toNat))) ∨
    ((∀ e ∈ index, e.keyId ≠ lmoCanonHash key) ∧
      lmoTranslate (some [archiveOf out index]) key = some .missing) := by
  unfold lmoTranslate translateIn
  dsimp only
  rcases lmoFindEntry_archive hs hne hsize (lmoCanonHash key) with
    ⟨m, e, he, hkey, hfound⟩ | ⟨habsent, hnone⟩
  · left
    have hmem := List.mem_of_getElem? he
    refine ⟨e, hmem, hkey, ?_⟩
    rw [hfound, Option.bind_some]
    dsimp only
    rw [text_entry he (hin e hmem)]
    rfl
  · right
    exact ⟨habsent, by rw [hnone]; rfl⟩

end OpenwrtMtk.Luci
