import OpenwrtMtk.Lib.Bisect
import OpenwrtMtk.Luci.Lmo

/-!
# Looking up a text safely

What `lmo_find_entry` reads of an archive that any file may stand for, and when the text that
`lmo_translate` returns lies in the mapping.
-/

namespace OpenwrtMtk.Luci

open Toolkit
open OpenwrtMtk.Ead (ntohl)

set_option autoImplicit false

namespace LmoArchive

def findWithin (ar : LmoArchive) (hash : U32) : Nat → Nat → Nat → Option (Option Nat)
  | 0, _, _ => none
  | fuel + 1, l, r =>
    let m := l + (r - l) / 2
    if r < l then some none
    else
      (if m < ar.length then ar.keyId m else none).bind fun k =>
        if k = hash then some (some m)
        else if hash < k then
          if m = 0 then some none else ar.findWithin hash fuel l (m - 1)
        else ar.findWithin hash fuel (m + 1) r

def Complete (ar : LmoArchive) : Prop := ar.index + 16 * ar.length + 4 ≤ ar.mmap.length

def key (ar : LmoArchive) (m : Nat) : Nat := ((ar.keyId m).getD 0).toNat

/-- What `*out` and `*outlen` are set to lies in the mapping; `*outlen` is an `int`. -/
def TextInside (ar : LmoArchive) (m : Nat) : Prop :=
  ∃ offset length, ar.word (ar.index + 16 * m + 8) = some offset ∧
    ar.word (ar.index + 16 * m + 12) = some length ∧
    0 ≤ length.toInt ∧ (offset.toNat : Int) + length.toInt ≤ ar.mmap.length

section Search

variable {ar : LmoArchive} {m : Nat}

theorem keyId_complete (h : ar.Complete) (hm : m < ar.length) :
    ∃ k, ar.keyId m = some k ∧ ar.key m = k.toNat := by
  have hin : ar.index + 16 * m + 4 ≤ ar.mmap.length := by
    unfold Complete at h
    omega
  refine ⟨ntohl (slice ar.mmap (ar.index + 16 * m) 4), ?_, ?_⟩
  · rw [keyId, word, if_pos hin]
  · rw [key, keyId, word, if_pos hin]
    rfl

theorem findFrom_probes (hash : U32) (fuel l r : Nat) (h : ar.Complete) (hr : r < ar.length) (hfuel : r + 1 - l < fuel) :
    ∃ e, ar.findFrom hash fuel l r = some e ∧ ar.findWithin hash fuel l r = some e ∧
      ∀ m, e = some m ↔ Probes ar.key hash.toNat l r m ∧ ar.key m = hash.toNat := by
  induction fuel generalizing l r with
  | zero => omega
  | succ fuel ih =>
    rw [findFrom, findWithin]
    by_cases hrl : r < l
    · refine ⟨none, by rw [if_pos hrl], by rw [if_pos hrl], fun m => iff_of_false nofun ?_⟩
      rintro ⟨hprobe, -⟩
      have hrange := hprobe.range
      omega
    · have hmid : l + (r - l) / 2 < ar.length := by omega
      obtain ⟨k, hk, hkey⟩ := keyId_complete h hmid
      rw [if_neg hrl, if_neg hrl, if_pos hmid, hk, Option.bind_some, Option.bind_some]
      by_cases heq : k = hash
      · rw [if_pos heq, if_pos heq]
        rw [heq] at hkey
        refine ⟨some (l + (r - l) / 2), rfl, rfl, fun m => ?_⟩
        constructor
        · intro hm
          cases hm
          exact ⟨.here (by omega), hkey⟩
        · rintro ⟨hprobe, -⟩
          rw [hprobe.found hkey]
      · rw [if_neg heq, if_neg heq]
        have hne : ar.key (l + (r - l) / 2) ≠ hash.toNat := by
          rw [hkey]
          exact fun hnat => heq (BitVec.eq_of_toNat_eq hnat)
        by_cases hlt : hash < k
        · rw [if_pos hlt, if_pos hlt]
          have hgt : hash.toNat < ar.key (l + (r - l) / 2) := by
            rw [hkey]
            exact BitVec.lt_def.mp hlt
          by_cases hzero : l + (r - l) / 2 = 0
          · rw [if_pos hzero, if_pos hzero]
            refine ⟨none, rfl, rfl, fun m => iff_of_false nofun ?_⟩
            rintro ⟨hprobe, hm⟩
            have hpos := (hprobe.lower hm hgt).1
            omega
          · rw [if_neg hzero, if_neg hzero]
            obtain ⟨e, hfrom, hwithin, hiff⟩ :=
              ih l (l + (r - l) / 2 - 1) (by omega) (by omega)
            refine ⟨e, hfrom, hwithin, fun m => (hiff m).trans ?_⟩
            constructor
            · rintro ⟨hprobe, hm⟩
              exact ⟨.down (by omega) hgt (by omega) hprobe, hm⟩
            · rintro ⟨hprobe, hm⟩
              exact ⟨(hprobe.lower hm hgt).2, hm⟩
        · rw [if_neg hlt, if_neg hlt]
          have hsmall : ar.key (l + (r - l) / 2) < hash.toNat := by
            rw [BitVec.lt_def] at hlt
            omega
          obtain ⟨e, hfrom, hwithin, hiff⟩ :=
            ih (l + (r - l) / 2 + 1) r hr (by omega)
          refine ⟨e, hfrom, hwithin, fun m => (hiff m).trans ?_⟩
          constructor
          · rintro ⟨hprobe, hm⟩
            exact ⟨.up (by omega) hsmall hprobe, hm⟩
          · rintro ⟨hprobe, hm⟩
            exact ⟨hprobe.upper hm hsmall, hm⟩

end Search

end LmoArchive

structure SafeLookup (ar : LmoArchive) (hash : U32) : Prop where
  search : ∃ e, ar.lmoFindEntry hash = some e ∧
    ar.findWithin hash (ar.length + 1) 0 ((ar.length + 2 ^ 32 - 1) % 2 ^ 32) = some e ∧
    (∀ m, e = some m → m < ar.length ∧ ar.index + 16 * (m + 1) ≤ ar.mmap.length ∧
      ar.keyId m = some hash ∧ ar.TextInside m) ∧
    (SortedKeys ar.key ar.length →
      ((∃ m, e = some m) ↔ ∃ m < ar.length, ar.keyId m = some hash))
  translate : ∀ archives, (∃ t, translateIn hash archives = some t) →
    ∃ t, translateIn hash (ar :: archives) = some t

section Opened

variable {file : List U8} {ar : LmoArchive} {hash : U32} {m : Nat}

theorem lmoOpen_fields (h : lmoOpen file = some (some ar)) :
    ar.index < ar.mmap.length ∧ ar.mmap.length < 2 ^ 32 ∧
      ar.length = (ar.mmap.length - ar.index + 2 ^ 32 - 4) % 2 ^ 32 / 16 := by
  unfold lmoOpen at h
  dsimp only at h
  split at h
  · cases h
  split at h
  · cases h
  split at h
  · cases h
  rename_i hindex
  cases h
  have hsize : file.length % 2 ^ 32 < 2 ^ 32 := Nat.mod_lt _ (by decide)
  have hle : file.length % 2 ^ 32 ≤ file.length := Nat.mod_le _ _
  have hmap : (file.take (file.length % 2 ^ 32)).length = file.length % 2 ^ 32 := by
    rw [List.length_take]
    omega
  dsimp only
  rw [hmap]
  exact ⟨by omega, hsize, rfl⟩

theorem opened_complete (h : lmoOpen file = some (some ar))
    (hentry : ar.index + 20 ≤ ar.mmap.length) :
    ar.Complete ∧ 0 < ar.length ∧ (ar.length + 2 ^ 32 - 1) % 2 ^ 32 = ar.length - 1 := by
  obtain ⟨hindex, hsize, hlength⟩ := lmoOpen_fields h
  unfold LmoArchive.Complete
  omega

/-- Without a complete entry the search leaves the mapping at once: `r` is the largest number, or the
length of the index is. -/
theorem opened_short (h : lmoOpen file = some (some ar))
    (hshort : ¬ar.index + 20 ≤ ar.mmap.length) (hash : U32) : ar.lmoFindEntry hash = none := by
  obtain ⟨hindex, hsize, hlength⟩ := lmoOpen_fields h
  have hmid : ar.keyId (0 + ((ar.length + 2 ^ 32 - 1) % 2 ^ 32 - 0) / 2) = none := by
    rw [LmoArchive.keyId, LmoArchive.word, if_neg (by omega)]
  rw [LmoArchive.lmoFindEntry, LmoArchive.findFrom]
  rw [if_neg (Nat.not_lt_zero _), hmid]
  rfl

theorem text_inside (h : ar.TextInside m) : ∃ t, ar.text m = some t := by
  obtain ⟨offset, length, hoffset, hlength, hpos, hfits⟩ := h
  have hnat : (length.toNat : Int) = length.toInt := by
    rw [BitVec.toInt_eq_toNat_cond] at hpos ⊢
    omega
  rw [LmoArchive.text, hoffset, hlength]
  dsimp only [Option.bind_eq_bind, Option.bind_some]
  rw [if_pos (by omega)]
  exact ⟨_, rfl⟩

theorem key_iff (h : ar.Complete) (hm : m < ar.length) :
    ar.key m = hash.toNat ↔ ar.keyId m = some hash := by
  obtain ⟨k, hk, hkey⟩ := LmoArchive.keyId_complete h hm
  rw [hk, hkey]
  constructor
  · intro heq
    rw [BitVec.eq_of_toNat_eq heq]
  · intro heq
    rw [Option.some.inj heq]

end Opened

/-- A lookup in an archive that `lmo_open` returns is safe if and only if the index has an entry and the
text of the entry with the hash that the search comes upon lies in the mapping. -/
theorem lookup_safe_iff (file : List U8) (ar : LmoArchive) (key : List U8)
    (h : lmoOpen file = some (some ar)) :
    SafeLookup ar (lmoCanonHash key) ↔
      ar.index + 20 ≤ ar.mmap.length ∧
        ∀ m, Probes ar.key (lmoCanonHash key).toNat 0 (ar.length - 1) m →
          ar.key m = (lmoCanonHash key).toNat → ar.TextInside m := by
  by_cases hentry : ar.index + 20 ≤ ar.mmap.length
  · obtain ⟨hcomplete, hpos, hr⟩ := opened_complete h hentry
    obtain ⟨e, hfrom, hwithin, hiff⟩ := LmoArchive.findFrom_probes (lmoCanonHash key) (ar.length + 1)
      0 (ar.length - 1) hcomplete (by omega) (by omega)
    have hfind : ar.lmoFindEntry (lmoCanonHash key) = some e := by
      rw [LmoArchive.lmoFindEntry, hr]
      exact hfrom
    constructor
    · intro hsafe
      refine ⟨hentry, fun m hprobe hkey => ?_⟩
      obtain ⟨e', hfind', -, hinside, -⟩ := hsafe.search
      rw [hfind] at hfind'
      cases hfind'
      exact (hinside m ((hiff m).mpr ⟨hprobe, hkey⟩)).2.2.2
    · rintro ⟨-, htext⟩
      have hinside : ∀ m, e = some m → m < ar.length ∧
          ar.index + 16 * (m + 1) ≤ ar.mmap.length ∧ ar.keyId m = some (lmoCanonHash key) ∧
          ar.TextInside m := by
        intro m hm
        obtain ⟨hprobe, hkey⟩ := (hiff m).mp hm
        have hrange := hprobe.range
        have hlt : m < ar.length := by omega
        refine ⟨hlt, ?_, (key_iff hcomplete hlt).mp hkey, htext m hprobe hkey⟩
        unfold LmoArchive.Complete at hcomplete
        omega
      constructor
      · refine ⟨e, hfind, by rw [hr]; exact hwithin, hinside, fun hs => ?_⟩
        constructor
        · rintro ⟨m, hm⟩
          exact ⟨m, (hinside m hm).1, (hinside m hm).2.2.1⟩
        · rintro ⟨m, hm, hkey⟩
          obtain ⟨i, hprobe, hi⟩ := Probes.exists_of_sorted hs
            (Between.start (n := ar.length) (r := ar.length - 1) (by omega)) (by omega) hm
            ((key_iff hcomplete hm).mpr hkey)
          exact ⟨i, (hiff i).mpr ⟨hprobe, hi⟩⟩
      · rintro archives ⟨t, ht⟩
        rw [translateIn, hfind, Option.bind_some]
        cases e with
        | none => exact ⟨t, ht⟩
        | some m =>
          obtain ⟨text, htext⟩ := text_inside (hinside m rfl).2.2.2
          refine ⟨.found text, ?_⟩
          dsimp only
          rw [htext]
          rfl
  · refine iff_of_false ?_ fun hright => hentry hright.1
    intro hsafe
    obtain ⟨e, hfind, -⟩ := hsafe.search
    rw [opened_short h hentry] at hfind
    cases hfind

/-- An archive of one entry, for the hash 0 and an empty text. -/
theorem lookup_safe_iff_one :
    SafeLookup ⟨List.replicate 20 0, 0, 1⟩ (lmoCanonHash []) ↔
      0 + 20 ≤ (List.replicate 20 (0 : U8)).length ∧
        ∀ m, Probes (LmoArchive.key ⟨List.replicate 20 0, 0, 1⟩) (lmoCanonHash []).toNat 0
          (1 - 1) m → LmoArchive.key ⟨List.replicate 20 0, 0, 1⟩ m = (lmoCanonHash []).toNat →
            LmoArchive.TextInside ⟨List.replicate 20 0, 0, 1⟩ m :=
  lookup_safe_iff (List.replicate 20 0) ⟨List.replicate 20 0, 0, 1⟩ [] rfl

/-- The file of four null bytes is accepted, and the first read of its index is outside. -/
theorem empty_index_unsafe : ¬ ∀ (file : List U8) (ar : LmoArchive) (key : List U8),
    lmoOpen file = some (some ar) → SafeLookup ar (lmoCanonHash key) := by
  intro h
  have hopen : lmoOpen [0, 0, 0, 0] = some (some ⟨[0, 0, 0, 0], 0, 0⟩) := rfl
  obtain ⟨e, hfind, -⟩ := (h [0, 0, 0, 0] ⟨[0, 0, 0, 0], 0, 0⟩ [] hopen).search
  rw [opened_short hopen (by decide)] at hfind
  cases hfind

end OpenwrtMtk.Luci
