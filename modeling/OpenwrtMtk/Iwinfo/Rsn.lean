import OpenwrtMtk.Lib.Checked

/-!
# The security element of an access point

`iwinfo_parse_rsn` walks through the version, the group cipher, the pairwise ciphers and the key
managements of an RSN or WPA element. What is left of the element is kept in one byte, and is tested
before each part but the first.
-/

namespace OpenwrtMtk.Iwinfo

open Toolkit

set_option autoImplicit false

structure CryptoEntry where
  wpaVersion : U8
  groupCiphers : U8
  pairCiphers : U8
  authSuites : U8
  deriving DecidableEq

def cipherWep40 : U8 := 1 <<< 1
def cipherTkip : U8 := 1 <<< 2
def cipherCcmp : U8 := 1 <<< 4
def cipherWep104 : U8 := 1 <<< 5

def kmgmt8021x : U8 := 1 <<< 1
def kmgmtPsk : U8 := 1 <<< 2

def msOui : List U8 := [0x00, 0x50, 0xf2]
def ieee80211Oui : List U8 := [0x00, 0x0f, 0xac]

def cipherOf (suite : U8) : U8 :=
  if suite = 1 then cipherWep40
  else if suite = 2 then cipherTkip
  else if suite = 4 then cipherCcmp
  else if suite = 5 then cipherWep104
  else 0

def kmgmtOf (suite : U8) : U8 :=
  if suite = 1 then kmgmt8021x
  else if suite = 2 then kmgmtPsk
  else 0

section Parser

/-! The element is the first `size` bytes behind `data`. -/

variable (data : List U8) (size : Nat)

/-- `memcmp(data + off, oui, 3)` -/
def sameOui (off : Nat) (oui : List U8) : Checked Bool := do
  let bytes ← loadIn data 0 size off 3
  return decide (bytes = oui)

def knownOui (off : Nat) : Checked Bool := do
  let ms ← sameOui data size off msOui
  if ms then
    return true
  else
    sameOui data size off ieee80211Oui

def parseVersion (c : CryptoEntry) (off : Nat) : Checked CryptoEntry := do
  let ms ← sameOui data size off msOui
  if ms then
    return { c with wpaVersion := c.wpaVersion + 1 }
  else
    let ieee ← sameOui data size off ieee80211Oui
    if ieee then
      return { c with wpaVersion := c.wpaVersion + 2 }
    else
      return c

/-- What the suite at `off` adds. -/
def suiteAt (flag : U8 → U8) (off : Nat) : Checked U8 := do
  let known ← knownOui data size off
  if known then
    let suite ← byteIn data 0 size (off + 3)
    return flag suite
  else
    return 0

def countAt (off : Nat) : Checked Nat := do
  let low ← byteIn data 0 size off
  let high ← byteIn data 0 size (off + 1)
  return low.toNat ||| high.toNat <<< 8

/-- The loop over the `count` suites behind the count at `off`. -/
def suites (flag : U8 → U8) (off count : Nat) (found : U8) : Checked U8 :=
  (List.range count).foldlM (fun found i => do
    let suite ← suiteAt data size flag (off + 2 + i * 4)
    return found ||| suite) found

def parseAuth (c : CryptoEntry) (off : Nat) (len defauth : U8) : Checked CryptoEntry :=
  if len < 2 then
    return { c with authSuites := c.authSuites ||| defauth }
  else do
    let count ← countAt data size off
    if 2 + count * 4 > len.toNat then
      return c
    else
      let found ← suites data size kmgmtOf off count c.authSuites
      return { c with authSuites := found }

def parsePairs (c : CryptoEntry) (off : Nat) (len defcipher defauth : U8) : Checked CryptoEntry :=
  if len < 2 then
    return { c with
      pairCiphers := c.pairCiphers ||| defcipher
      authSuites := c.authSuites ||| defauth }
  else do
    let count ← countAt data size off
    if 2 + count * 4 > len.toNat then
      return c
    else
      let found ← suites data size cipherOf off count c.pairCiphers
      parseAuth data size { c with pairCiphers := found } (off + (2 + count * 4))
        (len - BitVec.ofNat 8 (2 + count * 4)) defauth

end Parser

/-- `iwinfo_parse_rsn`. `len` is subtracted from as a byte, whatever it is. -/
def parseRsn (c : CryptoEntry) (data : List U8) (len defcipher defauth : U8) :
    Checked CryptoEntry := do
  let size := len.toNat
  let c ← parseVersion data size c 2
  let len := len - 2
  if len < 4 then
    return { c with
      groupCiphers := c.groupCiphers ||| defcipher
      pairCiphers := c.pairCiphers ||| defcipher
      authSuites := c.authSuites ||| defauth }
  else
    let cipher ← suiteAt data size cipherOf 2
    parsePairs data size { c with groupCiphers := c.groupCiphers ||| cipher } 6 (len - 4)
      defcipher defauth

section Bounds

variable {data : List U8} {size off : Nat} {len : U8}

theorem sameOui_ok (oui : List U8) (h : off + 3 ≤ size) :
    sameOui data size off oui = .ok (decide (slice data off 3 = oui)) :=
  bind_ok (loadIn_ok (Nat.zero_le _) h)

theorem knownOui_ends (data : List U8) (h : off + 3 ≤ size) : Ends (knownOui data size off) := by
  rw [knownOui, bind_ok (sameOui_ok msOui h)]
  split
  · exact ends_pure true
  · exact Ends.intro (sameOui_ok ieee80211Oui h)

theorem parseVersion_ends (data : List U8) (c : CryptoEntry) :
    Ends (parseVersion data size c off) ↔ off + 3 ≤ size := by
  constructor
  · intro h
    obtain ⟨ms, hms, _⟩ := ends_bind.mp h
    obtain ⟨bytes, hload, _⟩ := bind_eq_ok.mp hms
    exact (loadIn_eq_ok.mp hload).1.2
  · intro h
    rw [parseVersion, bind_ok (sameOui_ok msOui h)]
    split
    · exact ends_pure _
    · rw [bind_ok (sameOui_ok ieee80211Oui h)]
      split
      · exact ends_pure _
      · exact ends_pure _

theorem suiteAt_ends (data : List U8) (flag : U8 → U8) (h : off + 4 ≤ size) :
    Ends (suiteAt data size flag off) := by
  have hoff : off + 3 < size := by omega
  obtain ⟨known, hknown⟩ := knownOui_ends data (Nat.le_of_lt hoff)
  rw [suiteAt, bind_ok hknown]
  split
  · rw [bind_ok (byteIn_ok (Nat.zero_le _) hoff)]
    exact ends_pure _
  · exact ends_pure _

theorem countAt_ends (data : List U8) (h : off + 2 ≤ size) : Ends (countAt data size off) := by
  have hoff : off + 1 < size := by omega
  rw [countAt, bind_ok (byteIn_ok (Nat.zero_le _) (Nat.lt_of_succ_lt hoff)),
    bind_ok (byteIn_ok (Nat.zero_le _) hoff)]
  exact ends_pure _

theorem suites_ends (data : List U8) (flag : U8 → U8) {count : Nat} (found : U8)
    (h : off + (2 + count * 4) ≤ size) : Ends (suites data size flag off count found) := by
  have hall : ∀ is : List Nat, (∀ i ∈ is, i < count) → ∀ found : U8,
      Ends (is.foldlM (fun found i => do
        let suite ← suiteAt data size flag (off + 2 + i * 4)
        return found ||| suite) found) := by
    intro is
    induction is with
    | nil => exact fun _ found => ends_pure found
    | cons i is ih =>
      intro hlt found
      have hi : i < count := hlt i List.mem_cons_self
      have hin : off + 2 + i * 4 + 4 ≤ size := by omega
      obtain ⟨suite, hsuite⟩ := suiteAt_ends data flag hin
      rw [List.foldlM_cons, bind_ok hsuite]
      exact ih (fun j hj => hlt j (List.mem_cons_of_mem i hj)) _
  exact hall _ (fun i hi => List.mem_range.mp hi) found

theorem two_le_of_not_lt (h : ¬len < 2) : 2 ≤ len.toNat := BitVec.le_def.mp (BitVec.not_lt.mp h)

theorem parseAuth_ends (c : CryptoEntry) (defauth : U8) (h : off + len.toNat ≤ size) :
    Ends (parseAuth data size c off len defauth) := by
  unfold parseAuth
  split
  · exact ends_pure _
  · rename_i hlen
    have htwo := two_le_of_not_lt hlen
    have hcounted : off + 2 ≤ size := by omega
    obtain ⟨count, hcount⟩ := countAt_ends data hcounted
    rw [bind_ok hcount]
    split
    · exact ends_pure _
    · rename_i hfits
      have hin : off + (2 + count * 4) ≤ size := by omega
      obtain ⟨found, hfound⟩ := suites_ends data kmgmtOf c.authSuites hin
      rw [bind_ok hfound]
      exact ends_pure _

theorem parsePairs_ends (c : CryptoEntry) (defcipher defauth : U8) (h : off + len.toNat ≤ size) :
    Ends (parsePairs data size c off len defcipher defauth) := by
  unfold parsePairs
  split
  · exact ends_pure _
  · rename_i hlen
    have htwo := two_le_of_not_lt hlen
    have hcounted : off + 2 ≤ size := by omega
    obtain ⟨count, hcount⟩ := countAt_ends data hcounted
    rw [bind_ok hcount]
    split
    · exact ends_pure _
    · rename_i hfits
      have hin : off + (2 + count * 4) ≤ size := by omega
      obtain ⟨found, hfound⟩ := suites_ends data cipherOf c.pairCiphers hin
      rw [bind_ok hfound]
      apply parseAuth_ends
      -- the suites fit in what is kept, so that the subtraction does not wrap
      rw [BitVec.toNat_sub, BitVec.toNat_ofNat]
      omega

end Bounds

theorem five_le_of_ends {c : CryptoEntry} {data : List U8} {len defcipher defauth : U8}
    (h : Ends (parseRsn c data len defcipher defauth)) : 5 ≤ len.toNat := by
  obtain ⟨c', hversion, _⟩ := ends_bind.mp h
  exact (parseVersion_ends data c).mp ⟨c', hversion⟩

/-- The parser stays inside of the element if and only if its first suite is not cut off: the
comparison with the version's identifier comes before any test of the length. -/
theorem parseRsn_ends_iff (c : CryptoEntry) (data : List U8) (len defcipher defauth : U8) :
    Ends (parseRsn c data len defcipher defauth) ↔ 5 ≤ len.toNat := by
  constructor
  · exact five_le_of_ends
  · intro h
    have hfive : 2 + 3 ≤ len.toNat := h
    obtain ⟨c', hversion⟩ := (parseVersion_ends data c).mpr hfive
    have hlen : (len - 2).toNat = len.toNat - 2 := by
      have hsmall := len.isLt
      rw [BitVec.toNat_sub]
      change (2 ^ 8 - 2 + len.toNat) % 2 ^ 8 = len.toNat - 2
      omega
    rw [parseRsn]
    dsimp only
    rw [bind_ok hversion]
    split
    · exact ends_pure _
    · rename_i hfour
      have hfour' : 4 ≤ (len - 2).toNat := BitVec.le_def.mp (BitVec.not_lt.mp hfour)
      have hsuite : 2 + 4 ≤ len.toNat := by omega
      obtain ⟨cipher, hcipher⟩ := suiteAt_ends data cipherOf hsuite
      rw [bind_ok hcipher]
      apply parsePairs_ends
      have hsmall := len.isLt
      rw [BitVec.toNat_sub]
      change 6 + (2 ^ 8 - 4 + (len - 2).toNat) % 2 ^ 8 ≤ len.toNat
      omega

/-- An element of one byte, as any station near by may send it. -/
theorem short_element_overread : ¬∀ (c : CryptoEntry) (data : List U8)
    (len defcipher defauth : U8), Ends (parseRsn c data len defcipher defauth) := by
  intro h
  have hone := five_le_of_ends (h ⟨0, 0, 0, 0⟩ [1] 1 cipherCcmp kmgmt8021x)
  exact absurd hone (by decide)

end OpenwrtMtk.Iwinfo
