import OpenwrtMtk.Uci2dat.Positional

/-!
# Encryption of interfaces with a WPA mode

The option `encryption` names a mode and, behind a `+`, a cipher. The cipher is copied as it is, and
`EncrypType` knows four of them; with any other one the interface keeps its WPA mode and is printed
as not encrypted.
-/

namespace OpenwrtMtk.Uci2dat

open Toolkit

set_option autoImplicit false

/-- The elements of `AuthMode` that ask for encryption. -/
def wpaModes : List (List U8) :=
  ["WPAPSK", "WPA2PSK", "WPAPSKWPA2PSK", "WPA", "WPA2", "WPA1WPA2"].map bytes

def strongTypes : List (List U8) := ["AES", "TKIP", "TKIPAES"].map bytes

def wpaNames : List String :=
  ["mixed-psk", "psk-mixed", "psk+psk2", "psk2", "psk", "wpa-mixed", "wpa+wpa2", "wpa2", "wpa"]

def knownCiphers : List (List U8) := ["ccmp", "tkip", "ccmp+tkip", "tkip+ccmp"].map bytes

/-- What follows the name of the mode behind a `+` is a cipher that `EncrypType` knows. -/
def CipherKnown (value : List U8) : Prop :=
  ∀ name ∈ wpaNames.find? (begins value), ∀ cipher ≠ [], value = bytes name ++ 0x2b :: cipher →
    cipher.map tolower ∈ knownCiphers

section Names

variable {value : List U8} {name other : String}

theorem begins_iff : begins value name = true ↔ bytes name <+: value := List.isPrefixOf_iff_prefix

theorem begins_apart (h : begins value name = true)
    (hne : (bytes name).take 3 ≠ (bytes other).take 3) (hlen : 3 ≤ (bytes name).length)
    (hlen' : 3 ≤ (bytes other).length) : begins value other = false := by
  rw [← Bool.not_eq_true, begins_iff]
  rintro ⟨rest', hother⟩
  obtain ⟨rest, hname⟩ := begins_iff.mp h
  apply hne
  have htake : (bytes name ++ rest).take 3 = (bytes name).take 3 :=
    List.take_append_of_le_length hlen
  rw [← htake, hname, ← hother, List.take_append_of_le_length hlen']

theorem begins_longer (h : begins value name = false) (hlonger : bytes name <+: bytes other) :
    begins value other = false := by
  rw [← Bool.not_eq_true, begins_iff] at h ⊢
  exact fun hother => h (hlonger.trans hother)

end Names

section Elements

variable {v : Vif} {value cipher : List U8} {name mode : String}

theorem knownCiphers_iff : cipher.map tolower ∈ knownCiphers ↔
    strcaseeq cipher "ccmp" = true ∨ strcaseeq cipher "tkip" = true ∨
      (strcaseeq cipher "ccmp+tkip" || strcaseeq cipher "tkip+ccmp") = true := by
  have hlower : ∀ name ∈ ["ccmp", "tkip", "ccmp+tkip", "tkip+ccmp"],
      (bytes name).map tolower = bytes name := by decide
  simp only [List.forall_mem_cons] at hlower
  obtain ⟨h₁, h₂, h₃, h₄, -⟩ := hlower
  simp only [knownCiphers, strcaseeq, List.map_cons, List.map_nil, List.mem_cons, List.not_mem_nil,
    or_false, Bool.or_eq_true, decide_eq_true_eq, h₁, h₂, h₃, h₄]

/-- The modes for which `EncrypType` looks at the cipher. -/
def ReadsCipher (mode : String) : Prop :=
  strcaseeq (bytes mode) "none" = false ∧ (strcaseeq (bytes mode) "wep-open" ||
    strcaseeq (bytes mode) "wep-shared" || strcaseeq (bytes mode) "8021x") = false

instance (mode : String) : Decidable (ReadsCipher mode) := inferInstanceAs (Decidable (_ ∧ _))

theorem encrypType_strong_iff (hmode : v.authmode = some (bytes mode))
    (hcipher : v.cipher = some cipher) (hreads : ReadsCipher mode) :
    encrypType v ∈ strongTypes ↔ cipher.map tolower ∈ knownCiphers := by
  rw [knownCiphers_iff]
  unfold encrypType
  rw [hmode, hcipher]
  dsimp only
  rw [hreads.1, hreads.2, if_neg Bool.false_ne_true, if_neg Bool.false_ne_true]
  by_cases hccmp : strcaseeq cipher "ccmp" = true
  · rw [if_pos hccmp]
    exact iff_of_true (by decide) (.inl hccmp)
  · rw [if_neg hccmp]
    by_cases htkip : strcaseeq cipher "tkip" = true
    · rw [if_pos htkip]
      exact iff_of_true (by decide) (.inr (.inl htkip))
    · rw [if_neg htkip]
      by_cases hboth : (strcaseeq cipher "ccmp+tkip" || strcaseeq cipher "tkip+ccmp") = true
      · rw [if_pos hboth]
        exact iff_of_true (by decide) (.inr (.inr hboth))
      · rw [if_neg hboth]
        refine iff_of_false (by decide) ?_
        rintro (h | h | h)
        · exact hccmp h
        · exact htkip h
        · exact hboth h

theorem cipherBehind_known_iff (h : begins value name = true) :
    (cipherBehind (value.drop (bytes name).length)).map tolower ∈ knownCiphers ↔
      ∀ cipher ≠ [], value = bytes name ++ 0x2b :: cipher →
        cipher.map tolower ∈ knownCiphers := by
  obtain ⟨rest, rfl⟩ := begins_iff.mp h
  rw [List.drop_left]
  constructor
  · intro hknown cipher hne heq
    rw [List.append_cancel_left heq] at hknown
    cases cipher with
    | nil => exact absurd rfl hne
    | cons c p => exact hknown
  · intro hall
    by_cases hplus : ∃ c p, rest = 0x2b :: c :: p
    · obtain ⟨c, p, rfl⟩ := hplus
      exact hall (c :: p) (List.cons_ne_nil c p) rfl
    · have hdefault : cipherBehind rest = bytes "tkip+ccmp" := by
        unfold cipherBehind
        split
        · rename_i c p
          exact absurd ⟨c, p, rfl⟩ hplus
        · rfl
      rw [hdefault]
      decide

theorem secured_strong_iff (hfind : wpaNames.find? (begins value) = some name)
    (hreads : ReadsCipher mode) :
    encrypType (secured v value name mode) ∈ strongTypes ↔ CipherKnown value := by
  have hname : begins value name = true := List.find?_some hfind
  rw [encrypType_strong_iff rfl rfl hreads, cipherBehind_known_iff hname, CipherKnown, hfind]
  exact ⟨fun h other heq => Option.some.inj heq ▸ h, fun h => h name rfl⟩

end Elements

section Downgrade

variable {v : Vif} {value : List U8} {s : Section}

theorem cipherKnown_of_none (hfind : wpaNames.find? (begins value) = none) : CipherKnown value := by
  intro name hname
  rw [hfind] at hname
  cases hname

theorem find_none (hmixed : begins value "mixed-psk" = false) (hpsk : begins value "psk" = false)
    (hwpa : begins value "wpa" = false) : wpaNames.find? (begins value) = none := by
  rw [List.find?_eq_none]
  intro name hname
  simp only [wpaNames, List.mem_cons, List.not_mem_nil, or_false] at hname
  rcases hname with rfl | rfl | rfl | rfl | rfl | rfl | rfl | rfl | rfl
  · exact Bool.eq_false_iff.mp hmixed
  · exact Bool.eq_false_iff.mp (begins_longer hpsk (by decide))
  · exact Bool.eq_false_iff.mp (begins_longer hpsk (by decide))
  · exact Bool.eq_false_iff.mp (begins_longer hpsk (by decide))
  · exact Bool.eq_false_iff.mp hpsk
  · exact Bool.eq_false_iff.mp (begins_longer hwpa (by decide))
  · exact Bool.eq_false_iff.mp (begins_longer hwpa (by decide))
  · exact Bool.eq_false_iff.mp (begins_longer hwpa (by decide))
  · exact Bool.eq_false_iff.mp hwpa

def KeepsMode (v : Vif) : Prop := authMode v ∈ wpaModes → encrypType v ∈ strongTypes

def printedMode (mode : String) : List U8 := authMode { vif with authmode := some (bytes mode) }

theorem keepsMode_secured {name mode : String} (hfind : wpaNames.find? (begins value) = some name)
    (hreads : ReadsCipher mode) (hmode : printedMode mode ∈ wpaModes) :
    KeepsMode (secured v value name mode) ↔ CipherKnown value := by
  have hprinted : authMode (secured v value name mode) = printedMode mode := rfl
  rw [KeepsMode, hprinted, forall_prop_of_true hmode]
  exact secured_strong_iff hfind hreads

theorem keepsMode_fixed {mode cipher : String} (hmode : printedMode mode ∉ wpaModes)
    (hfind : wpaNames.find? (begins value) = none) :
    KeepsMode (fixedCipher v mode cipher) ↔ CipherKnown value := by
  have hprinted : authMode (fixedCipher v mode cipher) = printedMode mode := rfl
  rw [KeepsMode, hprinted]
  exact iff_of_true (fun h => absurd h hmode) (cipherKnown_of_none hfind)

theorem keepsMode_apart {constant mode cipher : String} (h : begins value constant = true)
    (hne : ∀ other ∈ ["mixed-psk", "psk", "wpa"],
      (bytes constant).take 3 ≠ (bytes other).take 3 ∧ 3 ≤ (bytes other).length)
    (hlen : 3 ≤ (bytes constant).length)
    (hmode : printedMode mode ∉ wpaModes) :
    KeepsMode (fixedCipher v mode cipher) ↔ CipherKnown value := by
  have happart (other : String) (hother : other ∈ ["mixed-psk", "psk", "wpa"]) :
      begins value other = false :=
    begins_apart h (hne other hother).1 hlen (hne other hother).2
  refine keepsMode_fixed hmode (find_none (happart _ ?_) (happart _ ?_) (happart _ ?_)) <;> decide

theorem encryption_keepsMode_iff (hv : authMode v ∉ wpaModes) (value : List U8) :
    KeepsMode (encryption v value) ↔ CipherKnown value := by
  have hbefore : authMode (if begins value "8021x" then fixedCipher v "8021x" "wep" else v) ∉
      wpaModes := by
    split
    · show printedMode "8021x" ∉ wpaModes
      decide
    · exact hv
  unfold encryption
  dsimp only
  generalize (if begins value "8021x" then fixedCipher v "8021x" "wep" else v) = v at hbefore
  by_cases hnone : begins value "none" = true
  · rw [if_pos hnone]
    exact keepsMode_apart hnone (by decide) (by decide) (by decide)
  rw [if_neg hnone]
  by_cases hopen : begins value "wep-open" = true
  · rw [if_pos hopen]
    exact keepsMode_apart hopen (by decide) (by decide) (by decide)
  rw [if_neg hopen]
  by_cases hshared : begins value "wep-shared" = true
  · rw [if_pos hshared]
    exact keepsMode_apart hshared (by decide) (by decide) (by decide)
  rw [if_neg hshared]
  by_cases hmixed : begins value "mixed-psk" = true
  · rw [if_pos hmixed]
    have hfind : wpaNames.find? (begins value) = some "mixed-psk" := by simp [wpaNames, hmixed]
    exact keepsMode_secured hfind (by decide) (by decide)
  rw [if_neg hmixed]
  by_cases hpsk : begins value "psk" = true
  · rw [if_pos hpsk]
    by_cases hboth : begins value "psk-mixed" = true
    · rw [if_pos hboth]
      exact keepsMode_secured (by simp [wpaNames, hmixed, hboth]) (by decide) (by decide)
    rw [if_neg hboth]
    by_cases hsum : begins value "psk+psk2" = true
    · rw [if_pos hsum]
      exact keepsMode_secured (by simp [wpaNames, hmixed, hboth, hsum]) (by decide) (by decide)
    rw [if_neg hsum]
    by_cases hpsk2 : begins value "psk2" = true
    · rw [if_pos hpsk2]
      exact keepsMode_secured (by simp [wpaNames, hmixed, hboth, hsum, hpsk2]) (by decide)
        (by decide)
    rw [if_neg hpsk2]
    exact keepsMode_secured (by simp [wpaNames, hmixed, hboth, hsum, hpsk2, hpsk]) (by decide)
      (by decide)
  rw [if_neg hpsk]
  by_cases hwpa : begins value "wpa" = true
  · rw [if_pos hwpa]
    rw [Bool.not_eq_true] at hpsk
    have hfind : wpaNames.find? (begins value) =
        ["wpa-mixed", "wpa+wpa2", "wpa2", "wpa"].find? (begins value) := by
      have hlonger (other : String) (h : bytes "psk" <+: bytes other) :
          begins value other = false := begins_longer hpsk h
      simp [wpaNames, hmixed, hpsk, hlonger "psk-mixed" (by decide), hlonger "psk+psk2" (by decide),
        hlonger "psk2" (by decide)]
    by_cases hboth : begins value "wpa-mixed" = true
    · rw [if_pos hboth]
      exact keepsMode_secured (by simp [hfind, hboth]) (by decide) (by decide)
    rw [if_neg hboth]
    by_cases hsum : begins value "wpa+wpa2" = true
    · rw [if_pos hsum]
      exact keepsMode_secured (by simp [hfind, hboth, hsum]) (by decide) (by decide)
    rw [if_neg hsum]
    by_cases hwpa2 : begins value "wpa2" = true
    · rw [if_pos hwpa2]
      exact keepsMode_secured (by simp [hfind, hboth, hsum, hwpa2]) (by decide) (by decide)
    rw [if_neg hwpa2]
    exact keepsMode_secured (by simp [hfind, hboth, hsum, hwpa2, hwpa]) (by decide) (by decide)
  rw [if_neg hwpa]
  rw [Bool.not_eq_true] at hmixed hpsk hwpa
  exact iff_of_true (fun h => absurd h hbefore) (cipherKnown_of_none (find_none hmixed hpsk hwpa))

theorem parseVif_keepsMode_iff (s : Section) :
    KeepsMode (parseVif vif s) ↔ ∀ value ∈ s.option "encryption", CipherKnown value := by
  unfold parseVif
  dsimp only
  cases hoption : s.option "encryption" with
  | none =>
    refine iff_of_true (fun h => absurd h ?_) fun value h => nomatch h
    show authMode vif ∉ wpaModes
    decide
  | some value =>
    refine (encryption_keepsMode_iff ?_ value).trans ?_
    · show authMode vif ∉ wpaModes
      decide
    · exact ⟨fun h other heq => Option.some.inj heq ▸ h, fun h => h value rfl⟩

/-- What is printed about one interface of a device. -/
theorem printed_keepsMode_iff (devname : List U8) (params : List Param) (front : List Section)
    (s : Section) (back : List Section) (text text' : List U8) :
    ∃ mode type,
      (fields (hooker (configured devname params (front ++ s :: back)) "AuthMode" text))[
        front.length]? = some mode ∧
      (fields (hooker (configured devname params (front ++ s :: back)) "EncrypType" text'))[
        front.length]? = some type ∧
      ((mode ∈ wpaModes → type ∈ strongTypes) ↔
        ∀ value ∈ s.option "encryption", CipherKnown value) := by
  have hused := used_configured devname params (front ++ s :: back)
  have hne : (front ++ s :: back).map (parseVif vif) ≠ [] := by simp
  have hprint {element : Vif → List U8} (hclean : ∀ v, 0x3b ∉ element v) :
      (fields (separated element (configured devname params (front ++ s :: back)).used))[
        front.length]? = some (element (parseVif vif s)) := by
    rw [hused, fields_separated hne fun v _ => hclean v]
    simp
  exact ⟨_, _, hprint authMode_clean, hprint encrypType_clean, parseVif_keepsMode_iff s⟩

/-- The cipher `aes` is not one of those that are known. -/
theorem psk2_aes_unencrypted :
    fields (hooker (configured (bytes "ra0") cfgElements
        [⟨bytes "wifi-iface", [], [(bytes "encryption", bytes "psk2+aes")]⟩]) "AuthMode" []) =
      [bytes "WPA2PSK"] ∧
    fields (hooker (configured (bytes "ra0") cfgElements
        [⟨bytes "wifi-iface", [], [(bytes "encryption", bytes "psk2+aes")]⟩]) "EncrypType" []) =
      [bytes "NONE"] := by
  decide +kernel

end Downgrade

end OpenwrtMtk.Uci2dat
