import Mathlib.Data.List.Chain
import OpenwrtMtk.Lib.Bytes

/-!
# UTF-8

The bytes of characters, and which short sequences of bytes are those of a character.
-/

namespace Toolkit

set_option autoImplicit false

def charBytes (c : Char) : List U8 := (String.utf8EncodeChar c).map UInt8.toBitVec

def textBytes (cs : List Char) : List U8 := cs.flatMap charBytes

def IsUtf8 (bytes : List U8) : Prop := ∃ cs, bytes = textBytes cs

def isCont (b : U8) : Bool := 0x80 ≤ b.toNat && b.toNat < 0xc0

theorem isCont_iff {b : U8} : isCont b = true ↔ 0x80 ≤ b.toNat ∧ b.toNat < 0xc0 := by
  rw [isCont, Bool.and_eq_true, decide_eq_true_iff, decide_eq_true_iff]

theorem textBytes_cons (c : Char) (cs : List Char) :
    textBytes (c :: cs) = charBytes c ++ textBytes cs := List.flatMap_cons

theorem textBytes_append (cs ds : List Char) :
    textBytes (cs ++ ds) = textBytes cs ++ textBytes ds := List.flatMap_append

namespace IsUtf8

variable {xs ys : List U8}

theorem nil : IsUtf8 [] := ⟨[], rfl⟩

theorem append (hx : IsUtf8 xs) (hy : IsUtf8 ys) : IsUtf8 (xs ++ ys) := by
  obtain ⟨cs, rfl⟩ := hx
  obtain ⟨ds, rfl⟩ := hy
  exact ⟨cs ++ ds, (textBytes_append cs ds).symm⟩

theorem char (c : Char) : IsUtf8 (charBytes c) := ⟨[c], (List.flatMap_singleton _ _).symm⟩

end IsUtf8

section Shapes

variable {c : Char}

theorem scalar (c : Char) : c.toNat < 0xd800 ∨ (0xdfff < c.toNat ∧ c.toNat < 0x110000) := c.valid

theorem exists_char {n : Nat} (h : n < 0xd800 ∨ (0xdfff < n ∧ n < 0x110000)) :
    ∃ c : Char, c.toNat = n := ⟨Char.ofNatAux n h, rfl⟩

theorem charBytes_eq (c : Char) :
    charBytes c =
      if c.toNat < 0x80 then [BitVec.ofNat 8 c.toNat]
      else if c.toNat < 0x800 then
        [BitVec.ofNat 8 (0xc0 + c.toNat / 64), BitVec.ofNat 8 (0x80 + c.toNat % 64)]
      else if c.toNat < 0x10000 then
        [BitVec.ofNat 8 (0xe0 + c.toNat / 4096), BitVec.ofNat 8 (0x80 + c.toNat / 64 % 64),
          BitVec.ofNat 8 (0x80 + c.toNat % 64)]
      else
        [BitVec.ofNat 8 (0xf0 + c.toNat / 262144), BitVec.ofNat 8 (0x80 + c.toNat / 4096 % 64),
          BitVec.ofNat 8 (0x80 + c.toNat / 64 % 64), BitVec.ofNat 8 (0x80 + c.toNat % 64)] := by
  have hbyte : ∀ v, (UInt8.ofNat v).toBitVec = BitVec.ofNat 8 v := fun _ => rfl
  have hscalar := scalar c
  unfold charBytes String.utf8EncodeChar
  have hval : c.val.toNat = c.toNat := rfl
  rw [hval]
  by_cases h1 : c.toNat < 0x80
  · rw [if_pos h1, if_pos (Nat.le_of_lt_succ h1)]
    rfl
  · rw [if_neg h1, if_neg (by omega)]
    by_cases h2 : c.toNat < 0x800
    · rw [if_pos h2, if_pos (by omega)]
      simp only [List.map_cons, List.map_nil, hbyte]
      rw [Nat.mod_eq_of_lt (by omega), Nat.add_comm, Nat.add_comm _ 0x80]
    · rw [if_neg h2, if_neg (by omega)]
      by_cases h3 : c.toNat < 0x10000
      · rw [if_pos h3, if_pos (by omega)]
        simp only [List.map_cons, List.map_nil, hbyte]
        rw [Nat.mod_eq_of_lt (by omega : c.toNat / 4096 < 16), Nat.add_comm, Nat.add_comm _ 0x80,
          Nat.add_comm (c.toNat % 64)]
      · rw [if_neg h3, if_neg (by omega)]
        simp only [List.map_cons, List.map_nil, hbyte]
        rw [Nat.mod_eq_of_lt (by omega : c.toNat / 262144 < 8), Nat.add_comm, Nat.add_comm _ 0x80,
          Nat.add_comm (c.toNat / 64 % 64), Nat.add_comm (c.toNat % 64)]

variable {a b d e : U8}

theorem byte_eq {n : Nat} (h : a.toNat = n) : BitVec.ofNat 8 n = a := by
  rw [← h, BitVec.ofNat_toNat]
  exact BitVec.setWidth_eq a

theorem exists_char_one (ha : a.toNat < 0x80) : ∃ c : Char, c.toNat = a.toNat ∧ charBytes c = [a] := by
  obtain ⟨c, hc⟩ := exists_char (.inl (by omega : a.toNat < 0xd800))
  refine ⟨c, hc, ?_⟩
  rw [charBytes_eq, if_pos (by omega), byte_eq hc.symm]

theorem exists_char_two (ha : 0xc2 ≤ a.toNat ∧ a.toNat < 0xe0) (hb : isCont b = true) :
    ∃ c, charBytes c = [a, b] := by
  rw [isCont_iff] at hb
  obtain ⟨c, hc⟩ := exists_char (n := (a.toNat - 0xc0) * 64 + (b.toNat - 0x80)) (.inl (by omega))
  refine ⟨c, ?_⟩
  rw [charBytes_eq, if_neg (by omega), if_pos (by omega), byte_eq (by omega : a.toNat = _),
    byte_eq (by omega : b.toNat = _)]

theorem exists_char_three (ha : 0xe0 ≤ a.toNat ∧ a.toNat < 0xf0) (hb : isCont b = true)
    (hd : isCont d = true) (hshort : a.toNat = 0xe0 → 0xa0 ≤ b.toNat)
    (hsurrogate : a.toNat = 0xed → b.toNat < 0xa0) : ∃ c, charBytes c = [a, b, d] := by
  rw [isCont_iff] at hb hd
  obtain ⟨c, hc⟩ := exists_char
    (n := (a.toNat - 0xe0) * 4096 + (b.toNat - 0x80) * 64 + (d.toNat - 0x80)) (by omega)
  refine ⟨c, ?_⟩
  rw [charBytes_eq, if_neg (by omega), if_neg (by omega), if_pos (by omega),
    byte_eq (by omega : a.toNat = _), byte_eq (by omega : b.toNat = _),
    byte_eq (by omega : d.toNat = _)]

theorem exists_char_four (ha : 0xf0 ≤ a.toNat ∧ a.toNat ≤ 0xf4) (hb : isCont b = true)
    (hd : isCont d = true) (he : isCont e = true) (hshort : a.toNat = 0xf0 → 0x90 ≤ b.toNat)
    (hlast : a.toNat = 0xf4 → b.toNat < 0x90) : ∃ c, charBytes c = [a, b, d, e] := by
  rw [isCont_iff] at hb hd he
  obtain ⟨c, hc⟩ := exists_char (n := (a.toNat - 0xf0) * 262144 + (b.toNat - 0x80) * 4096 +
    (d.toNat - 0x80) * 64 + (e.toNat - 0x80)) (by omega)
  refine ⟨c, ?_⟩
  rw [charBytes_eq, if_neg (by omega), if_neg (by omega), if_neg (by omega),
    byte_eq (by omega : a.toNat = _), byte_eq (by omega : b.toNat = _),
    byte_eq (by omega : d.toNat = _), byte_eq (by omega : e.toNat = _)]

def Above (a b : U8) : Prop := 0xf4 < a.toNat ∨ (a.toNat = 0xf4 ∧ 0x90 ≤ b.toNat)

instance (a b : U8) : Decidable (Above a b) := inferInstanceAs (Decidable (_ ∨ _))

theorem byte_toNat {n : Nat} (h : n < 0x100) : (BitVec.ofNat 8 n).toNat = n := by
  rw [BitVec.toNat_ofNat]
  exact Nat.mod_eq_of_lt h

theorem charBytes_chain (c : Char) : (charBytes c).IsChain fun a b => ¬ Above a b := by
  have hscalar := scalar c
  rw [charBytes_eq]
  split
  · exact .singleton _
  · split
    · refine .cons_cons ?_ (.singleton _)
      rw [Above, byte_toNat (by omega)]
      omega
    · split
      · refine .cons_cons ?_ (.cons_cons ?_ (.singleton _))
        · rw [Above, byte_toNat (by omega)]
          omega
        · rw [Above, byte_toNat (by omega)]
          omega
      · refine .cons_cons ?_ (.cons_cons ?_ (.cons_cons ?_ (.singleton _)))
        · rw [Above, byte_toNat (by omega), byte_toNat (by omega)]
          omega
        · rw [Above, byte_toNat (by omega)]
          omega
        · rw [Above, byte_toNat (by omega)]
          omega

theorem charBytes_last (c : Char) : ∃ as a, charBytes c = as ++ [a] ∧ a.toNat < 0xc0 := by
  rw [charBytes_eq]
  split
  · exact ⟨[], _, rfl, by rw [byte_toNat (by omega)]; omega⟩
  · split
    · exact ⟨[_], _, rfl, by rw [byte_toNat (by omega)]; omega⟩
    · split
      · exact ⟨[_, _], _, rfl, by rw [byte_toNat (by omega)]; omega⟩
      · exact ⟨[_, _, _], _, rfl, by rw [byte_toNat (by omega)]; omega⟩

theorem textBytes_chain (cs : List Char) : (textBytes cs).IsChain fun a b => ¬ Above a b := by
  induction cs with
  | nil => exact .nil
  | cons c cs ih =>
    rw [textBytes_cons, List.isChain_append]
    refine ⟨charBytes_chain c, ih, ?_⟩
    intro a ha b _
    obtain ⟨as, d, heq, hlast⟩ := charBytes_last c
    rw [heq, List.getLast?_append] at ha
    have hsame : d = a := Option.some.inj ha
    rw [hsame] at hlast
    rw [Above]
    omega

end Shapes

end Toolkit
