import OpenwrtMtk.Lib.Bytes

/-!
# Bytes as characters

Texts as bytes and the classes of `ctype.h` in the C locale, which Lua's patterns use as well.
-/

namespace OpenwrtMtk.Luci

open Toolkit

set_option autoImplicit false

def charByte (c : Char) : U8 := BitVec.ofNat 8 c.toNat

def latin (s : String) : List U8 := s.toList.map charByte

def isspace (c : U8) : Bool := c = 0x20 || (9 ≤ c.toNat && c.toNat ≤ 13)

def iscntrl (c : U8) : Bool := c.toNat < 0x20 || c = 0x7f

def isdigit (c : U8) : Bool := 0x30 ≤ c.toNat && c.toNat ≤ 0x39

def hexValue (c : U8) : Option Nat :=
  if isdigit c then some (c.toNat - 0x30)
  else if 0x61 ≤ c.toNat && c.toNat ≤ 0x66 then some (c.toNat - 0x61 + 10)
  else if 0x41 ≤ c.toNat && c.toNat ≤ 0x46 then some (c.toNat - 0x41 + 10)
  else none

/-- The lower case digit that `%x` prints. -/
def hexDigit (n : Nat) : U8 := BitVec.ofNat 8 (if n < 10 then 0x30 + n else 0x61 + n - 10)

/-- `%d` of a number that is not negative. -/
def digits (n : Nat) : List U8 := (Nat.toDigits 10 n).map charByte

/-- `%d`. -/
def decimal : Int → List U8
  | .ofNat n => digits n
  | .negSucc n => 0x2d :: digits (n + 1)

/-! ### Digits -/

theorem charByte_toNat {c : Char} (hc : c.isDigit = true) : (charByte c).toNat = c.toNat := by
  simp only [Char.isDigit, ge_iff_le, Bool.and_eq_true, decide_eq_true_eq, UInt32.le_iff_toNat_le]
    at hc
  have hhigh : c.toNat ≤ 57 := hc.2
  rw [charByte, BitVec.toNat_ofNat]
  exact Nat.mod_eq_of_lt (by omega)

theorem charByte_digit {c : Char} (hc : c.isDigit = true) : isdigit (charByte c) = true := by
  have hbyte := charByte_toNat hc
  simp only [Char.isDigit, ge_iff_le, Bool.and_eq_true, decide_eq_true_eq, UInt32.le_iff_toNat_le]
    at hc
  have hlow : 48 ≤ c.toNat := hc.1
  have hhigh : c.toNat ≤ 57 := hc.2
  simp only [isdigit, hbyte, Bool.and_eq_true, decide_eq_true_eq]
  omega

theorem digits_isdigit (n : Nat) : ∀ d ∈ digits n, isdigit d = true := by
  intro d hd
  obtain ⟨c, hc, rfl⟩ := List.mem_map.mp hd
  exact charByte_digit (Nat.isDigit_of_mem_toDigits (by decide) (by decide) hc)

theorem digits_ne_nil (n : Nat) : digits n ≠ [] := by
  simp [digits, Nat.toDigits_ne_nil]

theorem foldl_charByte {l : List Char} (hl : ∀ c ∈ l, c.isDigit = true) (start : Nat) :
    (l.map charByte).foldl (fun n d => 10 * n + (d.toNat - 0x30)) start =
      Nat.ofDigitChars 10 l start := by
  induction l generalizing start with
  | nil => rfl
  | cons c l ih =>
    obtain ⟨hc, hl⟩ := List.forall_mem_cons.mp hl
    rw [List.map_cons, List.foldl_cons, ih hl, Nat.ofDigitChars_cons, charByte_toNat hc]
    rfl

theorem digits_value (n : Nat) :
    (digits n).foldl (fun n d => 10 * n + (d.toNat - 0x30)) 0 = n := by
  rw [digits, foldl_charByte fun c hc => Nat.isDigit_of_mem_toDigits (by decide) (by decide) hc,
    Nat.ofDigitChars_ten_toDigits]

end OpenwrtMtk.Luci
