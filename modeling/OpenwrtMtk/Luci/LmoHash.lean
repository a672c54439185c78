import OpenwrtMtk.Luci.Lmo

/-!
# The hash of a text on two machines

`sfh_hash` as compiled on a host with its own `char` and byte order. The last byte of a text is read
as a `char`, and its sign bit reaches the hash.
-/

namespace OpenwrtMtk.Luci

open Toolkit

set_option autoImplicit false

/-- A machine; an `i386` is little-endian. -/
structure Host where
  signedChar : Bool
  bigEndian : Bool
  i386 : Bool
  order : i386 = true → bigEndian = false

namespace Host

/-- `*((const uint16_t *) (d))`. -/
def load16 (h : Host) (a b : U8) : U32 :=
  if h.bigEndian then (a ++ b).setWidth 32 else (b ++ a).setWidth 32

/-- The macro `sfh_get16`. -/
def sfhGet16 (h : Host) (a b : U8) : U32 := if h.i386 then h.load16 a b else Luci.sfhGet16 a b

/-- A `char` in an expression. -/
def char (h : Host) (c : U8) : U32 := if h.signedChar then c.signExtend 32 else c.setWidth 32

/-- A round of the main loop of `sfh_hash`. -/
def sfhRound (h : Host) (hash : U32) (a b c d : U8) : U32 :=
  let hash := hash + h.sfhGet16 a b
  let tmp := (h.sfhGet16 c d <<< 11) ^^^ hash
  let hash := (hash <<< 16) ^^^ tmp
  hash + (hash >>> 11)

def sfhFold (h : Host) (hash : U32) : List U8 → U32
  | [] => hash
  | [a] =>
    let hash := hash + h.char a
    let hash := hash ^^^ (hash <<< 10)
    hash + (hash >>> 1)
  | [a, b] =>
    let hash := hash + h.sfhGet16 a b
    let hash := hash ^^^ (hash <<< 11)
    hash + (hash >>> 17)
  | [a, b, c] =>
    let hash := hash + h.sfhGet16 a b
    let hash := hash ^^^ (hash <<< 16)
    let hash := hash ^^^ (h.char c <<< 18)
    hash + (hash >>> 11)
  | a :: b :: c :: d :: data => h.sfhFold (h.sfhRound hash a b c d) data

def sfhHash (h : Host) (data : List U8) : U32 :=
  if data = [] then 0 else sfhFinish (h.sfhFold (BitVec.ofNat 32 data.length) data)

end Host

/-- The texts whose last byte is not read as a `char`, or is an ASCII character. -/
def PlainTail (data : List U8) : Prop :=
  data.length % 4 = 0 ∨ data.length % 4 = 2 ∨ ∀ c ∈ data.getLast?, c.toNat < 0x80

section Machines

variable {g h : Host} {hash : U32} {a b c d : U8} {data : List U8}

theorem sfhGet16_eq (h : Host) (a b : U8) : h.sfhGet16 a b = sfhGet16 a b := by
  unfold Host.sfhGet16
  split
  · rename_i hi386
    have hlittle : h.load16 a b = (b ++ a).setWidth 32 := by
      rw [Host.load16, h.order hi386, if_neg Bool.false_ne_true]
    have ha := a.isLt
    have hb := b.isLt
    rw [hlittle, sfhGet16]
    apply BitVec.eq_of_toNat_eq
    rw [BitVec.toNat_setWidth, BitVec.toNat_append, ← Nat.shiftLeft_add_eq_or_of_lt ha,
      BitVec.toNat_add, BitVec.toNat_shiftLeft, BitVec.toNat_setWidth, BitVec.toNat_setWidth,
      Nat.shiftLeft_eq, Nat.shiftLeft_eq]
    omega
  · rfl

theorem sfhRound_eq (h : Host) (hash : U32) (a b c d : U8) :
    h.sfhRound hash a b c d = sfhRound hash a b c d := by
  rw [Host.sfhRound, sfhGet16_eq, sfhGet16_eq]
  rfl

theorem char_ascii (hc : c.toNat < 0x80) (h : Host) : h.char c = c.setWidth 32 := by
  have hall : ∀ c : U8, c.toNat < 0x80 → c.signExtend 32 = c.setWidth 32 := by decide +kernel
  unfold Host.char
  split
  · exact hall c hc
  · rfl

theorem plainTail_step (hp : PlainTail (a :: b :: c :: d :: data)) : PlainTail data := by
  rcases hp with hp | hp | hp
  · left
    simp only [List.length_cons] at hp
    omega
  · right; left
    simp only [List.length_cons] at hp
    omega
  · cases data with
    | nil => exact .inl rfl
    | cons e data => exact .inr (.inr hp)

theorem char_plain (g h : Host) (hp : data.length % 4 = 1 ∨ data.length % 4 = 3)
    (hplain : PlainTail data) (hc : c ∈ data.getLast?) : g.char c = h.char c := by
  rcases hplain with hzero | htwo | hascii
  · omega
  · omega
  · rw [char_ascii (hascii c hc), char_ascii (hascii c hc)]

theorem sfhFold_plain (g h : Host) (hash : U32) (hp : PlainTail data) :
    g.sfhFold hash data = h.sfhFold hash data := by
  induction hash, data using Host.sfhFold.induct g with
  | case1 hash => rfl
  | case2 hash a =>
    have hchar := char_plain (c := a) g h (.inl rfl) hp rfl
    rw [Host.sfhFold, Host.sfhFold, hchar]
  | case3 hash a b => rw [Host.sfhFold, Host.sfhFold, sfhGet16_eq, sfhGet16_eq]
  | case4 hash a b c =>
    have hchar := char_plain (c := c) g h (.inr rfl) hp rfl
    rw [Host.sfhFold, Host.sfhFold, sfhGet16_eq, sfhGet16_eq, hchar]
  | case5 hash a b c d data ih =>
    rw [Host.sfhFold, Host.sfhFold, ih (plainTail_step hp), sfhRound_eq, sfhRound_eq]

theorem sfhFold_signed (hs : h.signedChar = true) (hash : U32) (data : List U8) :
    h.sfhFold hash data = sfhFold hash data := by
  have hchar : ∀ c, h.char c = c.signExtend 32 := fun c => by rw [Host.char, hs, if_pos rfl]
  induction hash, data using sfhFold.induct with
  | case1 hash => rfl
  | case2 hash a => rw [Host.sfhFold, sfhFold, hchar]
  | case3 hash a b => rw [Host.sfhFold, sfhFold, sfhGet16_eq]
  | case4 hash a b c => rw [Host.sfhFold, sfhFold, sfhGet16_eq, hchar]
  | case5 hash a b c d data ih => rw [Host.sfhFold, sfhFold, sfhRound_eq, ih]

theorem sfhHash_signed (hs : h.signedChar = true) (data : List U8) :
    h.sfhHash data = sfhHash data := by
  rw [Host.sfhHash, sfhHash, sfhFold_signed hs]

theorem sfhHash_plain (g h : Host) (hp : PlainTail data) : g.sfhHash data = h.sfhHash data := by
  rw [Host.sfhHash, Host.sfhHash, sfhFold_plain g h _ hp]

end Machines

def signedHost : Host := ⟨true, false, false, fun _ => rfl⟩

def unsignedHost : Host := ⟨false, false, false, fun _ => rfl⟩

theorem tail_differs : ∀ c : U8, 0x80 ≤ c.toNat →
    signedHost.sfhHash [c] ≠ unsignedHost.sfhHash [c] ∧
      signedHost.sfhHash [0, 0, c] ≠ unsignedHost.sfhHash [0, 0, c] := by
  decide +kernel

/-- The hash does not depend on the machine for a text whose last byte is not read as a `char` or is an
ASCII character; of the texts of any other length and last byte, some are hashed differently. -/
theorem sfhHash_independent_iff (data : List U8) :
    (PlainTail data → ∀ g h : Host, g.sfhHash data = h.sfhHash data) ∧
    ((∀ data' : List U8, data'.length % 4 = data.length % 4 → data'.getLast? = data.getLast? →
      ∀ g h : Host, g.sfhHash data' = h.sfhHash data') ↔ PlainTail data) := by
  refine ⟨fun hp g h => sfhHash_plain g h hp, ?_, ?_⟩
  · intro hall
    by_contra hplain
    obtain ⟨hzero, hrest⟩ := not_or.mp hplain
    obtain ⟨htwo, hrest⟩ := not_or.mp hrest
    obtain ⟨c, hlast, hwide⟩ : ∃ c, data.getLast? = some c ∧ 0x80 ≤ c.toNat := by
      by_contra hnone
      apply hrest
      intro c hlast
      by_contra hc
      exact hnone ⟨c, hlast, Nat.le_of_not_lt hc⟩
    obtain ⟨hone, hthree⟩ := tail_differs c hwide
    have hodd : data.length % 4 = 1 ∨ data.length % 4 = 3 := by omega
    rcases hodd with hlen | hlen
    · exact hone (hall [c] hlen.symm hlast.symm signedHost unsignedHost)
    · exact hthree (hall [0, 0, c] hlen.symm hlast.symm signedHost unsignedHost)
  · intro hp data' hlen hlast g h
    apply sfhHash_plain
    unfold PlainTail
    rw [hlen, hlast]
    exact hp

/-- The letter é of Latin-1. -/
theorem sign_reaches_hash : ¬ ∀ (data : List U8) (g h : Host), g.sfhHash data = h.sfhHash data :=
  fun hall => (tail_differs 0xe9 (by decide)).1 (hall [0xe9] signedHost unsignedHost)

end OpenwrtMtk.Luci
